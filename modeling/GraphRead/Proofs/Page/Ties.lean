import GraphRead.Proofs.Binding.Formed
import GraphRead.Proofs.Page.Merging
/-!
Parts of a list that do not tie.

Sorting keeps members that tie in their order, so in general it matters in which order the parts of
a list are put together. It does not matter where members of different parts never tie
(`mergeSort_flatMap_perm`), however often members of one part do. The records of a list are told
apart by the names of their types at last, so a page is the same whichever type is read first
(`mergeMany_perm`).
-/

namespace GraphRead

section Parts

variable {α ι : Type} {cmp : α → α → Ordering} [Std.TransCmp cmp]

/-- Two lists can be merged from either side if their members do not tie. -/
theorem merge_comm {xs ys : List α} (apart : ∀ x ∈ xs, ∀ y ∈ ys, cmp x y ≠ .eq) :
    xs.merge ys (notAfter cmp) = ys.merge xs (notAfter cmp) := by
  induction xs generalizing ys with
  | nil => rw [List.nil_merge, List.merge_right]
  | cons x xs ihx =>
    induction ys with
    | nil => rw [List.nil_merge, List.merge_right]
    | cons y ys ihy =>
      have swapped : cmp y x = (cmp x y).swap := Std.OrientedCmp.eq_swap
      have strict := apart x List.mem_cons_self y List.mem_cons_self
      have left := ihx fun x' present => (List.forall_mem_cons.mp apart).2 x' present
      have right := ihy fun x' present y' there =>
        apart x' present y' (List.mem_cons_of_mem _ there)
      rw [List.cons_merge_cons, List.cons_merge_cons]
      unfold notAfter at left right ⊢
      cases order : cmp x y with
      | eq => exact absurd order strict
      | lt =>
        rw [order] at swapped
        rw [swapped]
        exact congrArg (x :: ·) left
      | gt =>
        rw [order] at swapped
        rw [swapped]
        exact congrArg (y :: ·) right

/-- **It does not matter in which order parts are put together, if members of different parts do
not tie.** -/
theorem mergeSort_flatMap_perm (parts : ι → List α) {is js : List ι} (perm : is.Perm js)
    (apart : is.Pairwise fun i j => ∀ a ∈ parts i, ∀ b ∈ parts j, cmp a b ≠ .eq) :
    (is.flatMap parts).mergeSort (notAfter cmp) = (js.flatMap parts).mergeSort (notAfter cmp) := by
  induction perm with
  | nil => rfl
  | cons i _ ih =>
    rw [List.flatMap_cons, List.flatMap_cons, mergeSort_append, mergeSort_append,
      ih (List.pairwise_cons.mp apart).2]
  | swap i j rest =>
    have differ := (List.pairwise_cons.mp apart).1 i List.mem_cons_self
    have both : (parts j ++ parts i).mergeSort (notAfter cmp) =
        (parts i ++ parts j).mergeSort (notAfter cmp) := by
      rw [mergeSort_append, mergeSort_append, merge_comm]
      intro a here b there
      exact differ a ((List.mergeSort_perm _ _).mem_iff.mp here) b
        ((List.mergeSort_perm _ _).mem_iff.mp there)
    rw [List.flatMap_cons, List.flatMap_cons, List.flatMap_cons, List.flatMap_cons,
      ← List.append_assoc, ← List.append_assoc, mergeSort_append, mergeSort_append (parts i ++ _),
      both]
  | trans first _ ih ih' =>
    rw [ih apart, ih' (first.pairwise apart fun differ a here b there tie =>
      differ b there a here (Std.OrientedCmp.eq_comm.mp tie))]

end Parts

/-! ### The records of a list -/

namespace Order

/-- Compares two rows given as the values of the columns, where a value that is not there counts as
null. -/
def compareFilled : Order → List Value → List Value → Ordering
  | [], _, _ => .eq
  | part :: parts, l, r =>
    (part.direction.apply (compare (l.headD .null) (r.headD .null))).then
      (compareFilled parts l.tail r.tail)

theorem compareFilled_swap (order : Order) (l r : List Value) :
    order.compareFilled l r = (order.compareFilled r l).swap := by
  induction order generalizing l r with
  | nil => rfl
  | cons part parts ih =>
    rw [compareFilled, compareFilled, Ordering.swap_then, ← ih, ← Direction.apply_swap]
    exact congrArg (fun ordering => (part.direction.apply ordering).then _)
      (Std.OrientedCmp.eq_swap : compare (l.headD .null) (r.headD .null) = _)

theorem agree_compareFilled (order : Order) (a b c : List Value) :
    Agree (order.compareFilled a b) (order.compareFilled b c) (order.compareFilled a c) := by
  induction order generalizing a b c with
  | nil =>
    exact ⟨fun _ => rfl, fun _ => rfl, fun less _ => (nomatch less), fun more _ => (nomatch more)⟩
  | cons part parts ih =>
    exact (part.direction.agree_apply (.of_transCmp _ _ _)).then fun _ _ => ih _ _ _

/-- Where all values are there, none is filled in. -/
theorem compareKeys_eq_filled {order : Order} {l r : List Value} (left : l.length = order.length)
    (right : r.length = order.length) : order.compareKeys l r = order.compareFilled l r := by
  induction order generalizing l r with
  | nil => rfl
  | cons part parts ih =>
    obtain ⟨v, l, rfl⟩ := List.exists_cons_of_length_eq_add_one left
    obtain ⟨w, r, rfl⟩ := List.exists_cons_of_length_eq_add_one right
    rw [compareKeys, compareFilled, List.tail_cons, List.tail_cons,
      ih (Nat.succ.inj left) (Nat.succ.inj right)]
    rfl

end Order

namespace Fetched

/-- Compares two records of a list, where a value that is not there counts as null. -/
def compareFilled (order : Order) (l r : Fetched) : Ordering :=
  (order.compareFilled l.sortKey r.sortKey).then
    (Ord.compare l.record.type.name r.record.type.name)

instance (order : Order) : Std.TransCmp (compareFilled order) where
  eq_swap {l r} := by
    rw [compareFilled, compareFilled, Ordering.swap_then, ← Order.compareFilled_swap]
    exact congrArg (Ordering.then _) Std.OrientedOrd.eq_swap
  isLE_trans :=
    ((order.agree_compareFilled _ _ _).then fun _ _ => Agree.of_transCmp _ _ _).isLE

/-- A record has a value for every column that its list is sorted by. -/
def Sortable (order : Order) (r : Fetched) : Prop := r.sortKey.length = order.length

end Fetched

theorem mergeSort_fetched {order : Order} {records : List Fetched}
    (sortable : ∀ r ∈ records, r.Sortable order) :
    records.mergeSort (fun l r => compareFetched order l r != .gt) =
      records.mergeSort (notAfter (Fetched.compareFilled order)) := by
  have same := List.map_mergeSort (f := id) (l := records)
    (r := fun l r => compareFetched order l r != .gt)
    (s := notAfter (Fetched.compareFilled order)) fun l here r there => by
      rw [compareFetched, Order.compareKeys_eq_filled (sortable l here) (sortable r there)]
      rfl
  rwa [List.map_id, List.map_id] at same

/-- **A page is the same in whichever order its types are read**, if records of different parts are
of different types. -/
theorem mergeMany_perm {ι : Type} (parts : ι → List Fetched) {is js : List ι} (perm : is.Perm js)
    (apart : is.Pairwise fun i j => ∀ a ∈ parts i, ∀ b ∈ parts j,
      a.record.type.name ≠ b.record.type.name) {c c' : BoundConnection}
    (shared : c'.shared = c.shared) (order : c'.effectiveOrder = c.effectiveOrder)
    (sortable : ∀ i ∈ is, ∀ r ∈ parts i, r.Sortable c.effectiveOrder) (total : Nat) :
    mergeMany (js.flatMap parts) (some c') total = mergeMany (is.flatMap parts) (some c) total := by
  have sorted :
      (js.flatMap parts).mergeSort (fun l r => compareFetched c.effectiveOrder l r != .gt) =
      (is.flatMap parts).mergeSort fun l r => compareFetched c.effectiveOrder l r != .gt := by
    have all : ∀ r ∈ is.flatMap parts, r.Sortable c.effectiveOrder := fun r present => by
      obtain ⟨i, known, there⟩ := List.mem_flatMap.mp present
      exact sortable i known r there
    rw [mergeSort_fetched all, mergeSort_fetched fun r present =>
      all r ((perm.flatMap_right parts).mem_iff.mpr present)]
    refine (mergeSort_flatMap_perm parts perm (apart.imp fun differ a here b there tie => ?_)).symm
    exact differ a here b there
      (Std.LawfulEqOrd.eq_of_compare (Ordering.then_eq_eq.mp tie).2)
  have page : c'.pagination = c.pagination := congrArg Shared.pagination shared
  have info : c'.pageInfo = c.pageInfo := congrArg Shared.pageInfo shared
  have count : c'.count = c.count := congrArg Shared.count shared
  simp only [mergeMany, order, page, info, count, sorted]

end GraphRead
