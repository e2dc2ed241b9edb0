import GraphRead.Proofs.Store.Sorting
import GraphRead.Resolve.Merge
import Mathlib.Data.List.Flatten
import Mathlib.Data.List.Perm.Basic
/-!
Pages that are cut from the first rows of several parts.

A page of a list takes its members from one end of the list. If the list is made of several parts,
it is enough to have as many members of each part, from that end. Sorting is stable, so sorting two
lists together merges them, each sorted on its own (`mergeSort_append`), and the first members of a
merged list are among the first of either side (`take_merge`). So sorting the ends of the parts
together and cutting gives the page of the whole list (`cut_mergeSort_parts`), and one more member
of each part is enough to tell whether there is anything beyond the page (`length_flatMap_take`).
Members that tie are the same way round in every case, unless the page is taken from the other end.
-/

namespace GraphRead

section Front

variable {α : Type} {cmp : α → α → Ordering}

/-- A single member is merged in behind those that it comes after. -/
theorem merge_singleton {a : α} {before after : List α}
    (passed : ∀ b ∈ before, notAfter cmp a b = false)
    (rest : ∀ b ∈ after, notAfter cmp a b = true) :
    [a].merge (before ++ after) (notAfter cmp) = before ++ a :: after := by
  induction before with
  | nil => exact List.merge_of_le fun x b here there => List.mem_singleton.mp here ▸ rest b there
  | cons b before ih =>
    obtain ⟨first, later⟩ := List.forall_mem_cons.mp passed
    rw [List.cons_append, List.cons_merge_cons, first, if_neg Bool.false_ne_true, ih later]
    rfl

/-- The first members of a merged list are among the first of either side. -/
theorem take_merge {n m k : Nat} (left : n ≤ m) (right : n ≤ k) (xs ys : List α) :
    ((xs.take m).merge (ys.take k) (notAfter cmp)).take n =
      (xs.merge ys (notAfter cmp)).take n := by
  induction n generalizing m k xs ys with
  | zero => rw [List.take_zero, List.take_zero]
  | succ n ih =>
    obtain ⟨m, rfl⟩ := Nat.exists_eq_succ_of_ne_zero (show m ≠ 0 by omega)
    obtain ⟨k, rfl⟩ := Nat.exists_eq_succ_of_ne_zero (show k ≠ 0 by omega)
    cases xs with
    | nil =>
      rw [List.take_nil, List.nil_merge, List.nil_merge, List.take_take, Nat.min_eq_left right]
    | cons x xs =>
      cases ys with
      | nil =>
        rw [List.take_nil, List.merge_right, List.merge_right, List.take_take, Nat.min_eq_left left]
      | cons y ys =>
        rw [List.take_succ_cons, List.take_succ_cons, List.cons_merge_cons, List.cons_merge_cons]
        split
        · have rest := ih (show n ≤ m by omega) (show n ≤ k + 1 by omega) xs (y :: ys)
          rw [List.take_succ_cons] at rest
          rw [List.take_succ_cons, List.take_succ_cons, rest]
        · have rest := ih (show n ≤ m + 1 by omega) (show n ≤ k by omega) (x :: xs) ys
          rw [List.take_succ_cons] at rest
          rw [List.take_succ_cons, List.take_succ_cons, rest]

variable [Std.TransCmp cmp]

/-- A single member may be merged in before or after the rest is. -/
theorem merge_singleton_merge (a : α) (xs ys : List α) :
    [a].merge (xs.merge ys (notAfter cmp)) (notAfter cmp) =
      ([a].merge xs (notAfter cmp)).merge ys (notAfter cmp) := by
  have trans := notAfter_trans cmp
  have total := notAfter_total cmp
  induction xs generalizing ys with
  | nil => rw [List.nil_merge, List.merge_right]
  | cons x xs ihx =>
    induction ys with
    | nil => rw [List.merge_right, List.merge_right]
    | cons y ys ihy =>
      by_cases ax : notAfter cmp a x = true
      · have left : [a].merge (x :: xs) (notAfter cmp) = a :: x :: xs := by
          rw [List.cons_merge_cons, if_pos ax, List.nil_merge]
        rw [left] at ihy ⊢
        by_cases xy : notAfter cmp x y = true
        · rw [List.cons_merge_cons, if_pos xy, List.cons_merge_cons, if_pos ax, List.nil_merge,
            List.cons_merge_cons, if_pos (trans _ _ _ ax xy), List.cons_merge_cons, if_pos xy]
        · rw [List.cons_merge_cons (a := x), if_neg xy, List.cons_merge_cons,
            List.cons_merge_cons (a := a) (l := x :: xs)]
          split
          · rw [List.nil_merge, List.cons_merge_cons, if_neg xy]
          · rw [ihy]
      · have left : [a].merge (x :: xs) (notAfter cmp) = x :: [a].merge xs (notAfter cmp) := by
          rw [List.cons_merge_cons, if_neg ax]
        rw [left] at ihy ⊢
        by_cases xy : notAfter cmp x y = true
        · rw [List.cons_merge_cons, if_pos xy, List.cons_merge_cons, if_neg ax,
            List.cons_merge_cons, if_pos xy, ihx]
        · have yx : notAfter cmp y x = true := by simpa [xy] using total x y
          rw [List.cons_merge_cons, if_neg xy, List.cons_merge_cons,
            if_neg fun ay => ax (trans _ _ _ ay yx), List.cons_merge_cons, if_neg xy, ihy]

/-- Sorting puts a member in front of the first one that it does not come after. -/
theorem mergeSort_cons_eq (a : α) (l : List α) :
    (a :: l).mergeSort (notAfter cmp) = [a].merge (l.mergeSort (notAfter cmp)) (notAfter cmp) := by
  have trans := notAfter_trans cmp
  have total := notAfter_total cmp
  obtain ⟨before, after, whole, others, passed⟩ := List.mergeSort_cons trans total a l
  have ordered := List.pairwise_mergeSort trans total (a :: l)
  rw [whole] at ordered
  rw [whole, others, merge_singleton (fun b here => by simpa using passed b here)
    (List.pairwise_cons.mp (List.pairwise_append.mp ordered).2.1).1]

/-- Sorting two lists together merges them, each sorted on its own. -/
theorem mergeSort_append (l r : List α) :
    (l ++ r).mergeSort (notAfter cmp) =
      (l.mergeSort (notAfter cmp)).merge (r.mergeSort (notAfter cmp)) (notAfter cmp) := by
  induction l with
  | nil => rw [List.nil_append, List.mergeSort_nil, List.nil_merge]
  | cons a l ih =>
    rw [List.cons_append, mergeSort_cons_eq, mergeSort_cons_eq, ih, merge_singleton_merge]

/-- The first members of a whole come from the first members of its parts. -/
theorem take_mergeSort_parts {ι : Type} (parts : ι → List α) {n m : Nat} (enough : n ≤ m)
    (is : List ι) :
    ((is.flatMap fun i => ((parts i).mergeSort (notAfter cmp)).take m).mergeSort
        (notAfter cmp)).take n =
      ((is.flatMap parts).mergeSort (notAfter cmp)).take n := by
  induction is with
  | nil => rfl
  | cons i rest ih =>
    have part : (((parts i).mergeSort (notAfter cmp)).take m).mergeSort (notAfter cmp) =
        ((parts i).mergeSort (notAfter cmp)).take m := by
      have ordered := List.pairwise_mergeSort (notAfter_trans cmp) (notAfter_total cmp) (parts i)
      exact List.mergeSort_of_pairwise (ordered.sublist (List.take_sublist m _))
    rw [List.flatMap_cons, List.flatMap_cons, mergeSort_append, mergeSort_append, part,
      ← take_merge (Nat.le_refl n) (Nat.le_refl n), ih, List.take_take, Nat.min_eq_left enough,
      take_merge (Nat.le_refl n) (Nat.le_refl n)]

/-- Sorting the other way round gives the list from its end. -/
theorem mergeSort_flip {l : List α} (strict : Strict cmp l) :
    l.mergeSort (notAfter fun a b => cmp b a) = (l.mergeSort (notAfter cmp)).reverse := by
  have flipped : Std.TransCmp fun a b => cmp b a := Std.TransCmp.opposite
  have perm := (List.mergeSort_perm l (notAfter fun a b => cmp b a)).trans
    ((List.reverse_perm _).trans (List.mergeSort_perm l (notAfter cmp))).symm
  have forward := List.pairwise_mergeSort (notAfter_trans cmp) (notAfter_total cmp) l
  refine List.Perm.eq_of_pairwise ?_
    (List.pairwise_mergeSort (notAfter_trans _) (notAfter_total _) l)
    (List.pairwise_reverse.mpr forward) perm
  intro a b here there left right
  have here : a ∈ l := (List.mergeSort_perm l _).mem_iff.mp here
  have there : b ∈ l :=
    (List.mergeSort_perm l (notAfter cmp)).mem_iff.mp (List.mem_reverse.mp there)
  rw [notAfter_eq_isLE] at left right
  exact strict.eq_of_compare here there (Std.OrientedCmp.isLE_antisymm right left)

/-- One more member of each part tells whether a whole has more members. -/
theorem length_flatMap_take {ι : Type} (parts : ι → List α) (m : Nat) (is : List ι) :
    min m (is.flatMap fun i => (parts i).take m).length = min m (is.flatMap parts).length := by
  induction is with
  | nil => rfl
  | cons i rest ih =>
    rw [List.flatMap_cons, List.flatMap_cons, List.length_append, List.length_append,
      List.length_take]
    omega

end Front

namespace Pagination

/-- A comparison as it is made from the end of the list at which a page begins. -/
def toward {α : Type} (page : Pagination) (cmp : α → α → Ordering) : α → α → Ordering :=
  if page.isBackward then fun a b => cmp b a else cmp

variable {α ι : Type} {cmp : α → α → Ordering} [Std.TransCmp cmp]

/-- The last members of a list are the first ones from its end. -/
theorem cut_backward (last : Nat) (before : Option Cursor) (items : List α) :
    (backward last before).cut items = (items.reverse.take last).reverse := by
  rw [cut, List.reverse_take, List.reverse_reverse, List.length_reverse]

/-- The page of a whole that is sorted comes from the first rows of its parts, in the direction
of the page. Where it is taken from the end of the list, rows that tie would be turned round. -/
theorem cut_mergeSort_parts (page : Pagination) (parts : ι → List α) {m : Nat}
    (enough : page.limit ≤ m) (is : List ι)
    (strict : page.isBackward = true → Strict cmp (is.flatMap parts)) :
    page.cut ((is.flatMap fun i =>
        ((parts i).mergeSort (notAfter (page.toward cmp))).take m).mergeSort (notAfter cmp)) =
      page.cut ((is.flatMap parts).mergeSort (notAfter cmp)) := by
  cases page with
  | forward first after =>
    exact @take_mergeSort_parts α cmp _ ι parts first m enough is
  | backward last before =>
    have strict := strict rfl
    have flipped : Std.TransCmp fun a b => cmp b a := Std.TransCmp.opposite
    have front := @take_mergeSort_parts α (fun a b => cmp b a) flipped ι parts last m enough is
    have fewer : Strict cmp (is.flatMap fun i =>
        ((parts i).mergeSort (notAfter fun a b => cmp b a)).take m) := by
      have sorted : (is.flatMap fun i => (parts i).mergeSort (notAfter fun a b => cmp b a)).Perm
          (is.flatMap parts) := List.Perm.flatMap_left is fun i _ => List.mergeSort_perm _ _
      refine List.Pairwise.sublist ?_ (strict.perm sorted.symm)
      exact List.Sublist.flatMap_right is fun i _ => List.take_sublist m _
    rw [cut_backward, cut_backward, ← mergeSort_flip strict]
    show ((((is.flatMap fun i =>
      ((parts i).mergeSort (notAfter fun a b => cmp b a)).take m)).mergeSort _).reverse.take
        last).reverse = _
    rw [← mergeSort_flip fewer]
    exact congrArg List.reverse front

end Pagination

end GraphRead
