import GraphRead.Proofs.Filter.Matches
import GraphRead.Store.Memory
import Mathlib.Data.List.Pairwise
/-!
Sorting rows, and limiting them by the value of a column.

Sorting is stable, so it does not matter whether rows are left out before or after it
(`filter_mergeSort`). Of the rows with one value of a column, a window keeps as many from the front
as a limit on those rows alone would (`filter_firstOfEach`). Together they say that a windowed read
holds, for each value, what a read for that value alone would give.
-/

namespace GraphRead

section Sorting

variable {α : Type} (cmp : α → α → Ordering)

/-- The order of sorting that a comparison gives: nothing comes after what is greater. -/
def notAfter (l r : α) : Bool := cmp l r != .gt

theorem notAfter_eq_isLE (l r : α) : notAfter cmp l r = (cmp l r).isLE := by
  unfold notAfter
  cases cmp l r <;> rfl

variable [Std.TransCmp cmp]

theorem notAfter_trans (a b c : α) (first : notAfter cmp a b) (second : notAfter cmp b c) :
    notAfter cmp a c := by
  rw [notAfter_eq_isLE] at *
  exact Std.TransCmp.isLE_trans first second

theorem notAfter_total (a b : α) : notAfter cmp a b || notAfter cmp b a := by
  have swapped : cmp b a = (cmp a b).swap := Std.OrientedCmp.eq_swap
  rw [notAfter_eq_isLE, notAfter_eq_isLE, swapped]
  cases cmp a b <;> rfl

/-- Where a list is cut in two by what its members fail and pass, the two parts are known. -/
theorem append_inj_of_split {l₁ l₂ m₁ m₂ : List α} (test : α → Bool)
    (same : l₁ ++ l₂ = m₁ ++ m₂) (left : ∀ a ∈ l₁, test a = false) (right : ∀ a ∈ l₂, test a = true)
    (left' : ∀ a ∈ m₁, test a = false) (right' : ∀ a ∈ m₂, test a = true) :
    l₁ = m₁ ∧ l₂ = m₂ := by
  have none : l₁.filter test = [] :=
    List.filter_eq_nil_iff.mpr fun a present => by rw [left a present]; decide
  have none' : m₁.filter test = [] :=
    List.filter_eq_nil_iff.mpr fun a present => by rw [left' a present]; decide
  have passed := congrArg (List.filter test) same
  rw [List.filter_append, List.filter_append, none, none', List.filter_eq_self.mpr right,
    List.filter_eq_self.mpr right', List.nil_append, List.nil_append] at passed
  subst passed
  exact ⟨List.append_cancel_right same, rfl⟩

/-- It does not matter whether members are left out before or after sorting. -/
theorem filter_mergeSort (keep : α → Bool) (l : List α) :
    (l.mergeSort (notAfter cmp)).filter keep = (l.filter keep).mergeSort (notAfter cmp) := by
  induction l with
  | nil => simp
  | cons a rest ih =>
    have trans := notAfter_trans cmp
    have total := notAfter_total cmp
    obtain ⟨l₁, l₂, whole, others, before⟩ := List.mergeSort_cons trans total a rest
    by_cases kept : keep a
    · obtain ⟨m₁, m₂, whole', others', before'⟩ :=
        List.mergeSort_cons trans total a (rest.filter keep)
      -- Both sides have `a` between the same members: those that do not come after it follow.
      have after {l m k : List α} (sorted : (a :: l).mergeSort (notAfter cmp) = m ++ a :: k) :
          ∀ b ∈ k, notAfter cmp a b = true := by
        have ordered := List.pairwise_mergeSort trans total (a :: l)
        rw [sorted] at ordered
        exact (List.pairwise_cons.mp (List.pairwise_append.mp ordered).2.1).1
      have same : l₁.filter keep ++ l₂.filter keep = m₁ ++ m₂ := by
        rw [← List.filter_append, ← others, ih, others']
      have parts := append_inj_of_split (notAfter cmp a) same
        (fun b present => by simpa using before b (List.mem_filter.mp present).1)
        (fun b present => after whole b (List.mem_filter.mp present).1)
        (fun b present => by simpa using before' b present) (after whole')
      rw [whole, List.filter_append, List.filter_cons_of_pos kept, List.filter_cons_of_pos kept,
        whole', parts.1, parts.2]
    · rw [whole, List.filter_append, List.filter_cons_of_neg kept, List.filter_cons_of_neg kept,
        ← List.filter_append, ← others, ih]

/-- No two members of a list compare equal. -/
def Strict (l : List α) : Prop := l.Pairwise fun a b => cmp a b ≠ .eq

variable {cmp} in
theorem Strict.perm {l m : List α} (strict : Strict cmp l) (perm : l.Perm m) : Strict cmp m :=
  perm.pairwise strict fun differ same => differ (Std.OrientedCmp.eq_comm.mp same)

variable {cmp} in
/-- Members that compare equal are the same member. -/
theorem Strict.eq_of_compare {l : List α} (strict : Strict cmp l) {a b : α} (here : a ∈ l)
    (there : b ∈ l) (same : cmp a b = .eq) : a = b := by
  have symmetric : Std.Symm fun a b => cmp a b ≠ .eq :=
    ⟨fun _ _ apart same => apart (Std.OrientedCmp.eq_comm.mp same)⟩
  by_contra differ
  exact List.Pairwise.forall strict here there differ same

end Sorting

/-! ### Rows -/

namespace Direction

theorem apply_swap (direction : Direction) (ordering : Ordering) :
    direction.apply ordering.swap = (direction.apply ordering).swap := by
  cases direction <;> rfl

theorem agree_apply (direction : Direction) {x y z : Ordering} (agree : Agree x y z) :
    Agree (direction.apply x) (direction.apply y) (direction.apply z) := by
  cases direction
  · exact agree
  · exact agree.swap

end Direction

namespace Memory

theorem compareRows_swap (order : Order) (l r : Row) :
    compareRows order l r = (compareRows order r l).swap := by
  induction order with
  | nil => rfl
  | cons part parts ih =>
    rw [compareRows, compareRows, Ordering.swap_then, ← ih, ← Direction.apply_swap]
    exact congrArg (fun ordering => (part.direction.apply ordering).then _)
      (Std.OrientedCmp.eq_swap : compare (l.value part.column) (r.value part.column) = _)

theorem agree_compareRows (order : Order) (a b c : Row) :
    Agree (compareRows order a b) (compareRows order b c) (compareRows order a c) := by
  induction order with
  | nil =>
    exact ⟨fun _ => rfl, fun _ => rfl, fun less _ => (nomatch less), fun more _ => (nomatch more)⟩
  | cons part parts ih =>
    exact (part.direction.agree_apply (.of_transCmp _ _ _)).then fun _ _ => ih

instance (order : Order) : Std.TransCmp (compareRows order) where
  eq_swap := compareRows_swap order _ _
  isLE_trans := (agree_compareRows order _ _ _).isLE

/-- Rows compare as the values of the columns that they are sorted by do. -/
theorem compareKeys_values (order : Order) (l r : Row) :
    order.compareKeys (order.columns.map l.value) (order.columns.map r.value) =
      compareRows order l r := by
  induction order with
  | nil => rfl
  | cons part parts ih =>
    rw [compareRows, ← ih]
    rfl

/-- It does not matter whether rows are left out before or after sorting. -/
theorem filter_sortRows (order : Order) (keep : Row → Bool) (rows : List Row) :
    (sortRows order rows).filter keep = sortRows order (rows.filter keep) :=
  filter_mergeSort (compareRows order) keep rows

/-- The rows of a value that a window admits, where rows of it may have been seen before. -/
theorem filter_firstOfEach_seen (window : Window) (v : Value) (seen : List Value)
    (rows : List Row) :
    (firstOfEach window seen rows).filter (Row.has window.column v) =
      (rows.filter (Row.has window.column v)).take
        (window.limit - seen.countP fun other => other == v) := by
  induction rows generalizing seen with
  | nil => simp [firstOfEach]
  | cons row rest ih =>
    have later := ih (row.value window.column :: seen)
    rw [List.countP_cons] at later
    rw [firstOfEach]
    by_cases here : row.has window.column v
    · have same : row.value window.column == v := here
      have counted : (seen.countP fun other => other == row.value window.column) =
          seen.countP fun other => other == v :=
        congrArg (seen.countP ·) (funext fun other => BEq.congr_right same)
      rw [if_pos same] at later
      rw [List.filter_cons_of_pos here, counted]
      split
      · rename_i room
        obtain ⟨n, left⟩ : ∃ n, window.limit - (seen.countP fun other => other == v) = n + 1 :=
          ⟨window.limit - (seen.countP fun other => other == v) - 1, by omega⟩
        rw [List.filter_cons_of_pos here, later, left, List.take_succ_cons]
        congr 2
        omega
      · rename_i full
        rw [later, show window.limit - (seen.countP fun other => other == v) = 0 by omega,
          List.take_zero, List.take_eq_nil_iff]
        exact .inl (by omega)
    · rw [if_neg (show ¬(row.value window.column == v) = true from here), Nat.add_zero] at later
      rw [List.filter_cons_of_neg here, ← later]
      split
      · rw [List.filter_cons_of_neg here]
      · rfl

/-- Of the rows with one value, a window admits the first ones. -/
theorem filter_firstOfEach (window : Window) (v : Value) (rows : List Row) :
    (firstOfEach window [] rows).filter (Row.has window.column v) =
      (rows.filter (Row.has window.column v)).take window.limit :=
  filter_firstOfEach_seen window v [] rows

/-- A window leaves rows out and changes none. -/
theorem firstOfEach_sublist (window : Window) (seen : List Value) (rows : List Row) :
    (firstOfEach window seen rows).Sublist rows := by
  induction rows generalizing seen with
  | nil => exact .slnil
  | cons row rest ih =>
    rw [firstOfEach]
    split
    · exact (ih _).cons_cons _
    · exact (ih _).cons _

end Memory

end GraphRead
