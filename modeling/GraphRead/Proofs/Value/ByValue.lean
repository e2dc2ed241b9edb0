import GraphRead.ByValue
import GraphRead.Proofs.Value.Order
import Mathlib.Algebra.GroupWithZero.Nat
/-!
Mappings from values, and the distinct values of a list.

What is filed under a value is found again under every value that is the same (`get?_alter`), and
nothing else changes. The groups of a list count its members (`sumAt_groups`), and its distinct
values stand for all of them, each once (`distinct_pairwise`, `exists_mem_distinct`). Pairs whose
values are all different are a mapping as they stand (`ofList_eq`).
-/

namespace GraphRead

/-- The two values are not the same. -/
def Value.Differ (a b : Value) : Prop := (a == b) = false

theorem Value.Differ.symm {a b : Value} (differ : a.Differ b) : b.Differ a := by
  unfold Differ at *
  rw [Bool.eq_false_iff] at *
  exact fun same => differ (BEq.symm same)

namespace ByValue

variable {α : Type}

/-- Values that are the same find the same. -/
theorem get?_congr (entries : ByValue α) {key v : Value} (same : key == v) :
    get? entries key = get? entries v := by
  induction entries with
  | nil => rfl
  | cons entry rest ih =>
    obtain ⟨k, a⟩ := entry
    rw [get?, get?, ih, BEq.congr_right same]

theorem get?_alter (entries : ByValue α) (key v : Value) (f : Option α → α) :
    get? (alter entries key f) v =
      if key == v then some (f (get? entries key)) else get? entries v := by
  induction entries with
  | nil => simp only [alter, get?]
  | cons entry rest ih =>
    obtain ⟨k, a⟩ := entry
    by_cases here : k == key
    · have moved : (k == v) = (key == v) := BEq.congr_left here
      simp only [alter, get?, here, if_true, moved]
      split <;> rfl
    · simp only [alter, get?, here, ih, Bool.false_eq_true, if_false]
      by_cases found : k == v
      · have other : (key == v) = false := by
          rw [Bool.eq_false_iff]
          intro same
          exact here (BEq.trans found (BEq.symm same))
        simp only [found, other, if_true, Bool.false_eq_true, if_false]
      · simp only [found, Bool.false_eq_true, if_false]

/-- Taking a value out leaves what is filed under the others. -/
theorem get?_erase_of_differ (entries : ByValue α) {key v : Value} (differ : key.Differ v) :
    get? (erase entries key) v = get? entries v := by
  induction entries with
  | nil => rfl
  | cons entry rest ih =>
    obtain ⟨k, a⟩ := entry
    by_cases here : k == key
    · have other : (k == v) = false := by rw [BEq.congr_left here]; exact differ
      simp only [erase, get?, here, other, if_true, Bool.false_eq_true, if_false]
    · simp only [erase, get?, here, ih, Bool.false_eq_true, if_false]

/-- Nothing is found under a value exactly if all entries are of other values. -/
theorem get?_eq_none_iff {entries : ByValue α} {v : Value} :
    get? entries v = none ↔ ∀ entry ∈ entries, entry.1.Differ v := by
  induction entries with
  | nil => simp [get?]
  | cons entry rest ih =>
    obtain ⟨k, a⟩ := entry
    rw [List.forall_mem_cons, get?, ← ih, Value.Differ]
    by_cases here : k == v <;> simp [here]

theorem exists_of_get? {entries : ByValue α} {v : Value} {a : α}
    (found : get? entries v = some a) : ∃ entry ∈ entries, entry.1 == v ∧ entry.2 = a := by
  induction entries with
  | nil => cases found
  | cons entry rest ih =>
    obtain ⟨k, b⟩ := entry
    rw [get?] at found
    split at found
    · rename_i same
      exact ⟨_, List.mem_cons_self, same, Option.some.inj found⟩
    · obtain ⟨entry, known, which⟩ := ih found
      exact ⟨entry, List.mem_cons_of_mem _ known, which⟩

/-- An entry has been there before, or it is the one that is changed. -/
theorem mem_alter {entries : ByValue α} {key : Value} {f : Option α → α} {entry : Value × α}
    (present : entry ∈ alter entries key f) :
    entry ∈ entries ∨ entry.1 == key ∧ entry.2 = f (get? entries key) := by
  induction entries with
  | nil =>
    cases List.mem_singleton.mp present
    exact .inr ⟨BEq.rfl, rfl⟩
  | cons first rest ih =>
    obtain ⟨k, a⟩ := first
    rw [alter] at present
    rw [get?]
    split at present
    · rename_i same
      rcases List.mem_cons.mp present with rfl | later
      · exact .inr ⟨same, by rw [if_pos same]⟩
      · exact .inl (List.mem_cons_of_mem _ later)
    · rename_i other
      rw [if_neg other]
      rcases List.mem_cons.mp present with rfl | later
      · exact .inl List.mem_cons_self
      · exact (ih later).imp_left (List.mem_cons_of_mem _)

/-- Changing what is filed keeps the values of the entries different. -/
theorem alter_pairwise {entries : ByValue α}
    (differ : entries.Pairwise fun left right => left.1.Differ right.1) (key : Value)
    (f : Option α → α) :
    (alter entries key f).Pairwise fun left right => left.1.Differ right.1 := by
  induction entries with
  | nil => exact List.pairwise_singleton _ _
  | cons entry rest ih =>
    obtain ⟨k, a⟩ := entry
    obtain ⟨apart, later⟩ := List.pairwise_cons.mp differ
    rw [alter]
    split
    · exact List.pairwise_cons.mpr ⟨apart, later⟩
    · rename_i other
      refine List.pairwise_cons.mpr ⟨fun entry present => ?_, ih later⟩
      rcases mem_alter present with known | ⟨same, -⟩
      · exact apart entry known
      · rw [Value.Differ, BEq.congr_right same]
        exact Bool.eq_false_iff.mpr other

theorem erase_sublist (entries : ByValue α) (key : Value) :
    (erase entries key).Sublist entries := by
  induction entries with
  | nil => exact .slnil
  | cons entry rest ih =>
    obtain ⟨k, a⟩ := entry
    rw [erase]
    split
    · exact List.sublist_cons_self _ _
    · exact ih.cons_cons _

/-- A value that has been taken out is not found any more. -/
theorem get?_erase_self {entries : ByValue α}
    (differ : entries.Pairwise fun left right => left.1.Differ right.1) (key : Value) :
    get? (erase entries key) key = none := by
  induction entries with
  | nil => rfl
  | cons entry rest ih =>
    obtain ⟨k, a⟩ := entry
    obtain ⟨apart, later⟩ := List.pairwise_cons.mp differ
    rw [erase]
    split
    · rename_i same
      refine get?_eq_none_iff.mpr fun entry present => ?_
      exact (BEq.congr_right same).symm.trans (apart entry present).symm
    · rename_i other
      rw [get?, if_neg other, ih later]

/-- A new value is filed at the end. -/
theorem alter_of_differ {entries : ByValue α} {key : Value} (f : Option α → α)
    (differ : ∀ entry ∈ entries, entry.1.Differ key) :
    alter entries key f = entries ++ [(key, f none)] := by
  induction entries with
  | nil => rfl
  | cons entry rest ih =>
    obtain ⟨k, a⟩ := entry
    have here : (k == key) = false := differ (k, a) List.mem_cons_self
    have later := ih fun entry present => differ entry (List.mem_cons_of_mem _ present)
    simp only [alter, here, later, Bool.false_eq_true, if_false, List.cons_append]

/-- Pairs whose values are all different are a mapping as they stand. -/
theorem ofList_eq {pairs : List (Value × α)}
    (differ : pairs.Pairwise fun left right => left.1.Differ right.1) : ofList pairs = pairs := by
  suffices general : ∀ before : ByValue α,
      (before ++ pairs).Pairwise (fun left right => left.1.Differ right.1) →
      pairs.foldl (fun entries pair => alter entries pair.1 fun _ => pair.2) before =
        before ++ pairs by
    exact general [] differ
  clear differ
  induction pairs with
  | nil => simp
  | cons pair rest ih =>
    intro before differ
    have fresh : ∀ entry ∈ before, entry.1.Differ pair.1 := fun entry present =>
      (List.pairwise_append.mp differ).2.2 entry present pair List.mem_cons_self
    rw [List.foldl_cons, alter_of_differ _ fresh, ih _ (by simpa using differ)]
    simp

/-- What pairs with numbers add up to under a value. -/
def sumAt (entries : ByValue Nat) (v : Value) : Nat :=
  ((entries.filter fun entry => entry.1 == v).map Prod.snd).sum

@[simp] theorem sumAt_nil (v : Value) : sumAt [] v = 0 := rfl

@[simp] theorem sumAt_cons (k v : Value) (n : Nat) (rest : ByValue Nat) :
    sumAt ((k, n) :: rest) v = (if k == v then n else 0) + sumAt rest v := by
  by_cases here : k == v <;> simp [sumAt, here]

@[simp] theorem sumAt_append (left right : ByValue Nat) (v : Value) :
    sumAt (left ++ right) v = sumAt left v + sumAt right v := by
  simp [sumAt]

theorem sumAt_perm {left right : ByValue Nat} (perm : left.Perm right) (v : Value) :
    sumAt left v = sumAt right v :=
  ((perm.filter _).map _).sum_nat

theorem sumAt_congr (entries : ByValue Nat) {v w : Value} (same : v == w) :
    sumAt entries v = sumAt entries w := by
  simp only [sumAt, BEq.congr_right same]

/-- Where no two values are the same, a number is what its value has. -/
theorem sumAt_of_mem {entries : ByValue Nat}
    (differ : entries.Pairwise fun left right => left.1.Differ right.1) {entry : Value × Nat}
    (present : entry ∈ entries) : sumAt entries entry.1 = entry.2 := by
  induction entries with
  | nil => cases present
  | cons first rest ih =>
    obtain ⟨apart, later⟩ := List.pairwise_cons.mp differ
    obtain ⟨k, n⟩ := first
    rcases List.mem_cons.mp present with rfl | further
    · have others : sumAt rest k = 0 := by
        rw [sumAt, List.filter_eq_nil_iff.mpr, List.map_nil, List.sum_nil]
        intro entry there same
        exact Bool.eq_false_iff.mp (apart entry there).symm same
      rw [sumAt_cons, if_pos BEq.rfl, others, Nat.add_zero]
    · have other : (k == entry.1) = false := apart entry further
      rw [sumAt_cons, other, if_neg Bool.false_ne_true, Nat.zero_add, ih later further]

/-- Adding numbers up under their values adds to each value what belongs to it. -/
theorem get?_addUp (entries : ByValue Nat) (counts : ByValue Nat) (v : Value) :
    ((entries.foldl (fun counts entry => counts.alter entry.1 fun sum => sum.getD 0 + entry.2)
      counts).get? v).getD 0 = (counts.get? v).getD 0 + sumAt entries v := by
  induction entries generalizing counts with
  | nil => simp
  | cons entry rest ih =>
    obtain ⟨k, n⟩ := entry
    rw [List.foldl_cons, ih, get?_alter, sumAt_cons]
    by_cases here : k == v
    · simp only [here, if_true, Option.getD_some, get?_congr counts here]
      omega
    · simp [here]

end ByValue

namespace Value

open ByValue

/-! ### Groups -/

/-- One more value among the groups of others. -/
def regroup (found : List (Value × Nat)) (v : Value) : List (Value × Nat) :=
  if found.any fun entry => entry.1 == v then
    found.map fun entry => if entry.1 == v then (entry.1, entry.2 + 1) else entry
  else found ++ [(v, 1)]

theorem groups_eq (vs : List Value) : groups vs = vs.foldl regroup [] := rfl

theorem map_fst_regroup (found : List (Value × Nat)) (v : Value) :
    (regroup found v).map Prod.fst =
      if found.any fun entry => entry.1 == v then found.map Prod.fst
      else found.map Prod.fst ++ [v] := by
  unfold regroup
  split
  · rw [List.map_map]
    exact List.map_congr_left fun entry _ => by
      by_cases here : entry.1 == v <;> simp [here]
  · rw [List.map_append]; rfl

/-- The values of groups are all different. -/
theorem regroup_pairwise {found : List (Value × Nat)} (v : Value)
    (differ : (found.map Prod.fst).Pairwise Differ) :
    ((regroup found v).map Prod.fst).Pairwise Differ := by
  rw [map_fst_regroup]
  split
  · exact differ
  · rename_i missing
    rw [List.pairwise_append]
    refine ⟨differ, List.pairwise_singleton _ _, fun k present w last => ?_⟩
    obtain ⟨entry, known, rfl⟩ := List.mem_map.mp present
    rw [List.mem_singleton.mp last]
    exact Bool.eq_false_iff.mpr fun same => missing (List.any_eq_true.mpr ⟨entry, known, same⟩)

theorem foldl_regroup_pairwise (vs : List Value) {found : List (Value × Nat)}
    (differ : (found.map Prod.fst).Pairwise Differ) :
    ((vs.foldl regroup found).map Prod.fst).Pairwise Differ := by
  induction vs generalizing found with
  | nil => exact differ
  | cons v rest ih => exact ih (regroup_pairwise v differ)

theorem distinct_pairwise (vs : List Value) : (distinct vs).Pairwise Differ :=
  foldl_regroup_pairwise vs .nil

/-- What groups add up to whose values pass a test. -/
def sumWhere (test : Value → Bool) (found : List (Value × Nat)) : Nat :=
  ((found.filter fun entry => test entry.1).map Prod.snd).sum

theorem sumWhere_cons (test : Value → Bool) (k : Value) (n : Nat) (rest : List (Value × Nat)) :
    sumWhere test ((k, n) :: rest) = (if test k then n else 0) + sumWhere test rest := by
  by_cases here : test k <;> simp [sumWhere, here]

/-- One more value counts once, if no two groups are of one value. The test has to be the same for
all spellings of a value. -/
theorem sumWhere_regroup {found : List (Value × Nat)} (v : Value) {test : Value → Bool}
    (respects : ∀ {k}, k == v → test k = test v) (differ : (found.map Prod.fst).Pairwise Differ) :
    sumWhere test (regroup found v) = sumWhere test found + if test v then 1 else 0 := by
  induction found with
  | nil => rw [show regroup [] v = [(v, 1)] from rfl, sumWhere_cons, Nat.add_comm]
  | cons entry rest ih =>
    obtain ⟨k, n⟩ := entry
    have later := List.pairwise_cons.mp differ
    by_cases here : k == v
    · -- No other group is of this value, so the rest stays as it is.
      have others : (rest.map fun entry =>
          if entry.1 == v then (entry.1, entry.2 + 1) else entry) = rest := by
        refine (List.map_congr_left fun entry present => ?_).trans (List.map_id _)
        have apart : (k == entry.1) = false := later.1 entry.1 (List.mem_map_of_mem present)
        have other : (entry.1 == v) = false := by
          rw [Bool.eq_false_iff] at apart ⊢
          exact fun same => apart (BEq.trans here (BEq.symm same))
        simp [other]
      simp only [regroup, List.any_cons, here, Bool.true_or, if_true, List.map_cons, others,
        sumWhere_cons, respects here]
      split <;> omega
    · have step := ih later.2
      unfold regroup at step ⊢
      simp only [List.any_cons, here, Bool.false_or, List.map_cons, Bool.false_eq_true, if_false]
      split
      · rename_i known
        simp only [known, if_true] at step
        rw [sumWhere_cons, sumWhere_cons, step, Nat.add_assoc]
      · rename_i missing
        simp only [missing, Bool.false_eq_true, if_false] at step
        rw [List.cons_append, sumWhere_cons, sumWhere_cons, step, Nat.add_assoc]

/-- The groups of a list count how many of its values pass a test. -/
theorem sumWhere_groups (vs : List Value) {test : Value → Bool}
    (respects : ∀ {k v : Value}, k == v → test k = test v) :
    sumWhere test (groups vs) = vs.countP test := by
  suffices general : ∀ found : List (Value × Nat), (found.map Prod.fst).Pairwise Differ →
      sumWhere test (vs.foldl regroup found) = sumWhere test found + vs.countP test by
    rw [groups_eq, general [] .nil]
    exact Nat.zero_add _
  induction vs with
  | nil => exact fun _ _ => rfl
  | cons v rest ih =>
    intro found differ
    rw [List.foldl_cons, ih _ (regroup_pairwise v differ), sumWhere_regroup v respects differ,
      List.countP_cons]
    omega

/-- The groups of a list count how often each value occurs in it. -/
theorem sumAt_groups (vs : List Value) (w : Value) :
    sumAt (groups vs) w = vs.countP fun v => v == w :=
  sumWhere_groups vs BEq.congr_left

/-- The groups of a list count all its values. -/
theorem sum_groups (vs : List Value) : ((groups vs).map Prod.snd).sum = vs.length := by
  have counted := @sumWhere_groups vs (fun _ => true) fun _ => rfl
  rwa [sumWhere, List.filter_eq_self.mpr fun _ _ => rfl, List.countP_true] at counted

/-! ### Distinct values -/

theorem mem_foldl_regroup (vs : List Value) (found : List (Value × Nat)) {k : Value}
    (present : k ∈ (vs.foldl regroup found).map Prod.fst) : k ∈ found.map Prod.fst ∨ k ∈ vs := by
  induction vs generalizing found with
  | nil => exact .inl present
  | cons v rest ih =>
    rcases ih (regroup found v) present with before | later
    · rw [map_fst_regroup] at before
      split at before
      · exact .inl before
      · rcases List.mem_append.mp before with old | new
        · exact .inl old
        · exact .inr (List.mem_singleton.mp new ▸ List.mem_cons_self)
    · exact .inr (List.mem_cons_of_mem _ later)

/-- The distinct values of a list are among its values. -/
theorem mem_of_mem_distinct {vs : List Value} {k : Value} (present : k ∈ distinct vs) : k ∈ vs := by
  rcases mem_foldl_regroup vs [] present with none | known
  · cases none
  · exact known

/-- Every value of a list is the same as one of its distinct values. -/
theorem exists_mem_distinct {vs : List Value} {v : Value} (present : v ∈ vs) :
    ∃ k ∈ distinct vs, k == v := by
  have counted : 0 < sumAt (groups vs) v := by
    rw [sumAt_groups]
    exact List.countP_pos_iff.mpr ⟨v, present, BEq.rfl⟩
  obtain ⟨n, known, -⟩ := List.sum_pos_iff_exists_pos_nat.mp counted
  obtain ⟨entry, filed, rfl⟩ := List.mem_map.mp known
  obtain ⟨filed, same⟩ := List.mem_filter.mp filed
  exact ⟨entry.1, List.mem_map_of_mem filed, same⟩

end Value

end GraphRead
