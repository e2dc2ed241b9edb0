import GraphRead.Proofs.Value.ByValue
import GraphRead.Resolve.Assemble
/-!
Dealing children out to their parents.

The index of children hands each parent exactly the children that join it, whoever is served before
(`linkAnswers_build`), although it lets go of the children of a value as soon as nobody waits for
them any more: as long as a parent is still to be served, its children are there and it is counted
(`ChildIndex.Holds`). The counts by group of several outputs add up value by value
(`get?_groupedCounts`).
-/

namespace GraphRead

/-! ### Which children join a value -/

/-- Whether a record joins the parents with a value. -/
def Fetched.joins (v : Value) (r : Fetched) : Bool := r.parentKey.any fun key => key == v

theorem Fetched.joins_congr {v w : Value} (same : v == w) : joins v = joins w := by
  funext r
  exact congrArg (Option.any · r.parentKey) (funext fun key => BEq.congr_right same)

/-- A record does not join two values that differ. -/
theorem Fetched.beq_of_joins {v w : Value} {r : Fetched} (first : r.joins v) (second : r.joins w) :
    v == w := by
  unfold joins at first second
  cases own : r.parentKey with
  | none => rw [own] at first; cases first
  | some key =>
    rw [own, Option.any_some] at first second
    exact BEq.trans (BEq.symm first) second

namespace ChildIndex

theorem get?_file (children : ByValue (List Fetched)) (child : Fetched) (v : Value) :
    ((file children child).get? v).getD [] =
      (children.get? v).getD [] ++ if child.joins v then [child] else [] := by
  unfold file Fetched.joins
  cases child.parentKey with
  | none => simp
  | some key =>
    rw [ByValue.get?_alter, Option.any_some]
    by_cases here : key == v
    · simp only [here, if_true, Option.getD_some, ByValue.get?_congr children here]
    · simp [here]

/-- Filing children one after the other keeps, for each value, the children that join it. -/
theorem get?_foldl_file (children : List Fetched) (filed : ByValue (List Fetched)) (v : Value) :
    ((children.foldl file filed).get? v).getD [] =
      (filed.get? v).getD [] ++ children.filter (Fetched.joins v) := by
  induction children generalizing filed with
  | nil => simp
  | cons child rest ih =>
    rw [List.foldl_cons, ih, get?_file, List.filter_cons]
    split <;> simp [*]

/-- Every parent that is to be served is counted. -/
theorem get?_foldl_pending (parents : List Value) (counts : ByValue Nat) (v : Value) :
    ((parents.foldl (fun counts key => counts.alter key fun n => n.getD 0 + 1) counts).get?
      v).getD 0 = (counts.get? v).getD 0 + parents.countP fun key => key == v := by
  induction parents generalizing counts with
  | nil => simp
  | cons key rest ih =>
    rw [List.foldl_cons, ih, ByValue.get?_alter, List.countP_cons]
    by_cases here : key == v
    · simp only [here, if_true, Option.getD_some, ByValue.get?_congr counts here]
      omega
    · simp [here]

/-! ### Serving the parents -/

/-- The children of a value are let go for the last parent that waits for them. -/
theorem take_of_pending {index : ChildIndex} {v : Value} {n : Nat}
    (waiting : index.pending.get? v = some n) : index.take v = (index.lookup v,
      ⟨if n ≤ 1 then index.children.erase v else index.children,
        index.pending.alter v fun _ => n - 1⟩) := by
  rw [take, waiting]

/-- What an index has to hold while some parents wait to be served. -/
structure Holds (index : ChildIndex) (children : List Fetched) (waiting : List Value) : Prop where
  lookup : ∀ v ∈ waiting, index.lookup v = children.filter (Fetched.joins v)
  pending : ∀ v, (index.pending.get? v).getD 0 = waiting.countP fun key => key == v

theorem build_holds (children : List Fetched) (parents : List Value) :
    (build children parents).Holds children parents where
  lookup v _ := get?_foldl_file children [] v
  pending v := (get?_foldl_pending parents [] v).trans (Nat.zero_add _)

/-- The parent that is served gets its children, and the index still holds what the others wait
for. -/
theorem take_holds {index : ChildIndex} {children : List Fetched} {v : Value}
    {waiting : List Value} (holds : index.Holds children (v :: waiting)) :
    (index.take v).1 = children.filter (Fetched.joins v) ∧
      (index.take v).2.Holds children waiting := by
  have mine := holds.lookup v List.mem_cons_self
  have counted := holds.pending v
  rw [List.countP_cons_of_pos (p := fun key => key == v) BEq.rfl] at counted
  cases found : index.pending.get? v with
  | none =>
    rw [found] at counted
    exact absurd counted (by simp)
  | some n =>
    rw [found, Option.getD_some] at counted
    rw [take_of_pending found]
    refine ⟨mine, ⟨fun w waits => ?_, fun w => ?_⟩⟩
    · have there := holds.lookup w (List.mem_cons_of_mem _ waits)
      rw [← there]
      show ((if n ≤ 1 then index.children.erase v else index.children).get? w).getD [] = _
      split
      · -- Nobody else waits for this value, so what is let go belongs to another one.
        rename_i last
        have differ : v.Differ w := by
          unfold Value.Differ
          rw [Bool.eq_false_iff]
          intro same
          have more : 0 < waiting.countP fun key => key == v :=
            List.countP_pos_iff.mpr ⟨w, waits, BEq.symm same⟩
          omega
        rw [ByValue.get?_erase_of_differ index.children differ]
        rfl
      · rfl
    · have before := holds.pending w
      show ((index.pending.alter v fun _ => n - 1).get? w).getD 0 = _
      rw [ByValue.get?_alter]
      by_cases same : v == w
      · rw [if_pos same, Option.getD_some, counted, Nat.add_sub_cancel]
        exact congrArg (waiting.countP ·) (funext fun key => BEq.congr_right same)
      · rw [if_neg same, before, List.countP_cons_of_neg (p := fun key => key == w) same]

end ChildIndex

/-- Each parent is answered from the children that join it. -/
theorem linkAnswers_eq {position : Path} {l : BoundLink} {counts : ByValue Nat}
    {index : ChildIndex} {children : List Fetched} {values : List Value}
    (holds : index.Holds children (values.filter fun v => !v.isNull)) :
    linkAnswers position l counts index values = values.mapM fun v =>
      linkAnswer position l counts v
        (if v.isNull then [] else children.filter (Fetched.joins v)) := by
  induction values generalizing index with
  | nil => rfl
  | cons v rest ih =>
    rw [linkAnswers, List.mapM_cons]
    by_cases null : v.isNull
    · rw [List.filter_cons_of_neg (by simp [null])] at holds
      simp only [null, if_true, ih holds]
    · rw [List.filter_cons_of_pos (by simp [null])] at holds
      obtain ⟨mine, others⟩ := ChildIndex.take_holds holds
      simp only [null, Bool.false_eq_true, if_false, mine, ih others]

theorem linkAnswers_build (position : Path) (l : BoundLink) (counts : ByValue Nat)
    (children : List Fetched) (values : List Value) :
    linkAnswers position l counts (.build children (values.filter fun v => !v.isNull)) values =
      values.mapM fun v => linkAnswer position l counts v
        (if v.isNull then [] else children.filter (Fetched.joins v)) :=
  linkAnswers_eq (ChildIndex.build_holds children _)

/-! ### Counts -/

namespace Tally

/-- What a tally counts for a parent with a value. -/
def countOf (tally : Tally) (v : Value) : Nat :=
  match tally with
  | .grouped counts => ByValue.sumAt counts v
  | _ => 0

/-- What a tally counts without regard to parents. -/
def countAll : Tally → Nat
  | .total n => n
  | _ => 0

end Tally

theorem get?_groupedCounts (outputs : List Output) (v : Value) :
    ((groupedCounts outputs).get? v).getD 0 =
      (outputs.map fun output => output.tally.countOf v).sum := by
  suffices general : ∀ counts : ByValue Nat,
      ((outputs.foldl (fun counts output =>
        match output.tally with
        | .grouped groups =>
          groups.foldl (fun counts entry => counts.alter entry.1 fun sum => sum.getD 0 + entry.2)
            counts
        | _ => counts) counts).get? v).getD 0 =
        (counts.get? v).getD 0 + (outputs.map fun output => output.tally.countOf v).sum by
    exact (general []).trans (Nat.zero_add _)
  induction outputs with
  | nil => simp
  | cons output rest ih =>
    intro counts
    rw [List.foldl_cons, ih, List.map_cons, List.sum_cons, ← Nat.add_assoc]
    congr 1
    cases output.tally with
    | none => rfl
    | total n => rfl
    | grouped groups => exact ByValue.get?_addUp groups counts v

theorem totalCount_eq (outputs : List Output) :
    totalCount outputs = (outputs.map fun output => output.tally.countAll).sum := by
  suffices general : ∀ start : Nat,
      outputs.foldl (fun total output =>
        match output.tally with
        | .total n => total + n
        | _ => total) start =
        start + (outputs.map fun output => output.tally.countAll).sum by
    exact (general 0).trans (Nat.zero_add _)
  induction outputs with
  | nil => simp
  | cons output rest ih =>
    intro start
    rw [List.foldl_cons, ih, List.map_cons, List.sum_cons, ← Nat.add_assoc]
    congr 1
    cases output.tally <;> rfl

end GraphRead
