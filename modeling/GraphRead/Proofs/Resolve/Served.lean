import GraphRead.Proofs.Resolve.Children
/-!
Serving parents in any order.

An index of children is built for some parents, and each of them is served once, in whatever order
they come. A parent that shares its value with others gets all children of the value, no matter
which of the others have been served already: what is let go with the last of them nobody waits for
(`ChildIndex.serve_holds`). And it is let go: of a value whose parents have all been served the
index holds nothing more (`ChildIndex.Kept`). That the counts of the index agree with the parents
still to come is what both rest on.
-/

namespace GraphRead

namespace ChildIndex

/-- Serves some parents one after the other: what each of them gets, and the index after that. -/
def serve (index : ChildIndex) : List Value → List (List Fetched) × ChildIndex
  | [] => ([], index)
  | v :: rest =>
    let (mine, index) := index.take v
    let (others, index) := serve index rest
    (mine :: others, index)

/-- The index holds nothing of a value: no child that joins it, under any value, and no parent is
waited for. -/
structure Freed (index : ChildIndex) (v : Value) : Prop where
  differ : ∀ entry ∈ index.children, entry.1.Differ v
  absent : ∀ entry ∈ index.children, ∀ r ∈ entry.2, r.joins v = false
  pending : (index.pending.get? v).getD 0 = 0

/-! ### What every index keeps -/

/-- What holds of an index that was built for some parents, whoever is served. -/
structure Kept (index : ChildIndex) (parents : List Value) : Prop where
  /-- The children of a value are filed in one place. -/
  differ : index.children.Pairwise fun left right => left.1.Differ right.1
  /-- Children are filed under the value that they join. -/
  joined : ∀ entry ∈ index.children, ∀ r ∈ entry.2, r.joins entry.1
  /-- The values of the parents are known, whether they are waited for or not. -/
  known : ∀ v, (index.pending.get? v).isSome = parents.any fun key => key == v
  /-- Nothing is held for parents that nobody waits for. -/
  freed : ∀ v, index.pending.get? v = some 0 → index.children.get? v = none

theorem joins_of_get? {children : ByValue (List Fetched)}
    (joined : ∀ entry ∈ children, ∀ r ∈ entry.2, r.joins entry.1) {v : Value} {r : Fetched}
    (held : r ∈ (children.get? v).getD []) : r.joins v := by
  cases found : children.get? v with
  | none =>
    rw [found] at held
    cases held
  | some there =>
    rw [found] at held
    obtain ⟨entry, known, same, rfl⟩ := ByValue.exists_of_get? found
    rw [← Fetched.joins_congr same]
    exact joined entry known r held

/-- Filing a child keeps all children under the values that they join. -/
theorem file_joined {children : ByValue (List Fetched)}
    (joined : ∀ entry ∈ children, ∀ r ∈ entry.2, r.joins entry.1) (child : Fetched) :
    ∀ entry ∈ file children child, ∀ r ∈ entry.2, r.joins entry.1 := by
  unfold file
  cases own : child.parentKey with
  | none => exact joined
  | some key =>
    intro entry present r held
    rcases ByValue.mem_alter present with before | ⟨same, filed⟩
    · exact joined entry before r held
    · rw [Fetched.joins_congr same]
      rw [filed] at held
      rcases List.mem_append.mp held with earlier | last
      · exact joins_of_get? joined earlier
      · cases List.mem_singleton.mp last
        rw [Fetched.joins, own]
        exact BEq.rfl

theorem file_pairwise {children : ByValue (List Fetched)}
    (differ : children.Pairwise fun left right => left.1.Differ right.1) (child : Fetched) :
    (file children child).Pairwise fun left right => left.1.Differ right.1 := by
  unfold file
  cases child.parentKey with
  | none => exact differ
  | some key => exact ByValue.alter_pairwise differ key _

/-- Counting the parents counts each value that occurs, and none of them zero times. -/
theorem pending_foldl (parents : List Value) (counts : ByValue Nat) (v : Value)
    (positive : counts.get? v ≠ some 0) :
    let counted := parents.foldl (fun counts key => counts.alter key fun n => n.getD 0 + 1) counts
    (counted.get? v).isSome = ((counts.get? v).isSome || parents.any fun key => key == v) ∧
      counted.get? v ≠ some 0 := by
  induction parents generalizing counts with
  | nil => exact ⟨(Bool.or_false _).symm, positive⟩
  | cons key rest ih =>
    have step := ByValue.get?_alter counts key v fun n => n.getD 0 + 1
    by_cases here : key == v
    · rw [if_pos here] at step
      obtain ⟨known, later⟩ := ih _ (by rw [step]; simp)
      refine ⟨known.trans ?_, later⟩
      rw [step, List.any_cons, here]
      simp
    · rw [if_neg here] at step
      obtain ⟨known, later⟩ := ih _ (step ▸ positive)
      refine ⟨known.trans ?_, later⟩
      rw [step, List.any_cons, Bool.eq_false_iff.mpr here, Bool.false_or]

theorem build_kept (children : List Fetched) (parents : List Value) :
    (build children parents).Kept parents where
  differ := by
    unfold build
    suffices general : ∀ filed : ByValue (List Fetched),
        filed.Pairwise (fun left right => left.1.Differ right.1) →
        (children.foldl file filed).Pairwise fun left right => left.1.Differ right.1 from
      general [] .nil
    induction children with
    | nil => exact fun _ differ => differ
    | cons child rest ih => exact fun filed differ => ih _ (file_pairwise differ child)
  joined := by
    unfold build
    suffices general : ∀ filed : ByValue (List Fetched),
        (∀ entry ∈ filed, ∀ r ∈ entry.2, r.joins entry.1) →
        ∀ entry ∈ children.foldl file filed, ∀ r ∈ entry.2, r.joins entry.1 from
      general [] nofun
    induction children with
    | nil => exact fun _ joined => joined
    | cons child rest ih => exact fun filed joined => ih _ (file_joined joined child)
  known v := (pending_foldl parents [] v nofun).1
  freed v none := absurd none (pending_foldl parents [] v nofun).2

/-- Serving a parent keeps all that. -/
theorem take_kept {index : ChildIndex} {parents : List Value} (kept : index.Kept parents)
    (v : Value) : (index.take v).2.Kept parents := by
  cases waiting : index.pending.get? v with
  | none =>
    rw [take, waiting]
    exact kept
  | some n =>
    rw [take_of_pending waiting]
    have fewer : ((if n ≤ 1 then index.children.erase v else index.children) :
        ByValue (List Fetched)).Sublist index.children := by
      split
      · exact ByValue.erase_sublist _ _
      · exact List.Sublist.refl _
    constructor
    case differ => exact kept.differ.sublist fewer
    case joined => exact fun entry held => kept.joined entry (fewer.subset held)
    case known =>
      intro w
      rw [ByValue.get?_alter, ← kept.known w]
      split
      · rename_i same
        rw [← ByValue.get?_congr index.pending same, waiting]
        rfl
      · rfl
    case freed =>
      intro w unawaited
      rw [ByValue.get?_alter] at unawaited
      dsimp only
      split at unawaited
      · rename_i same
        have last : n ≤ 1 := Nat.le_of_sub_eq_zero (Option.some.inj unawaited)
        rw [if_pos last, ← ByValue.get?_congr _ same]
        exact ByValue.get?_erase_self kept.differ v
      · rename_i other
        have before := kept.freed w unawaited
        split
        · rwa [ByValue.get?_erase_of_differ _ (Bool.eq_false_iff.mpr other)]
        · exact before

/-! ### Runs -/

theorem serve_kept {index : ChildIndex} {parents : List Value} (kept : index.Kept parents)
    (calls : List Value) : (index.serve calls).2.Kept parents := by
  induction calls generalizing index with
  | nil => exact kept
  | cons v rest ih => exact ih (take_kept kept v)

theorem take_fst (index : ChildIndex) (v : Value) : (index.take v).1 = index.lookup v := by
  unfold take
  split <;> rfl

/-- Whoever is served, and however often, gets no child of another value. -/
theorem joins_of_mem_serve {index : ChildIndex} {parents : List Value} (kept : index.Kept parents)
    (calls : List Value) :
    ∀ entry ∈ calls.zip (index.serve calls).1, ∀ r ∈ entry.2, r.joins entry.1 := by
  induction calls generalizing index with
  | nil => exact nofun
  | cons v rest ih =>
    intro entry present r got
    rcases List.mem_cons.mp present with rfl | later
    · have got : r ∈ (index.take v).1 := got
      rw [take_fst] at got
      exact joins_of_get? kept.joined got
    · exact ih (take_kept kept v) entry later r got

/-- Those who are served get all their children, and the index still holds what the others wait
for. -/
theorem serve_holds {index : ChildIndex} {children : List Fetched} {before after : List Value}
    (holds : index.Holds children (before ++ after)) :
    (index.serve before).1 = before.map (fun v => children.filter (Fetched.joins v)) ∧
      (index.serve before).2.Holds children after := by
  induction before generalizing index with
  | nil => exact ⟨rfl, holds⟩
  | cons v rest ih =>
    obtain ⟨mine, others⟩ := take_holds holds
    obtain ⟨served, left⟩ := ih others
    exact ⟨congrArg₂ List.cons mine served, left⟩

/-- An index that was built for some parents holds what any parents wait for of whom as many have
each value. -/
theorem build_holds_of_counts (children : List Fetched) {parents calls : List Value}
    (once : ∀ v, (calls.countP fun key => key == v) = parents.countP fun key => key == v) :
    (build children parents).Holds children calls where
  lookup v _ := get?_foldl_file children [] v
  pending v := ((build_holds children parents).pending v).trans (once v).symm

/-- What nobody waits for any more is not held any more. -/
theorem freed_of_holds {index : ChildIndex} {parents waiting : List Value}
    {children : List Fetched} (kept : index.Kept parents) (holds : index.Holds children waiting)
    {v : Value} (parent : parents.any fun key => key == v) (served : ∀ w ∈ waiting, w.Differ v) :
    index.Freed v := by
  have nobody : (index.pending.get? v).getD 0 = 0 := by
    rw [holds.pending v]
    exact List.countP_eq_zero.mpr fun w waits => Bool.eq_false_iff.mp (served w waits)
  have zero : index.pending.get? v = some 0 := by
    obtain ⟨n, counted⟩ := Option.isSome_iff_exists.mp ((kept.known v).trans parent)
    rw [counted] at nobody
    rw [counted]
    exact congrArg some nobody
  have differ := ByValue.get?_eq_none_iff.mp (kept.freed v zero)
  refine ⟨differ, fun entry held r filed => Bool.eq_false_iff.mpr fun joins => ?_, nobody⟩
  -- A child that joined the value as well would make the two values the same.
  exact Bool.eq_false_iff.mp (differ entry held)
    (Fetched.beq_of_joins (kept.joined entry held r filed) joins)

/-- **Every parent gets all of its children.** If an index that was built for some parents is asked
once for each of them, in any order, then every call yields all children that join the value, in
their order. At any time the index still holds these for all calls to come, and nothing more of a
value for which the last call has been made. Whatever it is asked for, no call yields a child of
another value. -/
theorem every_parent_served (children : List Fetched) {parents calls : List Value}
    (once : ∀ v, (calls.countP fun key => key == v) = parents.countP fun key => key == v) :
    ((build children parents).serve calls).1 =
      calls.map (fun v => children.filter (Fetched.joins v)) ∧
    (∀ before after, before ++ after = calls →
      (∀ v ∈ after, ((build children parents).serve before).2.lookup v =
        children.filter (Fetched.joins v)) ∧
      ∀ v ∈ before, (∀ w ∈ after, w.Differ v) →
        ((build children parents).serve before).2.Freed v) ∧
    ∀ asked : List Value, ∀ entry ∈ asked.zip ((build children parents).serve asked).1,
      ∀ r ∈ entry.2, r.joins entry.1 := by
  have kept := build_kept children parents
  have holds := build_holds_of_counts children once
  refine ⟨?_, fun before after split => ?_, joins_of_mem_serve kept⟩
  · rw [← List.append_nil calls] at holds
    exact (serve_holds holds).1
  · rw [← split] at holds
    obtain ⟨-, left⟩ := serve_holds holds
    refine ⟨left.lookup, fun v served apart => ?_⟩
    refine freed_of_holds (serve_kept kept before) left ?_ apart
    have called : 0 < calls.countP fun key => key == v :=
      List.countP_pos_iff.mpr ⟨v, split ▸ List.mem_append_left _ served, BEq.rfl⟩
    rw [once v] at called
    exact List.any_eq_true.mpr (List.countP_pos_iff.mp called)

end ChildIndex

namespace Orchestra

def musicianType : ObjectType := ⟨"Musician", "musicians", "id", .always, []⟩

/-- A musician who plays at a desk. -/
def musician (name : String) (desk : Value) : Fetched :=
  ⟨⟨musicianType, ["name", "desk"], [.string name, desk], none, []⟩, [], some desk⟩

/-- Two musicians at one desk, whose number is spelled in two ways, and one at another. -/
def musicians : List Fetched :=
  [musician "Ada" (.float ⟨15, 1⟩), musician "Bob" (.int 2), musician "Cleo" (.float ⟨150, 2⟩)]

/-- The desks of three parents, two of whom share one. -/
def parents : List Value := [.float ⟨15, 1⟩, .int 2, .float ⟨150, 2⟩]

/-- They are served in another order. -/
def calls : List Value := [.float ⟨1500, 3⟩, .float ⟨15, 1⟩, .int 2]

/-- Both parents of the first desk get Ada and Cleo. After that the index holds nothing of this
desk, and of the other one what it held before. -/
theorem every_parent_served_desks :
    (∀ v, (calls.countP fun key => key == v) = parents.countP fun key => key == v) ∧
    ((ChildIndex.build musicians parents).serve calls).1.map
        (List.map fun r => r.record.get? "name") =
      [[some (.string "Ada"), some (.string "Cleo")], [some (.string "Ada"), some (.string "Cleo")],
        [some (.string "Bob")]] ∧
    ((ChildIndex.build musicians parents).serve (calls.take 2)).2.Freed (.float ⟨15, 1⟩) ∧
    ((ChildIndex.build musicians parents).serve (calls.take 2)).2.lookup (.int 2) =
      musicians.filter (Fetched.joins (.int 2)) := by
  have once (v : Value) :
      (calls.countP fun key => key == v) = parents.countP fun key => key == v := by
    have long : (Value.float ⟨1500, 3⟩ == v) = (Value.float ⟨15, 1⟩ == v) :=
      BEq.congr_left (by decide)
    have short : (Value.float ⟨150, 2⟩ == v) = (Value.float ⟨15, 1⟩ == v) :=
      BEq.congr_left (by decide)
    simp only [calls, parents, List.countP_cons, List.countP_nil, long, short]
    omega
  obtain ⟨served, reached, -⟩ := ChildIndex.every_parent_served musicians once
  obtain ⟨held, freed⟩ := reached (calls.take 2) [.int 2] rfl
  refine ⟨once, ?_, freed _ (List.mem_cons_of_mem _ List.mem_cons_self) ?_,
    held _ List.mem_cons_self⟩
  · rw [served]
    rfl
  · intro w last
    cases List.mem_singleton.mp last
    exact rfl

end Orchestra

end GraphRead
