import GraphRead.Proofs.PerParent.Read
import GraphRead.Proofs.Resolve.Children
/-!
One association, for all parents together and for each parent on its own.

A joined read with all its records completed is shared out to the parents: for each of the keys it
has the records and the count that the read for this key has (`Shares`), and it succeeds exactly if
all of those do. Completing a record adds answers to it and changes nothing else (`complete_bare`),
so it does not change which parents the record joins. Dealing the children out therefore answers
each parent as it is answered on its own (`attachLink_eq`).
-/

namespace GraphRead.PerParent

open Success Memory

/-! ### Completing changes nothing but the answers -/

/-- A record without the answers of its associations. -/
def bare (r : Fetched) : Fetched := { r with record := { r.record with links := [] } }

theorem attach_bare (key : String) (r : Fetched) (answer : Answer Record) :
    bare (r.attach key answer) = bare r := rfl

theorem joinValue_bare {column : String} {r r' : Fetched} (same : bare r = bare r') :
    joinValue column r = joinValue column r' := by
  have there : r.record.get? column = r'.record.get? column :=
    congrArg (fun r => r.record.get? column) same
  rw [joinValue, joinValue, there]

theorem joins_bare {v : Value} {r r' : Fetched} (same : bare r = bare r') :
    r.joins v = r'.joins v := by
  have there : (bare r).parentKey = (bare r').parentKey := by rw [same]
  have there : r.parentKey = r'.parentKey := there
  rw [Fetched.joins, Fetched.joins, there]

theorem attachAnswer_bare {connector : Connector} {position : Path} {r r' : Fetched}
    {link : String × BoundLink} (done : attachAnswer connector position r link = .ok r') :
    bare r' = bare r := by
  obtain ⟨answer, -, done⟩ := Fallible.bind_eq_ok.mp done
  cases Fallible.pure_eq_ok.mp done
  exact attach_bare _ r answer

theorem foldlM_attachAnswer_bare {connector : Connector} {position : Path}
    {links : List (String × BoundLink)} {r r' : Fetched}
    (done : links.foldlM (attachAnswer connector position) r = .ok r') : bare r' = bare r := by
  induction links generalizing r with
  | nil =>
    cases Fallible.pure_eq_ok.mp done
    rfl
  | cons link rest ih =>
    rw [List.foldlM_cons] at done
    obtain ⟨next, first, done⟩ := Fallible.bind_eq_ok.mp done
    exact (ih done).trans (attachAnswer_bare first)

theorem complete_bare {connector : Connector} {position : Path} {target : Target} {r r' : Fetched}
    (done : complete connector position target r = .ok r') : bare r' = bare r := by
  cases asked : target.record? with
  | none =>
    rw [complete_of_none r asked] at done
    cases done
    rfl
  | some f =>
    rw [complete_of_some r asked] at done
    exact foldlM_attachAnswer_bare done

/-! ### Sharing an output out -/

/-- An output holds for one value what another output is. -/
structure Shares (out : Output) (k : Value) (one : Output) : Prop where
  records : out.records.filter (Fetched.joins k) = one.records
  count : out.tally.countOf k = one.tally.countAll

section Targets

variable (store : Memory) (size : Option Nat)

/-- What a task yields, with all its records completed. -/
def finished (task : Task) : Option Output :=
  (task.plan.execute store.connector size).toOption.bind fun output =>
    (completeOutput store.connector task.position task.target output).toOption

/-- What the read of a target for one parent yields, with all its records completed. -/
def childOutput (position : Path) (l : BoundLink) (v : Value) (target : Target) : Option Output :=
  (childRead store.connector l v target).toOption.bind fun output =>
    (completeOutput store.connector position target output).toOption

/-- The completed record of a row. -/
def finishRow (position : Path) (target : Target) (plan : Plan) (row : Row) : Option Fetched :=
  (plan.readRow row).bind fun r => (complete store.connector position target r).toOption

theorem completeOutput_toOption (position : Path) (target : Target) (output : Output) :
    (completeOutput store.connector position target output).toOption =
      (output.records.mapM fun r => (complete store.connector position target r).toOption).map
        fun records => { output with records } := by
  rw [completeOutput, toOption_bind, toOption_mapM, ← bind_some_map]
  rfl

theorem map_bind_completeOutput (position : Path) (target : Target) (plan : Plan)
    (rows : List Row) (tally : Tally) :
    (((rows.mapM plan.readRow).map fun records => (⟨records, tally⟩ : Output)).bind fun output =>
      (completeOutput store.connector position target output).toOption) =
      (rows.mapM (finishRow store position target plan)).map fun records => ⟨records, tally⟩ := by
  simp only [completeOutput_toOption]
  have steps := mapM_bind_mapM plan.readRow
    (fun r => (complete store.connector position target r).toOption) rows
  rw [show finishRow store position target plan = fun row => (plan.readRow row).bind fun r =>
    (complete store.connector position target r).toOption from rfl, ← steps]
  cases rows.mapM plan.readRow <;> rfl

/-- The record of a row joins the parents that have the value of the row. -/
theorem joins_finishRow {position : Path} {target : Target} {plan : Plan} {join : Join}
    (joined : plan.join = some join) {row : Row} {r : Fetched}
    (done : finishRow store position target plan row = some r) (v : Value) :
    r.joins v = row.has join.column v := by
  obtain ⟨read, made, completed⟩ := Option.bind_eq_some_iff.mp done
  rw [joins_bare (complete_bare (toOption_eq_some.mp completed))]
  unfold Plan.readRow at made
  split at made
  · cases made
    rw [Fetched.joins, Plan.recordFor, joined]
    rfl
  · cases made

/-- The task that reads a target below an association for all keys. -/
def joinedTask (position : Path) (l : BoundLink) (keys : List Value) (target : Target) : Task :=
  ⟨position, target, .compile target l.filter (some ⟨l.association.remoteColumn, keys⟩) none⟩

variable {position : Path} {l : BoundLink} {keys : List Value} {target : Target}

theorem finished_joinedTask (keyed : keys ≠ []) :
    finished store size (joinedTask position l keys target) =
      (store.table? target.type.table).bind fun rows =>
        let plan := (joinedTask position l keys target).plan
        let join : Join := ⟨l.association.remoteColumn, keys⟩
        ((plan.joinedRows join size rows).mapM (finishRow store position target plan)).map
          fun records => ⟨records,
            if plan.counts then .grouped (plan.joinedCounts join size rows) else .none⟩ := by
  have read := Plan.execute_joined store
    (rfl : (joinedTask position l keys target).plan.join = some ⟨l.association.remoteColumn, keys⟩)
    keyed (Plan.compile_covered ..) size
  rw [finished, read, Option.bind_assoc]
  refine congrArg (Option.bind _) (funext fun rows => ?_)
  exact map_bind_completeOutput store position target _ _ _

theorem childOutput_eq (keys : List Value) (v : Value) :
    childOutput store position l v target =
      (store.table? target.type.table).bind fun rows =>
        let plan := (joinedTask position l keys target).plan
        let column := l.association.remoteColumn
        ((plan.rowsFor column v rows).mapM (finishRow store position target plan)).map
          fun records =>
            ⟨records, if plan.counts then .total (rows.countP (only column v plan.filter).matches)
              else .none⟩ := by
  have read := Plan.readPlan_toOption store (childPlan l target v) (Plan.compile_covered ..)
    l.association.remoteColumn v
  rw [childOutput, childRead, read, Option.bind_assoc]
  refine congrArg (Option.bind _) (funext fun rows => ?_)
  exact map_bind_completeOutput store position target _ _ _

/-- Parents with values that are the same have the same children. -/
theorem childOutput_congr {v w : Value} (same : v == w) :
    childOutput store position l v target = childOutput store position l w target := by
  have passes (filter : Filter) : (only l.association.remoteColumn v filter).matches =
      (only l.association.remoteColumn w filter).matches := by
    funext row
    rw [only, only, Filter.matches_pair, Filter.matches_pair, Filter.matches_equals,
      Filter.matches_equals, Filter.isNull_of_beq same, Row.has_congr _ same]
  rw [childOutput_eq store [], childOutput_eq store []]
  simp only [Plan.rowsFor, passes]

variable (differ : keys.Pairwise Value.Differ) (valued : ∀ k ∈ keys, k.isNull = false)

include differ valued in
/-- What a joined read yields is shared out to its keys. -/
theorem shares_of_finished {out : Output}
    (done : finished store size (joinedTask position l keys target) = some out) {k : Value}
    (present : k ∈ keys) :
    ∃ one, childOutput store position l k target = some one ∧ Shares out k one := by
  rw [finished_joinedTask store size (List.ne_nil_of_mem present)] at done
  obtain ⟨rows, there, done⟩ := Option.bind_eq_some_iff.mp done
  obtain ⟨records, made, rfl⟩ := Option.map_eq_some_iff.mp done
  have mine := filter_mapM
    (fun row _ r made => joins_finishRow store rfl made k) made
  rw [Plan.filter_joinedRows ⟨l.association.remoteColumn, keys⟩ size rows differ present
    (valued k present)] at mine
  rw [childOutput_eq store keys, there]
  simp only [Option.bind_some, mine, Option.map_some]
  refine ⟨_, rfl, rfl, ?_⟩
  show Tally.countOf (if _ then _ else _) k = Tally.countAll (if _ then _ else _)
  split
  · exact Plan.sumAt_joinedCounts ⟨l.association.remoteColumn, keys⟩ size rows differ
      present (valued k present)
  · rfl

include differ valued in
/-- A joined read succeeds if the reads for all its keys do. -/
theorem isSome_finished (keyed : keys ≠ [])
    (all : ∀ k ∈ keys, (childOutput store position l k target).isSome) :
    (finished store size (joinedTask position l keys target)).isSome := by
  obtain ⟨first, present⟩ := List.exists_mem_of_ne_nil keys keyed
  have one := all first present
  rw [childOutput_eq store keys] at one
  rw [finished_joinedTask store size keyed]
  cases there : store.table? target.type.table with
  | none => rw [there] at one; cases one
  | some rows =>
    rw [Option.bind_some, Option.isSome_map, isSome_mapM]
    intro row known
    obtain ⟨k, among, here⟩ := Plan.has_of_mem_joinedRows known
    have one := all k among
    rw [childOutput_eq store keys, there, Option.bind_some, Option.isSome_map, isSome_mapM] at one
    refine one row ?_
    rw [← Plan.filter_joinedRows ⟨l.association.remoteColumn, keys⟩ size rows differ
      among (valued k among)]
    exact List.mem_filter.mpr ⟨known, here⟩

include differ in
/-- A joined read counts nothing for the parents without a value. -/
theorem countOf_null {out : Output} (keyed : keys ≠ [])
    (done : finished store size (joinedTask position l keys target) = some out) {v : Value}
    (null : v.isNull) : out.tally.countOf v = 0 := by
  rw [finished_joinedTask store size keyed] at done
  obtain ⟨rows, there, done⟩ := Option.bind_eq_some_iff.mp done
  obtain ⟨records, made, rfl⟩ := Option.map_eq_some_iff.mp done
  show Tally.countOf (if _ then _ else _) v = 0
  split
  · exact Plan.sumAt_joinedCounts_null ⟨l.association.remoteColumn, keys⟩ size rows
      differ null
  · rfl

end Targets

end GraphRead.PerParent
