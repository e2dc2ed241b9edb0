import GraphRead.Proofs.Binding.Below
import GraphRead.Proofs.Metadata.Basic
import GraphRead.Proofs.Page.Located
/-!
The visits that answer a query.

In the resolution per parent every root field is visited once, and every association once for each
record above it. A visit reads each of its targets, completes every row that it fetches by visiting
the associations below, and only then merges the records to a page or to a single record
(`Visit.answer`). So rows that the page will not show are completed all the same: where page info is
asked, one more row of each type is fetched (`Visit.spare`), and everything below it is visited
(`Visit.Leads`).
-/

namespace GraphRead

open PerParent Success Memory

/-! ### What a record is completed with -/

/-- Adds answers to a record. -/
def Fetched.attachAll (r : Fetched) (answers : List (String × Answer Record)) : Fetched :=
  { r with record := { r.record with links := r.record.links ++ answers } }

theorem Fetched.attachAll_nil (r : Fetched) : r.attachAll [] = r := by
  obtain ⟨⟨_, _, _, _, _⟩, _, _⟩ := r
  rw [attachAll, List.append_nil]

/-- What associations answer to a record, under their keys. -/
def PerParent.answers (connector : Connector) (position : Path) (links : List (String × BoundLink))
    (r : Fetched) : Except ResolveError (List (String × Answer Record)) :=
  links.mapM fun link => (answer connector (position.add link.1) link.2
    (joinValue link.2.association.localColumn r)).map (link.1, ·)

/-- Answering one association after the other is answering all of them, as an answer does not
change what the others are asked. -/
theorem PerParent.foldlM_attachAnswer (connector : Connector) (position : Path)
    (links : List (String × BoundLink)) (r : Fetched) :
    links.foldlM (attachAnswer connector position) r =
      (answers connector position links r).map r.attachAll := by
  induction links generalizing r with
  | nil => exact congrArg Except.ok r.attachAll_nil.symm
  | cons link rest ih =>
    rw [List.foldlM_cons, answers, List.mapM_cons, attachAnswer]
    cases answer connector (position.add link.1) link.2
      (joinValue link.2.association.localColumn r) with
    | error e => rfl
    | ok found =>
      have others : answers connector position rest (r.attach link.1 found) =
          answers connector position rest r := by
        have same (column : String) :
            joinValue column (r.attach link.1 found) = joinValue column r :=
          joinValue_bare (attach_bare _ _ _)
        simp only [answers, same]
      show rest.foldlM _ (r.attach link.1 found) = Except.map _ (Except.bind (rest.mapM _) _)
      rw [ih, others, answers]
      cases rest.mapM fun link => (answer connector (position.add link.1) link.2
        (joinValue link.2.association.localColumn r)).map (link.1, ·) with
      | error e => rfl
      | ok more => simp [Except.map, Fetched.attachAll, Fetched.attach, Except.bind, pure,
          Except.pure]

/-- A record is completed with what all its associations answer. -/
theorem PerParent.complete_eq (connector : Connector) (position : Path) (target : Target)
    (r : Fetched) : complete connector position target r =
      (answers connector position target.links r).map r.attachAll := by
  cases asked : target.record? with
  | none =>
    rw [complete_of_none r asked, Target.links, asked]
    exact congrArg Except.ok r.attachAll_nil.symm
  | some f =>
    rw [complete_of_some r asked, foldlM_attachAnswer, Target.links, asked]
    rfl

/-! ### Visits -/

/-- One position of a query, visited for one parent if it lies below a record. -/
structure Visit where
  position : Path
  targets : List Target
  /-- The filter of the position for each type. -/
  filter : ObjectType → Filter
  /-- The column of the children with the value of the parent. -/
  parent : Option (String × Value)
  /-- How many rows of each type are enough, where the position is no list. -/
  take : Option Nat
  /-- Whether the answer is a page, or else at most one record. -/
  many : Bool
  /-- The value that has to lead to a record. -/
  required : Option Value

/-- The visit of an association for a parent with a value. -/
def BoundLink.visit (position : Path) (l : BoundLink) (v : Value) : Visit where
  position
  targets := l.targets
  filter := fun _ => l.filter
  parent := some (l.association.remoteColumn, v)
  take := none
  many := l.association.isMany
  required := if !l.association.nullable && !v.isNull then some v else none

/-- The visit of a root field. -/
def RootRead.visit (read : RootRead) : Visit where
  position := read.position
  targets := read.targets
  filter := fun type => match read.kind with
    | .many => read.filter
    | .single id => .allOf [read.filter, .equals type.primaryKey id]
  parent := none
  take := match read.kind with
    | .many => none
    | .single _ => some lookupLimit
  many := match read.kind with
    | .many => true
    | .single _ => false
  required := none

namespace Visit

/-- The plan by which a target is read. -/
def plan (visit : Visit) (target : Target) : Plan :=
  .compile target (visit.filter target.type)
    (visit.parent.map fun (column, v) => ⟨column, [v]⟩) visit.take

/-- Whether a row joins the parent, if there is one. -/
def joins (visit : Visit) (row : Row) : Bool :=
  match visit.parent with
  | some (column, v) => !v.isNull && row.has column v
  | none => true

/-- The rows of a table that qualify for a target. -/
def passing (visit : Visit) (target : Target) (rows : List Row) : List Row :=
  rows.filter fun row => (visit.plan target).fetchFilter.matches row && visit.joins row

/-- The rows that are fetched for a target. -/
def rows (visit : Visit) (store : Memory) (target : Target) : List Row :=
  taken (visit.plan target).take (sortRows (visit.plan target).arguments.order
    (visit.passing target (store.rowsOf target.type.table)))

/-- The completed record of a row. -/
def finish (visit : Visit) (store : Memory) (target : Target) (row : Row) : Option Fetched :=
  finishRow store visit.position target (visit.plan target) row

/-- The completed records of a target. -/
def reads (visit : Visit) (store : Memory) (target : Target) : Option (List Fetched) :=
  (store.table? target.type.table).bind fun _ =>
    (visit.rows store target).mapM (visit.finish store target)

/-- The answer that is merged from completed records. -/
def merge (visit : Visit) (found : List Fetched) : Except ResolveError (Answer Record) :=
  if visit.many then
    .ok (.many (mergeMany found (visit.targets.head?.bind Target.connection?) 0))
  else (mergeOne found visit.position visit.required).map .one

/-- What a visit answers, if it does, without what is asked about pages. -/
def answer (visit : Visit) (store : Memory) : Option (Answer Record) :=
  (checkOrders visit.position visit.targets).toOption.bind fun _ =>
    (visit.targets.mapM (visit.reads store)).bind fun found =>
      (visit.merge found.flatten).toOption.map Answer.plain

/-- A visit with its lists asked for their records only. -/
def plain (infos : Bool) (visit : Visit) : Visit :=
  { visit with targets := visit.targets.map (Target.plain infos) }

/-- The rows of a target that are fetched only because of what is asked about the page. -/
def spare (visit : Visit) (infos : Bool) (store : Memory) (target : Target) : List Row :=
  match target.connection? with
  | some c => (visit.rows store target).drop (c.plain infos).fetchLimit
  | none => []

/-- The records of all spare rows can be completed, without what is asked about pages. -/
def ShowsSpare (visit : Visit) (infos : Bool) (store : Memory) : Prop :=
  ∀ target ∈ visit.targets, ∀ row ∈ visit.spare infos store target,
    ((visit.plain infos).finish store (target.plain infos) row).isSome

/-- A visit and all visits below it: those of the associations of every row that is fetched. -/
inductive Leads (store : Memory) : Visit → Visit → Prop
  | here {visit : Visit} : Leads store visit visit
  | further {visit last : Visit} {target : Target} {row : Row} {key : String} {l : BoundLink}
    (reached : target ∈ visit.targets) (fetched : row ∈ visit.rows store target)
    (linked : (key, l) ∈ target.links)
    (leads : Leads store (l.visit (visit.position.add key) (row.value l.association.localColumn))
      last) : Leads store visit last

/-! ### Visits answer as the resolution per parent does -/

section Answers

variable {store : Memory}

/-- An answer of a page without its count. -/
theorem plain_mergeMany (found : List Fetched) (connection : Option BoundConnection)
    (total : Nat) : Answer.plain (.many (mergeMany found connection total)) =
      Answer.plain (.many (mergeMany found connection 0)) := by
  unfold mergeMany
  cases connection <;> rfl

theorem reads_eq (visit : Visit) (target : Target) :
    visit.reads store target = (store.table? target.type.table).bind fun rows =>
      (taken (visit.plan target).take (sortRows (visit.plan target).arguments.order
        (visit.passing target rows))).mapM (visit.finish store target) := by
  rw [reads]
  refine Option.bind_congr fun rows there => ?_
  rw [Visit.rows, table?_eq_some there]

/-- The read of a target below a parent has the records of the visit. -/
theorem map_records_link (position : Path) (l : BoundLink) (v : Value) (target : Target) :
    (childOutput store position l v target).map Output.records =
      (l.visit position v).reads store target := by
  rw [map_records_childOutput, reads_eq]
  rfl

/-- The read of a target of a root field has the records of the visit. -/
theorem map_records_root (read : RootRead) (target : Target) :
    (finished store none (read.task target)).map Output.records =
      read.visit.reads store target := by
  have plan : (read.task target).plan = read.visit.plan target := by
    rw [RootRead.task, Visit.plan, RootRead.visit]
    cases read.kind <;> rfl
  have same : (read.task target).target = target := rfl
  have there : (read.task target).position = read.visit.position := rfl
  have passes (rows : List Row) : read.visit.passing target rows =
      rows.filter (read.visit.plan target).fetchFilter.matches :=
    List.filter_congr fun row _ => Bool.and_true _
  rw [finished, same, plan, there, Plan.execute_plain store
    (rfl : (read.visit.plan target).join = none) (Plan.compile_covered ..),
    Option.bind_assoc, Option.map_bind, reads_eq]
  refine congrArg (Option.bind _) (funext fun rows => ?_)
  rw [Function.comp_apply, map_bind_completeOutput, Option.map_map, passes]
  exact Option.map_id'

/-- What is merged from the outputs of all targets is merged from their records. -/
theorem bind_merge (visit : Visit) {read : Target → Option Output}
    {merged : List Output → Except ResolveError (Answer Record)}
    (served : ∀ target, (read target).map Output.records = visit.reads store target)
    (same : ∀ outputs, (merged outputs).toOption.map Answer.plain =
      (visit.merge (outputs.flatMap Output.records)).toOption.map Answer.plain) :
    ((checkOrders visit.position visit.targets).toOption.bind fun _ =>
      (visit.targets.mapM read).bind fun outputs => (merged outputs).toOption).map Answer.plain =
      visit.answer store := by
  have each : (visit.targets.mapM read).map (List.map Output.records) =
      visit.targets.mapM (visit.reads store) := by
    rw [mapM_map_result]
    exact mapM_congr fun target _ => served target
  rw [Option.map_bind, answer, ← each]
  refine congrArg (Option.bind _) (funext fun _ => ?_)
  rw [Function.comp_apply, Option.map_bind, Option.bind_map]
  refine congrArg (Option.bind _) (funext fun outputs => ?_)
  rw [Function.comp_apply, same, Function.comp_apply, List.flatMap_def]

/-- An association answers a parent as its visit does. -/
theorem answer_link (position : Path) (l : BoundLink) {v : Value} (valued : v.isNull = false) :
    (PerParent.answer store.connector position l v).toOption.map Answer.plain =
      (l.visit position v).answer store := by
  rw [answer_toOption store position l valued]
  refine bind_merge (l.visit position v) (map_records_link position l v) fun outputs => ?_
  rw [linkAnswer, merge, show (l.visit position v).many = l.association.isMany from rfl]
  split
  · exact congrArg some (plain_mergeMany ..)
  · rfl

/-- A parent without a value is answered without a visit. -/
theorem answer_null (position : Path) (l : BoundLink) {v : Value} (null : v.isNull) :
    (PerParent.answer store.connector position l v).toOption.map Answer.plain =
      some (if l.association.isMany then .many ⟨[], 0, none⟩ else .one none) := by
  rw [answer_of_null _ _ _ null, linkAnswer]
  split
  · show some (Answer.plain (.many (mergeMany [] _ _))) = _
    unfold mergeMany
    split
    · rfl
    · dsimp only
      rw [List.mergeSort_nil, Pagination.cut_nil]
      rfl
  · rw [null, Bool.not_true, Bool.and_false]
    rfl

theorem isSome_answer_link (position : Path) (l : BoundLink) {v : Value}
    (valued : v.isNull = false) :
    (PerParent.answer store.connector position l v).toOption.isSome =
      ((l.visit position v).answer store).isSome := by
  rw [← answer_link position l valued, Option.isSome_map]

/-- A root field answers as its visit does. -/
theorem answer_root (read : RootRead) :
    (rootAnswer store.connector read).toOption.map Answer.plain = read.visit.answer store := by
  rw [rootAnswer_toOption store none, mapM_map]
  refine bind_merge read.visit (map_records_root read) fun outputs => ?_
  rw [RootRead.answer, merge, RootRead.visit]
  cases read.kind with
  | single id => rfl
  | many => exact congrArg some (plain_mergeMany ..)

end Answers

end Visit

end GraphRead
