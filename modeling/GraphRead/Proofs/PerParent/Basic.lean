import GraphRead.Execution.Run
/-!
Resolving per parent: the resolution that makes one read after the other.

Every root field is evaluated on its own. For every record and every association of it there is one
plain read for each target, of the rows whose join column equals the value of this record, with a
plain limit; it is followed by a plain count where records are counted. The children are completed
in the same way before they are merged. Nothing is shared between parents: no list of keys, no
chunks, no windows, no counts by group. This says what a response has to be, and the resolution
level by level is compared with it.

* `PerParent.childRead` — the read of one target for one parent.
* `PerParent.complete` — a record with the answers of all its associations.
* `PerParent.execute` — the response to a document.
-/

namespace GraphRead.PerParent

/-- The plan of a target below an association, for the parents with one value. -/
def childPlan (l : BoundLink) (target : Target) (v : Value) : Plan :=
  .compile target l.filter (some ⟨l.association.remoteColumn, [v]⟩) none

/-- The rows whose column has the value and that pass a filter. -/
def only (column : String) (v : Value) (filter : Filter) : Filter :=
  .allOf [filter, .equals column v]

/-- Counts the children of one parent, if records are counted. -/
def countPlan (connector : Connector) (column : String) (v : Value) (plan : Plan) :
    Except StoreError Tally :=
  if plan.counts then (connector.count plan.table (only column v plan.filter)).map .total
  else .ok .none

/-- Reads the children of one parent by a plan: one plain fetch with a plain limit, and one plain
count if records are counted. -/
def readPlan (connector : Connector) (column : String) (v : Value) (plan : Plan) :
    Except ResolveError Output := do
  let arguments := { plan.arguments with filter := only column v plan.fetchFilter }
  let set ← (connector.rows (.plain plan.table plan.columns arguments)).mapError .store
  let tally ← (countPlan connector column v plan).mapError .store
  let records ← (plan.recordsOf set).mapError .domain
  return ⟨records, tally⟩

/-- Reads the children of one type for one parent. -/
def childRead (connector : Connector) (l : BoundLink) (v : Value) (target : Target) :
    Except ResolveError Output :=
  readPlan connector l.association.remoteColumn v (childPlan l target v)

/-- The height of what is evaluated comes down from a record to its associations. -/
theorem link_height_le {target : Target} {f : BoundField} {key : String} {l : BoundLink}
    (asked : target.record? = some f) (linked : (key, l) ∈ f.links) : l.height ≤ target.height := by
  rw [← Target.height_eq_record asked]
  exact BoundField.link_height_le linked

/-- The height of what is evaluated comes down from an association to its targets. -/
theorem target_height_lt {l : BoundLink} {target : Target} (reached : target ∈ l.targets) :
    target.height < l.height := by
  have below := Target.height_le_listHeight reached
  obtain ⟨association, filter, targets⟩ := l
  simp only [BoundLink.height]
  exact Nat.lt_succ_of_le below

mutual

/-- A record of a target with the answers of its associations. -/
def complete (connector : Connector) (position : Path) (target : Target) (r : Fetched) :
    Except ResolveError Fetched :=
  match _asked : target.record? with
  | none => .ok r
  | some f => f.links.attach.foldlM (fun r ⟨(key, l), _linked⟩ => do
      let v := joinValue l.association.localColumn r
      return r.attach key (← answer connector (position.add key) l v)) r
termination_by (target.height, 1)
decreasing_by
  rcases Nat.lt_or_eq_of_le (link_height_le _asked _linked) with less | same
  · exact .left _ _ less
  · rw [same]
    exact .right _ Nat.zero_lt_one

/-- What an association answers to the parent with a value. Null leads nowhere, without a read. -/
def answer (connector : Connector) (position : Path) (l : BoundLink) (v : Value) :
    Except ResolveError (Answer Record) :=
  if v.isNull then linkAnswer position l [] v []
  else do
    checkOrders position l.targets
    let outputs ← l.targets.mapM fun target => do
      let output ← childRead connector l v target
      let records ← output.records.mapM fun r => complete connector position target r
      return { output with records }
    linkAnswer position l [(v, totalCount outputs)] v (outputs.flatMap Output.records)
termination_by (l.height, 0)
decreasing_by exact .left _ _ (target_height_lt ‹_›)

end

/-- Adds the answer of an association to a record. -/
def attachAnswer (connector : Connector) (position : Path) (r : Fetched)
    (link : String × BoundLink) : Except ResolveError Fetched := do
  let v := joinValue link.2.association.localColumn r
  return r.attach link.1 (← answer connector (position.add link.1) link.2 v)

theorem complete_of_none {connector : Connector} {position : Path} {target : Target} (r : Fetched)
    (asked : target.record? = none) : complete connector position target r = .ok r := by
  unfold complete
  split
  · rfl
  · rename_i f some
    rw [asked] at some
    cases some

/-- A record is completed with one association after the other. -/
theorem complete_of_some {connector : Connector} {position : Path} {target : Target}
    {f : BoundField} (r : Fetched) (asked : target.record? = some f) :
    complete connector position target r =
      f.links.foldlM (attachAnswer connector position) r := by
  unfold complete
  split
  · rename_i none
    rw [asked] at none
    cases none
  · rename_i f' some
    rw [asked] at some
    cases some
    conv => rhs; rw [← List.attach_map_subtype_val f.links, List.foldlM_map]
    rfl

/-- An output with its records completed. -/
def completeOutput (connector : Connector) (position : Path) (target : Target) (output : Output) :
    Except ResolveError Output := do
  let records ← output.records.mapM fun r => complete connector position target r
  return { output with records }

/-- What a root field answers. Its plans are not joined, so each is one plain read. -/
def rootAnswer (connector : Connector) (read : RootRead) : Except ResolveError (Answer Record) := do
  checkOrders read.position read.targets
  let outputs ← read.targets.mapM fun target => do
    let output ← (read.task target).plan.execute connector none
    completeOutput connector read.position target output
  read.answer outputs

/-- What root fields answer, one after the other. -/
def response (connector : Connector) (reads : List RootRead) : Except ResolveError Response := do
  let answers ← reads.mapM (rootAnswer connector)
  return Keyed.ofList ((reads.map RootRead.key).zip answers)

/-- The response to a document. -/
def execute (schema : Schema) (connector : Connector) (document : Document) :
    Except ExecutionError Response := do
  let root ← (Selection.ofDocument document).mapError .query
  let reads ← (root.rootReads schema).mapError .ofBind
  (response connector reads).mapError .ofResolve

end GraphRead.PerParent
