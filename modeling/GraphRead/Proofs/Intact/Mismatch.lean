import GraphRead.Proofs.Binding.Below
import GraphRead.Proofs.Failure
import GraphRead.Proofs.PerParent.Roots
/-!
Errors about the number of records where there is at most one.

Planning and reading never fail with such an error (`executeLevel_other`, `planLevel_other`), and
putting records together fails with no other (`assembleLevel_mismatches`). So it can only come up
where the children of a level are dealt out to their parents, or where a root field looks up a
single record. The ones that can come up although the data is intact are those of `Excused`: a
lookup of a single record, an interface that repeats a type, and a required association whose
related row is filtered by the query (`Filtered`).
-/

namespace GraphRead

open FailsOnly

/-- Whether an error is about the number of records where there is at most one. -/
def ResolveError.isMismatch : ResolveError → Bool
  | tooManyRecords .. => true
  | missingRecord .. => true
  | _ => false

/-- A target is asked at a position by some reads. -/
inductive Asked (reads : List RootRead) : Path → Target → Prop
  | root {read : RootRead} {target : Target} (asked : read ∈ reads)
    (reached : target ∈ read.targets) : Asked reads read.position target
  | link {position : Path} {target child : Target} {key : String} {l : BoundLink}
    (above : Asked reads position target) (linked : (key, l) ∈ target.links)
    (reached : child ∈ l.targets) : Asked reads (position.add key) child

/-- At a position a required association leads to nothing because the query filters it: a row in
scope that joins with a value has a related row in scope that the filter of the arguments
rejects. -/
inductive Filtered (store : Memory) (reads : List RootRead) : Path → String → Prop
  | intro {above : Path} {target : Target} {key : String} {l : BoundLink} {row related : Row}
    {type : ObjectType} (asked : Asked reads above target) (linked : (key, l) ∈ target.links)
    (one : l.association.isMany = false) (required : l.association.nullable = false)
    (present : row ∈ store.rowsOf target.type.table) (scope : target.type.scope.matches row)
    (valued : (row.value l.association.localColumn).isNull = false)
    (reached : type ∈ l.targets.map Target.type) (known : related ∈ store.rowsOf type.table)
    (relatedScope : type.scope.matches related)
    (joins : related.has l.association.remoteColumn (row.value l.association.localColumn))
    (rejected : l.filter.matches related = false) :
    Filtered store reads (above.add key) (row.value l.association.localColumn).text

/-- At a position an association that leads to one record leads to an interface that repeats a
type. -/
inductive Repeated (schema : Schema) (reads : List RootRead) : Path → Prop
  | intro {above : Path} {target : Target} {key : String} {l : BoundLink} {face : Interface}
    (asked : Asked reads above target) (linked : (key, l) ∈ target.links)
    (one : l.association.isMany = false)
    (declared : Keyed.get? schema.interfaces l.association.target = some face)
    (repeats : ¬ face.covered.Nodup) : Repeated schema reads (above.add key)

/-- An error that can come up over intact data. -/
inductive Excused (schema : Schema) (store : Memory) (reads : List RootRead) : ResolveError → Prop
  | other {e : ResolveError} (other : e.isMismatch = false) : Excused schema store reads e
  | lookup {read : RootRead} {id : Value} {found : Nat} (asked : read ∈ reads)
    (single : read.kind = .single id) :
    Excused schema store reads (.tooManyRecords read.position found)
  | repeated {position : Path} {found : Nat} (repeated : Repeated schema reads position) :
    Excused schema store reads (.tooManyRecords position found)
  | filtered {position : Path} {key : String} (filtered : Filtered store reads position key) :
    Excused schema store reads (.missingRecord position key)

/-! ### Planning and reading -/

section Fails

variable {allowed : ResolveError → Prop}

/-- A level only fails with what one of its tasks fails with. -/
theorem exists_of_gather_error {places : List Output}
    {entries : List (Nat × Except ResolveError Output)} {e : ResolveError}
    (failed : gather places entries = .error e) : ∃ place, (place, .error e) ∈ entries := by
  induction entries generalizing places with
  | nil => cases failed
  | cons entry rest ih =>
    obtain ⟨place, answer⟩ := entry
    cases answer with
    | error own =>
      cases failed
      exact ⟨place, List.mem_cons_self⟩
    | ok output =>
      obtain ⟨place', later⟩ := ih failed
      exact ⟨place', List.mem_cons_of_mem _ later⟩

theorem executeLevel_failsOnly {connector : Connector} {size : Option Nat} {tasks : List Task}
    (each : ∀ task ∈ tasks, FailsOnly allowed (task.plan.execute connector size))
    (order : List Nat) : FailsOnly allowed (executeLevel connector size order tasks) := by
  intro e failed
  obtain ⟨place, present⟩ := exists_of_gather_error failed
  obtain ⟨own, -, same⟩ := List.mem_filterMap.mp present
  obtain ⟨answer, here, same⟩ := Option.map_eq_some_iff.mp same
  cases same
  obtain ⟨task, known, failed⟩ := List.mem_map.mp (List.mem_of_getElem? here)
  exact each task known e failed

theorem planLink_failsOnly {position : Path} {key : String} {l : BoundLink}
    {records : List Fetched}
    (keys : FailsOnly allowed
      ((joinKeys records l.association.localColumn).mapError ResolveError.domain))
    (orders : FailsOnly allowed (checkOrders (position.add key) l.targets)) :
    FailsOnly allowed (planLink position key l records) := by
  refine keys.bind fun found _ => ?_
  split
  · exact ok _
  · exact orders.bind fun _ _ => ok _

theorem planLinks_failsOnly {position : Path} {records : List Fetched}
    {links : List (String × BoundLink)}
    (each : ∀ link ∈ links, FailsOnly allowed (planLink position link.1 link.2 records)) :
    FailsOnly allowed (planLinks position records links) := by
  induction links with
  | nil => exact ok _
  | cons link rest ih =>
    rw [List.forall_mem_cons] at each
    exact each.1.bind fun _ _ => (ih each.2).bind fun _ _ => ok _

theorem planChildren_failsOnly {task : Task} {output : Output}
    (each : ∀ link ∈ task.target.links,
      FailsOnly allowed (planLink task.position link.1 link.2 output.records)) :
    FailsOnly allowed (planChildren task output) := by
  unfold planChildren
  cases asked : task.target.record? with
  | none => exact ok _
  | some f =>
    exact planLinks_failsOnly fun link linked => each link (Target.mem_links.mpr ⟨f, asked, linked⟩)

theorem planLevel_failsOnly {entries : List (Task × Output)} (place : Nat)
    (each : ∀ entry ∈ entries, FailsOnly allowed (planChildren entry.1 entry.2)) :
    FailsOnly allowed (planLevel place entries) := by
  induction entries generalizing place with
  | nil => exact ok _
  | cons entry rest ih =>
    rw [List.forall_mem_cons] at each
    exact each.1.bind fun _ _ => (ih (place + 1) each.2).bind fun _ _ => ok _

end Fails

theorem store_other {α : Type} (x : Except StoreError α) :
    FailsOnly (fun e => e.isMismatch = false) (x.mapError ResolveError.store) :=
  mapError fun _ => rfl

theorem domain_other {α : Type} (x : Except DomainError α) :
    FailsOnly (fun e => e.isMismatch = false) (x.mapError ResolveError.domain) :=
  mapError fun _ => rfl

theorem Plan.execute_other (plan : Plan) (connector : Connector) (size : Option Nat) :
    FailsOnly (fun e => e.isMismatch = false) (plan.execute connector size) :=
  (store_other _).bind fun _ _ => (store_other _).bind fun _ _ => (domain_other _).bind fun _ _ =>
    ok _

theorem executeLevel_other (connector : Connector) (size : Option Nat) (order : List Nat)
    (tasks : List Task) :
    FailsOnly (fun e => e.isMismatch = false) (executeLevel connector size order tasks) :=
  executeLevel_failsOnly (fun task _ => task.plan.execute_other connector size) order

theorem checkOrders_diverges (position : Path) (targets : List Target) :
    FailsOnly (fun e => ∃ details, e = .divergentOrder position details)
      (checkOrders position targets) := by
  unfold checkOrders
  split
  · exact ok _
  · split
    · exact ok _
    · exact error ⟨_, rfl⟩

theorem checkOrders_other (position : Path) (targets : List Target) :
    FailsOnly (fun e => e.isMismatch = false) (checkOrders position targets) :=
  (checkOrders_diverges position targets).mono fun _ ⟨_, same⟩ => same ▸ rfl

theorem planLevel_other (place : Nat) (entries : List (Task × Output)) :
    FailsOnly (fun e => e.isMismatch = false) (planLevel place entries) :=
  planLevel_failsOnly place fun _ _ => planChildren_failsOnly fun _ _ =>
    planLink_failsOnly (domain_other _) (checkOrders_other _ _)

/-! ### Putting together -/

theorem mergeOne_mismatches (fetched : List Fetched) (position : Path) (required : Option Value) :
    FailsOnly (fun e => e.isMismatch) (mergeOne fetched position required) := by
  unfold mergeOne
  split
  · exact error rfl
  · exact ok _
  · exact ok _
  · exact error rfl

theorem linkAnswer_mismatches (position : Path) (l : BoundLink) (counts : ByValue Nat) (v : Value)
    (children : List Fetched) :
    FailsOnly (fun e => e.isMismatch) (linkAnswer position l counts v children) := by
  unfold linkAnswer
  split
  · exact ok _
  · exact FailsOnly.map _ (mergeOne_mismatches _ _ _)

theorem linkAnswers_mismatches (position : Path) (l : BoundLink) (counts : ByValue Nat) :
    ∀ (index : ChildIndex) (values : List Value),
      FailsOnly (fun e => e.isMismatch) (linkAnswers position l counts index values)
  | _, [] => ok _
  | _, v :: rest =>
    (linkAnswer_mismatches position l counts v _).bind fun _ _ =>
      (linkAnswers_mismatches position l counts _ rest).bind fun _ _ => ok _

theorem attachLinks_mismatches (position : Path) (children : List (String × Output)) :
    ∀ (links : List (String × BoundLink)) (records : List Fetched),
      FailsOnly (fun e => e.isMismatch) (attachLinks position children links records)
  | [], _ => ok _
  | (_, l) :: rest, _ =>
    ((linkAnswers_mismatches _ l _ _ _).bind fun _ _ => ok _).bind fun _ _ =>
      attachLinks_mismatches position children rest _

/-- Putting the records of a level together only fails with the number of records. -/
theorem assembleLevel_mismatches (children : List (ChildTask × Output)) :
    ∀ (place : Nat) (entries : List (Task × Output)),
      FailsOnly (fun e => e.isMismatch) (assembleLevel children place entries)
  | _, [] => ok _
  | place, (task, output) :: rest => by
    refine (assembleLevel_mismatches children (place + 1) rest).bind fun _ _ =>
      FailsOnly.bind ?_ fun _ _ => ok _
    unfold assemble
    split
    · exact ok _
    · exact FailsOnly.map _ (attachLinks_mismatches _ _ _ _)

theorem rootAnswers_mismatches : ∀ (reads : List RootRead) (outputs : List Output),
    FailsOnly (fun e => e.isMismatch) (rootAnswers reads outputs)
  | [], _ => ok _
  | read :: rest, outputs => by
    refine FailsOnly.bind ?_ fun _ _ => (rootAnswers_mismatches rest _).bind fun _ _ => ok _
    unfold RootRead.answer
    dsimp only
    split
    · exact FailsOnly.map _ (mergeOne_mismatches _ _ _)
    · exact ok _

end GraphRead
