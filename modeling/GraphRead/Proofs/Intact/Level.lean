import GraphRead.Proofs.Intact.Basic
import GraphRead.Proofs.Intact.Mismatch
import GraphRead.Proofs.Schema.Build
/-!
What a resolution over intact data can fail with.

Over intact data a parent never has too many children, unless an interface repeats a type, and it
has too few only if the query filters them (`attachLink_excused`). This is followed through one
level after the other, from the rows of the parents (`Shown`) down (`resolveLevel_excused`).
-/

namespace GraphRead

open PerParent Success FailsOnly

/-! ### Targets and their rows -/

/-- A target is bound to a type of a schema, and so is what it asks of a record. -/
def Target.BoundTo (target : Target) (schema : Schema) : Prop :=
  target.type ∈ schema.types.values ∧ ∀ f, target.record? = some f →
    ∃ path s, Selection.bindField schema target.type path s = .ok f

section Bound

variable {schema : Schema}

theorem boundTo_of_bindTargets {entry : EntryPoint} {name : String} {path : Path} {s : Selection}
    {targets : List Target} (done : Selection.bindTargets schema entry name path s = .ok targets) :
    ∀ target ∈ targets, target.BoundTo schema := fun target reached =>
  ⟨(Selection.bindTargets_together done).declared target reached, fun _ asked =>
    Selection.exists_bindField done reached asked⟩

variable {target : Target} (bound : target.BoundTo schema) {key : String} {l : BoundLink}
  (linked : (key, l) ∈ target.links)

include bound linked

/-- A bound target asks for associations of its type. -/
theorem Target.BoundTo.link : l.association ∈ target.type.associations ∧ schema.Binds l := by
  obtain ⟨f, asked, linked⟩ := Target.mem_links.mp linked
  obtain ⟨path, s, isBound⟩ := bound.2 f asked
  obtain ⟨declares, isLink⟩ := Selection.exists_bindLink isBound linked
  exact ⟨declares, _, isLink⟩

theorem Target.BoundTo.child {child : Target} (reached : child ∈ l.targets) :
    child.BoundTo schema := by
  obtain ⟨-, association, path, s, isLink⟩ := bound.link linked
  obtain ⟨entry, isTargets⟩ := Selection.bindLink_ok schema isLink
  exact boundTo_of_bindTargets isTargets child reached

end Bound

/-- A record shows a row in scope of the type of its target, with the values that join it to its
children. -/
def Shown (store : Memory) (target : Target) (r : Fetched) : Prop :=
  ∃ row ∈ store.rowsOf target.type.table, target.type.scope.matches row ∧
    ∀ key l, (key, l) ∈ target.links →
      r.record.get? l.association.localColumn = some (row.value l.association.localColumn)

/-- What is read for a task shows rows in scope. -/
theorem shown_of_execute {store : Memory} {size : Option Nat} {task : Task}
    (planned : Planned task) {output : Output}
    (done : task.plan.execute store.connector size = .ok output) :
    ∀ r ∈ output.records, Shown store task.target r := by
  intro r present
  obtain ⟨rows, row, there, known, rfl⟩ :=
    Plan.mem_execute store planned.covered planned.keyed done r present
  obtain ⟨listed, passes⟩ := List.mem_filter.mp known
  obtain ⟨filter, join, take, same⟩ := planned.compiled
  have type : task.plan.type = task.target.type := by rw [same]; rfl
  have narrowed : task.plan.filter = .allOf [task.target.type.scope, filter] := by rw [same]; rfl
  have passes := Plan.matches_of_fetchFilter passes
  rw [narrowed, Filter.matches_pair, Bool.and_eq_true] at passes
  rw [Plan.table, type] at there
  refine ⟨row, by rw [table?_eq_some there]; exact listed, passes.1, fun key l linked => ?_⟩
  obtain ⟨f, asked, linked⟩ := Target.mem_links.mp linked
  exact Plan.get?_recordFor (planned.mem_columns asked linked) row

/-! ### Dealing children out -/

/-- Dealing out the children of an association changes nothing else of a record. -/
theorem attachLink_bare {position : Path} {key : String} {l : BoundLink} {outs : List Output}
    {records found : List Fetched} (done : attachLink position key l outs records = .ok found) :
    found.map bare = records.map bare := by
  have each := attachLink_toOption position l key outs records
  rw [done, mapM_attach] at each
  refine map_eq_of_mapM each.symm fun r _ found made => ?_
  obtain ⟨answer, -, rfl⟩ := Option.map_eq_some_iff.mp made
  exact attach_bare key r answer

section Children

variable {schema : Schema} {store : Memory} {reads : List RootRead} {size : Option Nat}
  (named : schema.Named) (intact : schema.Intact store) {position : Path} {target : Target}
  (asked : Asked reads position target) (bound : target.BoundTo schema)

include named intact asked bound

/-- A parent that joins with a value is answered with its related row, unless the query filters it
or an interface repeats a type. -/
theorem mergeOne_excused {key : String} {l : BoundLink} (linked : (key, l) ∈ target.links)
    (one : l.association.isMany = false) {row : Row}
    (present : row ∈ store.rowsOf target.type.table) (scope : target.type.scope.matches row)
    {v : Value} (own : row.value l.association.localColumn = v) (valued : v.isNull = false)
    {children : List Fetched}
    (many : children.length = (l.place v).total store (l.targets.map Target.type)) :
    FailsOnly (Excused schema store reads) (mergeOne children (position.add key)
      (if !l.association.nullable && !v.isNull then some v else none)) := by
  subst own
  obtain ⟨declares, isLink⟩ := bound.link linked
  have related (types : List ObjectType) (reaches : schema.Reaches l.association.target types) :=
    intact target.type bound.1 l.association declares one types reaches row present scope valued
  match children, many with
  | [], nothing =>
    cases nullable : l.association.nullable with
    | true => exact ok none
    | false =>
      rw [valued]
      obtain ⟨types, reaches, same⟩ := Schema.exists_reaches isLink.types
      have some_related := (related types reaches).2 nullable
      obtain ⟨type, reached, row', known, scope', joins, rejected⟩ :=
        exists_rejected store l (fun type => (same type).mp) valued
          (some_related.symm ▸ Nat.zero_lt_one) nothing.symm
      exact error (.filtered (.intro asked linked one nullable present scope valued reached known
        scope' joins rejected))
  | [child], _ =>
    split <;> exact ok _
  | first :: second :: rest, many =>
    refine error (.repeated ?_)
    by_contra never
    have unrepeated (face) (declared : Keyed.get? schema.interfaces l.association.target =
        some face) : face.covered.Nodup := by
      by_contra repeats
      exact never (.intro asked linked one declared repeats)
    have distinct := (named.nodup_coveredTypes unrepeated isLink.types).of_map
    have atMost := (related _ ⟨distinct, _, isLink.types, fun _ => Iff.rfl⟩).1
    have found := total_le_related store l (l.targets.map Target.type)
      (v := row.value l.association.localColumn)
    rw [List.length_cons, List.length_cons] at many
    omega

/-- The children of an association are dealt out without a mismatch, unless the query filters
them or an interface repeats a type. -/
theorem attachLink_excused {key : String} {l : BoundLink} (linked : (key, l) ∈ target.links)
    {records before : List Fetched} (same : records.map bare = before.map bare)
    (shown : ∀ r ∈ before, Shown store target r) {tasks : List Task}
    (planned : planLink position key l before = .ok tasks) {outs : List Output}
    (read : tasks.mapM (finished store size) = some outs) :
    FailsOnly (Excused schema store reads) (attachLink position key l outs records) := by
  unfold attachLink
  dsimp only
  rw [linkAnswers_build, ← map_joinValue_bare _ same]
  refine (FailsOnly.mapM fun v present => ?_).bind fun _ _ => ok _
  obtain ⟨r, known, own⟩ := List.mem_map.mp present
  obtain ⟨row, there, scope, columns⟩ := shown r known
  have value : row.value l.association.localColumn = v := by
    rw [← own, joinValue, columns key l linked]
    rfl
  unfold linkAnswer
  split
  · exact ok _
  · rename_i one
    refine FailsOnly.map _ ?_
    cases valued : v.isNull with
    | true =>
      rw [if_pos rfl, Bool.not_true, Bool.and_false]
      exact ok none
    | false =>
      obtain ⟨k, among, -⟩ := exists_mem_keysOf present valued
      have tasks_eq := planLink_toOption position l key
        (fun r known => by
          obtain ⟨_, -, -, columns⟩ := shown r known
          rw [columns key l linked]
          rfl) rfl
      rw [planned, if_neg (fun none => List.not_mem_nil (List.isEmpty_iff.mp none ▸ among))]
        at tasks_eq
      obtain ⟨_, -, rfl⟩ := Option.map_eq_some_iff.mp tasks_eq.symm
      obtain ⟨ones, made, records, -⟩ :=
        exists_childOutputs store size (position.add key) l read present valued
      rw [if_neg Bool.false_ne_true, records, ← valued]
      have single : ∀ child ∈ l.targets, child.connection? = none := by
        intro child reached
        cases child with
        | connection c => exact absurd ((bound.link linked).2.many reached) one
        | field f => rfl
        | edge e => rfl
      exact mergeOne_excused named intact asked bound linked (Bool.of_not_eq_true one) there scope
        value valued (length_children single made)

/-- Associations that are planned and read together are dealt out without a mismatch, unless the
query filters them or an interface repeats a type. -/
theorem attachLinks_excused {links : List (String × BoundLink)}
    (linked : ∀ link ∈ links, link ∈ target.links) (distinct : (links.map Prod.fst).Nodup)
    {records before : List Fetched} (same : records.map bare = before.map bare)
    (shown : ∀ r ∈ before, Shown store target r) {entries : List (String × Task)}
    (planned : planLinks position before links = .ok entries) {children : List (String × Output)}
    (read : entries.mapM (PerParent.named store size) = some children) :
    FailsOnly (Excused schema store reads) (attachLinks position children links records) := by
  induction links generalizing records entries children with
  | nil => exact ok records
  | cons link rest ih =>
    obtain ⟨key, l⟩ := link
    rw [List.forall_mem_cons] at linked
    obtain ⟨fresh, distinct⟩ := List.nodup_cons.mp distinct
    simp only [planLinks, Fallible.bind_eq_ok, Fallible.pure_eq_ok] at planned
    obtain ⟨tasks, first, more, later, rfl⟩ := planned
    rw [mapM_named_append] at read
    obtain ⟨outs, mine, read⟩ := Option.bind_eq_some_iff.mp read
    obtain ⟨theirs, others, rfl⟩ := Option.map_eq_some_iff.mp read
    rw [attachLinks_cons position fresh (key_of_mem_named store size later others)]
    refine (attachLink_excused named intact asked bound linked.1 same shown first mine).bind
      fun found done => ?_
    exact ih linked.2 distinct ((attachLink_bare done).trans same) later others

end Children

/-! ### Levels -/

/-- A task reads a target where the reads ask for it. -/
structure Task.Due (task : Task) (schema : Schema) (reads : List RootRead) : Prop where
  planned : Planned task
  formed : task.target.Formed schema.Together
  asked : Asked reads task.position task.target
  bound : task.target.BoundTo schema

section Level

variable {schema : Schema} {store : Memory} {reads : List RootRead} {size : Option Nat}

/-- The tasks below a level are due if those of the level are. -/
theorem due_of_planLevel {place : Nat} {entries : List (Task × Output)} {children : List ChildTask}
    (planned : planLevel place entries = .ok children)
    (due : ∀ entry ∈ entries, entry.1.Due schema reads) :
    ∀ child ∈ children, child.task.Due schema reads := by
  intro child present
  obtain ⟨ready, entry, known, f, key, l, asks, linked, reached, position⟩ :=
    exists_of_planLevel planned child present
  have above := due entry known
  have below := Target.mem_links.mpr ⟨f, asks, linked⟩
  refine ⟨ready, above.formed.child asks linked reached, ?_, above.bound.child below reached⟩
  rw [position]
  exact .link above.asked below reached

variable (named : schema.Named) (intact : schema.Intact store)

include named intact

/-- A task is completed without a mismatch, unless the query filters its associations or an
interface repeats a type. -/
theorem assemble_excused {task : Task} (due : task.Due schema reads) {output : Output}
    (shown : ∀ r ∈ output.records, Shown store task.target r) {entries : List (String × Task)}
    (planned : planChildren task output = .ok entries) {children : List (String × Output)}
    (read : entries.mapM (PerParent.named store size) = some children) :
    FailsOnly (Excused schema store reads)
      (assemble task.position task.target children output) := by
  unfold planChildren at planned
  unfold assemble
  cases asks : task.target.record? with
  | none => exact ok output
  | some f =>
    rw [asks] at planned
    refine FailsOnly.map _ ?_
    refine attachLinks_excused named intact due.asked due.bound (fun link linked => ?_)
      (due.formed.keys_nodup asks) rfl shown planned read
    exact Target.mem_links.mpr ⟨f, asks, linked⟩

/-- A level is completed without a mismatch, unless the query filters its associations or an
interface repeats a type. -/
theorem assembleLevel_excused {place : Nat} {entries : List (Task × Output)}
    (each : ∀ entry ∈ entries, entry.1.Due schema reads ∧
      ∀ r ∈ entry.2.records, Shown store entry.1.target r) {children : List ChildTask}
    (planned : planLevel place entries = .ok children) {pairs : List (ChildTask × Output)}
    (read : children.mapM (paired store size) = some pairs) :
    FailsOnly (Excused schema store reads) (assembleLevel pairs place entries) := by
  induction entries generalizing place children pairs with
  | nil => exact ok []
  | cons entry rest ih =>
    obtain ⟨task, output⟩ := entry
    rw [List.forall_mem_cons] at each
    obtain ⟨⟨due, shown⟩, each⟩ := each
    simp only [planLevel, Fallible.bind_eq_ok, Fallible.pure_eq_ok] at planned
    obtain ⟨here, first, more, later, rfl⟩ := planned
    rw [List.mapM_append] at read
    obtain ⟨mine, own, read⟩ := Option.bind_eq_some_iff.mp read
    obtain ⟨theirs, others, read⟩ := Option.bind_eq_some_iff.mp read
    cases read
    have own : (childTasks place here).mapM (paired store size) = some mine := own
    have children := mapM_paired_childrenOf store size place here
    rw [own] at children
    rw [assembleLevel_append (parent_of_mem_paired store size own) fun pair present =>
      (exists_of_mem_planLevel later (mem_of_mem_paired store size others present)).1]
    refine (ih each later others).bind fun _ _ => ?_
    exact (assemble_excused named intact due shown first children.symm).bind fun _ _ => ok _

/-- Over intact data a resolution fails with a mismatch only where the query filters an association
or an interface repeats a type, by induction on the height of the level. -/
theorem resolveLevel_excused {completion : Completion} (every : completion.Complete) (depth : Nat)
    {tasks : List Task} (due : ∀ task ∈ tasks, task.Due schema reads) :
    FailsOnly (Excused schema store reads)
      (resolveLevel store.connector size completion depth tasks).outcome := by
  fun_induction resolveLevel store.connector size completion depth tasks with
  | case1 depth => exact ok []
  | case2 depth tasks some_task e failed =>
    exact error (.other (executeLevel_other _ _ _ _ e failed))
  | case3 depth tasks some_task outputs done e failed =>
    exact error (.other (planLevel_other _ _ e failed))
  | case4 depth tasks some_task outputs done children planned below ih =>
    have read := executeLevel_toOption store.connector size (every depth tasks.length)
    rw [done] at read
    have each : ∀ entry ∈ tasks.zip outputs, entry.1.Due schema reads ∧
        ∀ r ∈ entry.2.records, Shown store entry.1.target r := by
      intro entry present
      have due := due entry.1 (List.of_mem_zip present).1
      have executed := toOption_eq_some.mp (eq_some_of_mem_zip read.symm present)
      exact ⟨due, shown_of_execute due.planned executed⟩
    have later : ∀ task ∈ children.map ChildTask.task, task.Due schema reads := by
      intro task present
      obtain ⟨child, known, rfl⟩ := List.mem_map.mp present
      exact due_of_planLevel planned (fun entry present => (each entry present).1) child known
    refine (ih later).bind fun found completed => ?_
    have level := resolveLevel_toOption store size every (depth + 1)
      fun task present => ⟨(later task present).planned, (later task present).formed⟩
    rw [completed, mapM_map] at level
    have pairs := mapM_zip (fun child : ChildTask => finished store size child.task) children
    rw [← level] at pairs
    exact assembleLevel_excused named intact each planned pairs.symm

end Level

end GraphRead
