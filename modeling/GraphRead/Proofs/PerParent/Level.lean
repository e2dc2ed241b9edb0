import GraphRead.Proofs.PerParent.Link
import GraphRead.Proofs.Resolve.Complete
import GraphRead.Proofs.Resolve.Formed
import Mathlib.Data.List.Basic
/-!
A level of tasks: what comes of it is what comes of each task on its own (`resolveLevel_toOption`).

The tasks of a level are planned, read and assembled together. As success does not depend on the
order of the steps, this is rearranged bit by bit: into one association after the other for the
records of one task (`attachLinks_eq`), into one task after the other (`assembleLevel_eq`), and by
induction on the height of a level into one tree of reads for each record of the first level.
-/

namespace GraphRead.PerParent

open Success

section Task

variable (store : Memory) (size : Option Nat)

/-- What the task of an association yields, under the key of the association. -/
def named (entry : String × Task) : Option (String × Output) :=
  (finished store size entry.2).map fun output => (entry.1, output)

/-- The outputs under a key. -/
def outputsOf (key : String) (children : List (String × Output)) : List Output :=
  children.filterMap fun (k, output) => if k = key then some output else none

theorem outputsOf_append (key : String) (left right : List (String × Output)) :
    outputsOf key (left ++ right) = outputsOf key left ++ outputsOf key right :=
  List.filterMap_append ..

theorem outputsOf_self (key : String) (outs : List Output) :
    outputsOf key (outs.map fun output => (key, output)) = outs := by
  induction outs with
  | nil => rfl
  | cons out rest ih =>
    rw [List.map_cons, outputsOf, List.filterMap_cons]
    simp only [if_true]
    exact congrArg (out :: ·) ih

theorem outputsOf_other {key : String} {children : List (String × Output)}
    (other : ∀ entry ∈ children, entry.1 ≠ key) : outputsOf key children = [] := by
  refine List.filterMap_eq_nil_iff.mpr fun entry present => ?_
  exact if_neg (other entry present)

/-- Only the outputs under the keys of the associations count. -/
theorem attachLinks_congr {position : Path} {children children' : List (String × Output)}
    {links : List (String × BoundLink)} (records : List Fetched)
    (same : ∀ link ∈ links, outputsOf link.1 children = outputsOf link.1 children') :
    attachLinks position children links records = attachLinks position children' links records := by
  induction links generalizing records with
  | nil => rfl
  | cons link rest ih =>
    obtain ⟨key, l⟩ := link
    have here : outputsOf key children = outputsOf key children' :=
      same (key, l) List.mem_cons_self
    have step (children : List (String × Output)) :
        attachLinks position children ((key, l) :: rest) records =
          attachLink position key l (outputsOf key children) records >>= fun records =>
            attachLinks position children rest records := rfl
    rw [step, step, here]
    exact congrArg (_ >>= ·) (funext fun records =>
      ih records fun link present => same link (List.mem_cons_of_mem _ present))

theorem mapM_attachAnswer_bare {connector : Connector} {position : Path}
    {link : String × BoundLink} {records found : List Fetched}
    (done : (records.mapM fun r => (attachAnswer connector position r link).toOption) =
      some found) : found.map bare = records.map bare :=
  map_eq_of_mapM done fun _ _ _ made => attachAnswer_bare (toOption_eq_some.mp made)

theorem planLinks_cons (position : Path) (records : List Fetched) (key : String) (l : BoundLink)
    (rest : List (String × BoundLink)) :
    (planLinks position records ((key, l) :: rest)).toOption =
      (planLink position key l records).toOption.bind fun tasks =>
        (planLinks position records rest).toOption.map fun more =>
          tasks.map (fun task => (key, task)) ++ more := by
  rw [planLinks, toOption_bind]
  refine congrArg (Option.bind _) (funext fun tasks => ?_)
  rw [toOption_bind]
  exact bind_some_map _ _

theorem mapM_named_append (key : String) (tasks : List Task) (more : List (String × Task)) :
    (tasks.map (fun task => (key, task)) ++ more).mapM (named store size) =
      (tasks.mapM (finished store size)).bind fun outs =>
        (more.mapM (named store size)).map fun children =>
          outs.map (fun out => (key, out)) ++ children := by
  have own : (tasks.map fun task => (key, task)).mapM (named store size) =
      (tasks.mapM (finished store size)).map fun outs => outs.map fun out => (key, out) := by
    rw [mapM_map, mapM_map_result]
    rfl
  rw [List.mapM_append, own]
  show Option.bind _ _ = _
  rw [Option.bind_map]
  exact congrArg (Option.bind _) (funext fun outs => bind_some_map _ _)

/-- The outputs of the tasks of some associations are filed under the keys of these. -/
theorem key_of_mem_named {position : Path} {records : List Fetched}
    {links : List (String × BoundLink)} {entries : List (String × Task)}
    {children : List (String × Output)} (planned : planLinks position records links = .ok entries)
    (done : entries.mapM (named store size) = some children) :
    ∀ entry ∈ children, entry.1 ∈ links.map Prod.fst := by
  intro entry present
  obtain ⟨task, known, yielded⟩ := exists_of_mem_mapM done present
  obtain ⟨out, -, rfl⟩ := Option.map_eq_some_iff.mp yielded
  obtain ⟨l, -, linked, -⟩ := exists_of_mem_planLinks planned known
  exact List.mem_map_of_mem (f := Prod.fst) linked

/-- The outputs of the first association are attached by it, and the others by the other ones. -/
theorem attachLinks_cons (position : Path) {key : String} {l : BoundLink}
    {rest : List (String × BoundLink)} (fresh : key ∉ rest.map Prod.fst)
    {children : List (String × Output)} (keys : ∀ entry ∈ children, entry.1 ∈ rest.map Prod.fst)
    (outs : List Output) (records : List Fetched) :
    attachLinks position (outs.map (fun out => (key, out)) ++ children) ((key, l) :: rest)
        records =
      attachLink position key l outs records >>= attachLinks position children rest := by
  have mine : outputsOf key (outs.map (fun out => (key, out)) ++ children) = outs := by
    rw [outputsOf_append, outputsOf_self, outputsOf_other, List.append_nil]
    intro entry present own
    exact fresh (own ▸ keys entry present)
  have theirs (found : List Fetched) :
      attachLinks position (outs.map (fun out => (key, out)) ++ children) rest found =
        attachLinks position children rest found := by
    refine attachLinks_congr found fun link present => ?_
    rw [outputsOf_append, outputsOf_other, List.nil_append]
    intro entry made own
    obtain ⟨out, -, rfl⟩ := List.mem_map.mp made
    have own : key = link.1 := own
    exact fresh (List.mem_map.mpr ⟨link, present, own.symm⟩)
  show attachLink position key l (outputsOf key _) records >>= attachLinks position _ rest = _
  rw [mine]
  exact congrArg (_ >>= ·) (funext theirs)

/-- Associations that are planned and read together answer a record like one after the other. -/
theorem attachLinks_eq (position : Path) {links : List (String × BoundLink)}
    {records before : List Fetched} (distinct : (links.map Prod.fst).Nodup)
    (same : records.map bare = before.map bare)
    (known : ∀ link ∈ links, ∀ r ∈ before,
      (r.record.get? link.2.association.localColumn).isSome) :
    ((planLinks position before links).toOption.bind fun entries =>
      (entries.mapM (named store size)).bind fun children =>
        (attachLinks position children links records).toOption) =
      links.foldlM (fun records link => records.mapM fun r =>
        (attachAnswer store.connector position r link).toOption) records := by
  induction links generalizing records with
  | nil => rfl
  | cons link rest ih =>
    obtain ⟨key, l⟩ := link
    obtain ⟨fresh, later⟩ := List.nodup_cons.mp distinct
    have first := attachLink_eq store size position l key same (known (key, l) List.mem_cons_self)
    have others (found : List Fetched)
        (done : (records.mapM fun r =>
          (attachAnswer store.connector position r (key, l)).toOption) = some found) :=
      ih later ((mapM_attachAnswer_bare done).trans same)
        fun link present => known link (List.mem_cons_of_mem _ present)
    calc ((planLinks position before ((key, l) :: rest)).toOption.bind fun entries =>
          (entries.mapM (named store size)).bind fun children =>
            (attachLinks position children ((key, l) :: rest) records).toOption)
      _ = (planLink position key l before).toOption.bind fun tasks =>
          (planLinks position before rest).toOption.bind fun entries =>
          (tasks.mapM (finished store size)).bind fun outs =>
          (entries.mapM (named store size)).bind fun children =>
          (attachLink position key l outs records).toOption.bind fun found =>
            (attachLinks position children rest found).toOption := by
        rw [planLinks_cons, Option.bind_assoc]
        refine congrArg (Option.bind _) (funext fun tasks => ?_)
        rw [Option.bind_map]
        refine Option.bind_congr fun entries planned => ?_
        rw [Function.comp_apply, mapM_named_append, Option.bind_assoc]
        refine congrArg (Option.bind _) (funext fun outs => ?_)
        rw [Option.bind_map]
        refine Option.bind_congr fun children read => ?_
        have keys := key_of_mem_named store size (toOption_eq_some.mp planned) read
        rw [Function.comp_apply, attachLinks_cons position fresh keys, toOption_bind]
      _ = ((planLink position key l before).toOption.bind fun tasks =>
          (tasks.mapM (finished store size)).bind fun outs =>
            (attachLink position key l outs records).toOption).bind fun found =>
          (planLinks position before rest).toOption.bind fun entries =>
          (entries.mapM (named store size)).bind fun children =>
            (attachLinks position children rest found).toOption := bind_in_turn ..
      _ = ((key, l) :: rest).foldlM (fun records link => records.mapM fun r =>
          (attachAnswer store.connector position r link).toOption) records := by
        rw [first, List.foldlM_cons]
        exact Option.bind_congr others

/-! ### A task -/

/-- Every record of an output has the columns that join the associations of its target. -/
def Joinable (target : Target) (output : Output) : Prop :=
  ∀ f, target.record? = some f → ∀ link ∈ f.links, ∀ r ∈ output.records,
    (r.record.get? link.2.association.localColumn).isSome

variable {together : List Target → Prop}

/-- The associations of a task, read for all its records, complete the records one by one. -/
theorem assemble_eq {task : Task} {output : Output} (formed : task.target.Formed together)
    (joinable : Joinable task.target output) :
    ((planChildren task output).toOption.bind fun entries =>
      (entries.mapM (named store size)).bind fun children =>
        (assemble task.position task.target children output).toOption) =
      (completeOutput store.connector task.position task.target output).toOption := by
  rw [completeOutput_toOption]
  cases asked : task.target.record? with
  | none =>
    have each : (output.records.mapM fun r =>
        (complete store.connector task.position task.target r).toOption) =
        some output.records := by
      simp only [complete_of_none _ asked, toOption_ok]
      rw [mapM_some (fun r => r), List.map_id']
    rw [each, planChildren, asked]
    simp [assemble, asked]
  | some f =>
    have links := attachLinks_eq store size task.position (formed.keys_nodup asked)
      (rfl : output.records.map bare = output.records.map bare) (joinable f asked)
    rw [foldlM_mapM] at links
    have each : (output.records.mapM fun r =>
        (complete store.connector task.position task.target r).toOption) =
        output.records.mapM fun r => f.links.foldlM (fun r link =>
          (attachAnswer store.connector task.position r link).toOption) r := by
      refine mapM_congr fun r _ => ?_
      rw [complete_of_some r asked, toOption_foldlM]
    have step (children : List (String × Output)) :
        (assemble task.position task.target children output).toOption =
          (attachLinks task.position children f.links output.records).toOption.map
            fun records => { output with records } := by
      rw [assemble, asked]
      exact toOption_map _ _
    rw [each, ← links, planChildren, asked, Option.map_bind]
    refine congrArg (Option.bind _) (funext fun entries => ?_)
    rw [Function.comp_apply, Option.map_bind]
    exact congrArg (Option.bind _) (funext step)

/-! ### A level of tasks -/

/-- What a task below a level yields, with the task. -/
def paired (child : ChildTask) : Option (ChildTask × Output) :=
  (finished store size child.task).map fun output => (child, output)

theorem childrenOf_append (place : Nat) (left right : List (ChildTask × Output)) :
    childrenOf place (left ++ right) = childrenOf place left ++ childrenOf place right :=
  List.filterMap_append ..

theorem childrenOf_other {place : Nat} (children : List (ChildTask × Output))
    (other : ∀ child ∈ children, child.1.parent ≠ place) : childrenOf place children = [] := by
  refine List.filterMap_eq_nil_iff.mpr fun child present => ?_
  exact if_neg (other child present)

/-- Only the children of the tasks of a level count. -/
theorem assembleLevel_congr {children children' : List (ChildTask × Output)} {place : Nat}
    (entries : List (Task × Output))
    (same : ∀ q, place ≤ q → childrenOf q children = childrenOf q children') :
    assembleLevel children place entries = assembleLevel children' place entries := by
  induction entries generalizing place with
  | nil => rfl
  | cons entry rest ih =>
    obtain ⟨task, output⟩ := entry
    rw [assembleLevel, assembleLevel, same place (Nat.le_refl _),
      ih fun q above => same q (Nat.le_of_succ_le above)]

/-- The tasks for the children of one task of a level. -/
def childTasks (place : Nat) (entries : List (String × Task)) : List ChildTask :=
  entries.map fun entry => ⟨place, entry.1, entry.2⟩

theorem planLevel_cons (place : Nat) (task : Task) (output : Output)
    (rest : List (Task × Output)) :
    (planLevel place ((task, output) :: rest)).toOption =
      (planChildren task output).toOption.bind fun entries =>
        (planLevel (place + 1) rest).toOption.map fun more =>
          childTasks place entries ++ more := by
  rw [planLevel, toOption_bind]
  refine congrArg (Option.bind _) (funext fun entries => ?_)
  rw [toOption_bind]
  exact bind_some_map _ _

theorem mem_of_mem_paired {children : List ChildTask} {pairs : List (ChildTask × Output)}
    (done : children.mapM (paired store size) = some pairs) {pair : ChildTask × Output}
    (present : pair ∈ pairs) : pair.1 ∈ children := by
  obtain ⟨child, known, yielded⟩ := exists_of_mem_mapM done present
  obtain ⟨out, -, rfl⟩ := Option.map_eq_some_iff.mp yielded
  exact known

theorem parent_of_mem_paired {place : Nat} {entries : List (String × Task)}
    {pairs : List (ChildTask × Output)}
    (done : (childTasks place entries).mapM (paired store size) = some pairs) :
    ∀ pair ∈ pairs, pair.1.parent = place := by
  intro pair present
  obtain ⟨entry, -, same⟩ := List.mem_map.mp (mem_of_mem_paired store size done present)
  rw [← same]

/-- The outputs of the children of one task are found again by the place of the task. -/
theorem mapM_paired_childrenOf (place : Nat) (entries : List (String × Task)) :
    ((childTasks place entries).mapM (paired store size)).map (childrenOf place) =
      entries.mapM (named store size) := by
  have own {pairs : List (ChildTask × Output)}
      (done : (childTasks place entries).mapM (paired store size) = some pairs) :
      childrenOf place pairs = pairs.map fun pair => (pair.1.key, pair.2) := by
    rw [← List.filterMap_eq_map]
    refine List.filterMap_congr fun pair present => ?_
    exact if_pos (parent_of_mem_paired store size done pair present)
  calc ((childTasks place entries).mapM (paired store size)).map (childrenOf place)
    _ = ((childTasks place entries).mapM (paired store size)).map
        (List.map fun pair => (pair.1.key, pair.2)) := Option.map_congr fun _ done => own done
    _ = entries.mapM (named store size) := by
        rw [mapM_map_result, childTasks, mapM_map]
        refine mapM_congr fun entry _ => ?_
        rw [paired, Option.map_map]
        rfl

/-- The children of the first task are attached by it, and the others by the other tasks. -/
theorem assembleLevel_append {place : Nat} {task : Task} {output : Output}
    {rest : List (Task × Output)} {pairs found : List (ChildTask × Output)}
    (places : ∀ pair ∈ pairs, pair.1.parent = place)
    (above : ∀ pair ∈ found, place + 1 ≤ pair.1.parent) :
    assembleLevel (pairs ++ found) place ((task, output) :: rest) = (do
      let later ← assembleLevel found (place + 1) rest
      let first ← assemble task.position task.target (childrenOf place pairs) output
      return first :: later) := by
  have mine : childrenOf place (pairs ++ found) = childrenOf place pairs := by
    rw [childrenOf_append, childrenOf_other found, List.append_nil]
    exact fun pair present => Nat.ne_of_gt (above pair present)
  have theirs : assembleLevel (pairs ++ found) (place + 1) rest =
      assembleLevel found (place + 1) rest := by
    refine assembleLevel_congr rest fun q later => ?_
    rw [childrenOf_append, childrenOf_other pairs, List.nil_append]
    exact fun pair present => Nat.ne_of_lt (by rw [places pair present]; exact later)
  rw [assembleLevel, theirs, mine]

theorem assembleLevel_cons {place : Nat} {task : Task} {output : Output}
    {rest : List (Task × Output)} {pairs found : List (ChildTask × Output)}
    (places : ∀ pair ∈ pairs, pair.1.parent = place)
    (above : ∀ pair ∈ found, place + 1 ≤ pair.1.parent) :
    (assembleLevel (pairs ++ found) place ((task, output) :: rest)).toOption =
      (assemble task.position task.target (childrenOf place pairs) output).toOption.bind
        fun first => (assembleLevel found (place + 1) rest).toOption.map (first :: ·) := by
  have last : (fun later => (assemble task.position task.target (childrenOf place pairs) output >>=
      fun first => pure (first :: later)).toOption) = fun later =>
      (assemble task.position task.target (childrenOf place pairs) output).toOption.bind
        fun first => some (first :: later) := by
    funext later
    exact toOption_bind _ _
  rw [assembleLevel_append places above, toOption_bind, last, Option.bind_comm]
  exact congrArg (Option.bind _) (funext fun first => bind_some_map _ _)

/-- Tasks that are planned, read and assembled together are each completed on their own. -/
theorem assembleLevel_eq (place : Nat) {entries : List (Task × Output)}
    (each : ∀ entry ∈ entries, entry.1.target.Formed together ∧ Joinable entry.1.target entry.2) :
    ((planLevel place entries).toOption.bind fun children =>
      (children.mapM (paired store size)).bind fun pairs =>
        (assembleLevel pairs place entries).toOption) =
      entries.mapM fun entry =>
        (completeOutput store.connector entry.1.position entry.1.target entry.2).toOption := by
  induction entries generalizing place with
  | nil => rfl
  | cons entry rest ih =>
    obtain ⟨task, output⟩ := entry
    obtain ⟨formed, joinable⟩ := each (task, output) List.mem_cons_self
    have first := assemble_eq store size formed joinable
    have later := ih (place + 1)
      fun entry present => each entry (List.mem_cons_of_mem _ present)
    calc ((planLevel place ((task, output) :: rest)).toOption.bind fun children =>
          (children.mapM (paired store size)).bind fun pairs =>
            (assembleLevel pairs place ((task, output) :: rest)).toOption)
      _ = (planChildren task output).toOption.bind fun entries =>
          (planLevel (place + 1) rest).toOption.bind fun more =>
          ((childTasks place entries).mapM (paired store size)).bind fun pairs =>
          (more.mapM (paired store size)).bind fun found =>
          (assemble task.position task.target (childrenOf place pairs) output).toOption.bind
            fun first => (assembleLevel found (place + 1) rest).toOption.map (first :: ·) := by
        rw [planLevel_cons, Option.bind_assoc]
        refine congrArg (Option.bind _) (funext fun entries => ?_)
        rw [Option.bind_map]
        refine Option.bind_congr fun more planned => ?_
        rw [Function.comp_apply, List.mapM_append]
        show Option.bind (Option.bind _ _) _ = _
        rw [Option.bind_assoc]
        refine Option.bind_congr fun pairs read => ?_
        show Option.bind (Option.bind _ _) _ = _
        rw [Option.bind_assoc]
        refine Option.bind_congr fun found below => ?_
        exact assembleLevel_cons (parent_of_mem_paired store size read) fun pair present =>
          (exists_of_mem_planLevel (toOption_eq_some.mp planned)
            (mem_of_mem_paired store size below present)).1
      _ = ((planChildren task output).toOption.bind fun entries =>
          ((childTasks place entries).mapM (paired store size)).bind fun pairs =>
            (assemble task.position task.target (childrenOf place pairs) output).toOption).bind
          fun first => (planLevel (place + 1) rest).toOption.bind fun more =>
          (more.mapM (paired store size)).bind fun found =>
            (assembleLevel found (place + 1) rest).toOption.map (first :: ·) := bind_in_turn ..
      _ = (completeOutput store.connector task.position task.target output).toOption.bind
          fun first => (rest.mapM fun entry => (completeOutput store.connector
            entry.1.position entry.1.target entry.2).toOption).map (first :: ·) := by
        rw [← first, ← later]
        simp only [← mapM_paired_childrenOf store size place, Option.bind_map, Option.map_bind,
          Function.comp_def]
      _ = _ := by
        rw [List.mapM_cons]
        exact congrArg (Option.bind _) (funext fun first => (bind_some_map _ _).symm)

/-! ### All levels -/

/-- The plan of a task is one for its target, and joined to some parents if it is joined. -/
structure Planned (task : Task) : Prop where
  compiled : ∃ filter join take, task.plan = .compile task.target filter join take
  keyed : ∀ join, task.plan.join = some join → join.keys ≠ []

theorem Planned.covered {task : Task} (planned : Planned task) : task.plan.Covered := by
  obtain ⟨filter, join, take, same⟩ := planned.compiled
  rw [same]
  exact Plan.compile_covered ..

/-- What a task asks for includes the columns that join its associations. -/
theorem Planned.mem_columns {task : Task} (planned : Planned task) {f : BoundField}
    (asked : task.target.record? = some f) {link : String × BoundLink} (linked : link ∈ f.links) :
    link.2.association.localColumn ∈ task.plan.columns := by
  obtain ⟨filter, join, take, same⟩ := planned.compiled
  rw [same, Plan.compile, Plan.requiredColumns, List.mem_eraseDups, asked]
  refine List.mem_append_left _ (List.mem_append_left _ (List.mem_append_right _ ?_))
  exact List.mem_map_of_mem (f := fun link => link.2.association.localColumn) linked

theorem Planned.joinable {task : Task} (planned : Planned task) {output : Output}
    (done : (task.plan.execute store.connector size).toOption = some output) :
    Joinable task.target output := by
  intro f asked link linked r present
  obtain ⟨_, row, -, -, rfl⟩ := Plan.mem_execute store planned.covered planned.keyed
    (toOption_eq_some.mp done) r present
  rw [Plan.get?_recordFor (planned.mem_columns asked linked)]
  rfl

theorem planLink_planned {position : Path} {key : String} {l : BoundLink}
    {records : List Fetched} {tasks : List Task}
    (done : planLink position key l records = .ok tasks) :
    ∀ task ∈ tasks, Planned task ∧ task.target ∈ l.targets ∧ task.position = position.add key := by
  unfold planLink at done
  simp only [Fallible.bind_eq_ok] at done
  obtain ⟨keys, _, done⟩ := done
  split at done
  · cases Fallible.pure_eq_ok.mp done
    intro task present
    cases present
  · rename_i keyed
    obtain ⟨_, _, done⟩ := Fallible.bind_eq_ok.mp done
    cases Fallible.pure_eq_ok.mp done
    intro task present
    obtain ⟨target, reached, rfl⟩ := List.mem_map.mp present
    refine ⟨⟨⟨_, _, _, rfl⟩, fun join same => ?_⟩, reached, rfl⟩
    cases same
    exact fun none => keyed (List.isEmpty_iff.mpr none)

/-- The tasks below a level are planned, each for an association of a task of the level. -/
theorem exists_of_planLevel {place : Nat} {entries : List (Task × Output)}
    {children : List ChildTask} (done : planLevel place entries = .ok children) :
    ∀ child ∈ children, Planned child.task ∧ ∃ entry ∈ entries, ∃ f key l,
      entry.1.target.record? = some f ∧ (key, l) ∈ f.links ∧ child.task.target ∈ l.targets ∧
        child.task.position = entry.1.position.add key := by
  intro child present
  obtain ⟨-, entry, known, f, l, tasks, asked, linked, made, among⟩ :=
    exists_of_mem_planLevel done present
  obtain ⟨planned, reached⟩ := planLink_planned made child.task among
  exact ⟨planned, entry, known, f, child.key, l, asked, linked, reached⟩

theorem planLevel_planned {place : Nat} {entries : List (Task × Output)}
    {children : List ChildTask} (done : planLevel place entries = .ok children)
    (each : ∀ entry ∈ entries, entry.1.target.Formed together) :
    ∀ child ∈ children, Planned child.task ∧ child.task.target.Formed together := by
  intro child present
  obtain ⟨ready, entry, known, f, key, l, asked, linked, reached, -⟩ :=
    exists_of_planLevel done child present
  exact ⟨ready, (each entry known).child asked linked reached⟩

theorem mapM_finished (tasks : List Task) :
    ((tasks.mapM fun task : Task =>
      (task.plan.execute store.connector size).toOption).bind fun outputs =>
      (tasks.zip outputs).mapM fun entry =>
        (completeOutput store.connector entry.1.position entry.1.target entry.2).toOption) =
      tasks.mapM (finished store size) :=
  mapM_bind_zip _ (fun task output =>
    (completeOutput store.connector task.position task.target output).toOption) tasks

theorem formed_of_mem_zip {tasks : List Task} {outputs : List Output}
    (each : ∀ task ∈ tasks, Planned task ∧ task.target.Formed together)
    (done : (tasks.mapM fun task : Task => (task.plan.execute store.connector size).toOption) =
      some outputs) :
    ∀ entry ∈ tasks.zip outputs,
      entry.1.target.Formed together ∧ Joinable entry.1.target entry.2 := by
  intro entry present
  obtain ⟨planned, formed⟩ := each entry.1 (List.of_mem_zip present).1
  exact ⟨formed, planned.joinable store size (eq_some_of_mem_zip done present)⟩

/-- A level yields what each of its tasks yields on its own, with every record completed by its
own reads. -/
theorem resolveLevel_toOption {completion : Completion} (every : completion.Complete)
    (depth : Nat) {tasks : List Task}
    (each : ∀ task ∈ tasks, Planned task ∧ task.target.Formed together) :
    (resolveLevel store.connector size completion depth tasks).outcome.toOption =
      tasks.mapM (finished store size) := by
  fun_induction resolveLevel store.connector size completion depth tasks with
  | case1 depth => rfl
  | case2 depth tasks some_task e failed =>
    have read := executeLevel_toOption store.connector size (every depth tasks.length)
    rw [failed] at read
    rw [← mapM_finished, ← read]
    rfl
  | case3 depth tasks some_task outputs done e failed =>
    have read := executeLevel_toOption store.connector size (every depth tasks.length)
    rw [done] at read
    have level := assembleLevel_eq store size 0
      (formed_of_mem_zip store size each read.symm)
    rw [failed] at level
    rw [← mapM_finished, ← read, toOption_ok, Option.bind_some, ← level]
    rfl
  | case4 depth tasks some_task outputs done children planned below ih =>
    have read := executeLevel_toOption store.connector size (every depth tasks.length)
    rw [done] at read
    have ready := formed_of_mem_zip store size each read.symm
    have level := assembleLevel_eq store size 0 ready
    have found := ih fun task present => by
      obtain ⟨child, known, rfl⟩ := List.mem_map.mp present
      exact planLevel_planned planned (fun entry present => (ready entry present).1) child known
    have own : paired store size = fun child => (finished store size child.task).map (child, ·) :=
      rfl
    rw [planned, toOption_ok, Option.bind_some, own, ← mapM_zip,
      ← mapM_map (finished store size) ChildTask.task, ← found, Option.bind_map] at level
    rw [← mapM_finished, ← read, toOption_ok, Option.bind_some, ← level]
    exact toOption_bind _ _

end Task

end GraphRead.PerParent
