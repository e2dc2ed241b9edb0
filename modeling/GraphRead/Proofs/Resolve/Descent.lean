import GraphRead.Proofs.PerParent.Level
import GraphRead.Proofs.Resolve.Batches
import GraphRead.Resolve.Roots
/-!
How the levels of a resolution follow one another.

Below a task that has been executed there is one task for each target of an association that has a
key (`Task.children`), and nothing else. A level is followed by the children of all its tasks, or it
is the last one, because a task failed or because the children could not be planned (`Descends`).

* `resolveReads_descends` — so the levels of a resolution descend from its root fields.
-/

namespace GraphRead

open Success PerParent

/-! ### Planning -/

/-- The keys of the children of some records by an association. -/
def BoundLink.keys (l : BoundLink) (records : List Fetched) : List Value :=
  keysOf (records.map (joinValue l.association.localColumn))

/-- The tasks for the children of some records by an association: one for each target, unless there
is no key. -/
def BoundLink.tasks (l : BoundLink) (position : Path) (records : List Fetched) : List Task :=
  if l.keys records = [] then [] else l.targets.map (joinedTask position l (l.keys records))

/-- The children of some records by an association can be planned: the records have the column of
the association, and if there is a key, the targets agree on their order. -/
structure BoundLink.Plannable (l : BoundLink) (position : Path) (records : List Fetched) :
    Prop where
  known : ∀ r ∈ records, (r.record.get? l.association.localColumn).isSome
  agreed : l.keys records ≠ [] → checkOrders position l.targets = .ok ()

theorem joinKeys_eq_ok {records : List Fetched} {column : String} {keys : List Value} :
    joinKeys records column = .ok keys ↔
      (∀ r ∈ records, (r.record.get? column).isSome) ∧
        keysOf (records.map (joinValue column)) = keys := by
  constructor
  · intro done
    have known : ∀ r ∈ records, (r.record.get? column).isSome := by
      obtain ⟨values, fetched, -⟩ := Fallible.bind_eq_ok.mp done
      intro r present
      obtain ⟨v, here⟩ := forall_of_mapM_ok fetched r present
      unfold Attribute.fetch at here
      cases found : r.record.get? column with
      | some v => rfl
      | none =>
        rw [found] at here
        cases here
    refine ⟨known, ?_⟩
    have same := joinKeys_toOption known
    rw [done] at same
    exact (Option.some.inj same).symm
  · rintro ⟨known, rfl⟩
    exact toOption_eq_some.mp (joinKeys_toOption known)

theorem planLink_eq_ok {position : Path} {key : String} {l : BoundLink} {records : List Fetched}
    {tasks : List Task} : planLink position key l records = .ok tasks ↔
      l.Plannable (position.add key) records ∧ l.tasks (position.add key) records = tasks := by
  unfold planLink
  simp only [Fallible.bind_eq_ok, Fallible.mapError_eq_ok, joinKeys_eq_ok]
  constructor
  · rintro ⟨keys, ⟨known, rfl⟩, done⟩
    split at done
    · rename_i none
      have none : l.keys records = [] := List.isEmpty_iff.mp none
      refine ⟨⟨known, fun keyed => absurd none keyed⟩, ?_⟩
      rw [BoundLink.tasks, if_pos none]
      exact Fallible.pure_eq_ok.mp done
    · rename_i keyed
      have keyed : l.keys records ≠ [] := fun none => keyed (List.isEmpty_iff.mpr none)
      obtain ⟨_, agreed, done⟩ := Fallible.bind_eq_ok.mp done
      refine ⟨⟨known, fun _ => agreed⟩, ?_⟩
      rw [BoundLink.tasks, if_neg keyed]
      exact Fallible.pure_eq_ok.mp done
  · rintro ⟨⟨known, agreed⟩, rfl⟩
    refine ⟨l.keys records, ⟨known, rfl⟩, ?_⟩
    rw [BoundLink.tasks]
    split
    · rename_i none
      rw [if_pos (List.isEmpty_iff.mp none)]
      rfl
    · rename_i keyed
      have keyed : l.keys records ≠ [] := fun none => keyed (List.isEmpty_iff.mpr none)
      rw [if_neg keyed, agreed keyed]
      rfl

theorem planLinks_eq_ok {position : Path} {records : List Fetched}
    {links : List (String × BoundLink)} {entries : List (String × Task)} :
    planLinks position records links = .ok entries ↔
      (∀ link ∈ links, link.2.Plannable (position.add link.1) records) ∧
        (links.flatMap fun (key, l) =>
          (l.tasks (position.add key) records).map fun task => (key, task)) = entries := by
  induction links generalizing entries with
  | nil =>
    show Except.ok [] = Except.ok entries ↔ _
    simp
  | cons link rest ih =>
    obtain ⟨key, l⟩ := link
    simp only [planLinks, Fallible.bind_eq_ok, Fallible.pure_eq_ok, planLink_eq_ok, ih,
      List.forall_mem_cons, List.flatMap_cons]
    constructor
    · rintro ⟨_, ⟨first, rfl⟩, _, ⟨later, rfl⟩, rfl⟩
      exact ⟨⟨first, later⟩, rfl⟩
    · rintro ⟨⟨first, later⟩, rfl⟩
      exact ⟨_, ⟨first, rfl⟩, _, ⟨later, rfl⟩, rfl⟩

namespace Task

/-- The tasks for the children of an executed task. -/
def children (task : Task) (output : Output) : List Task :=
  (task.target.record?.map fun f => f.links.flatMap fun (key, l) =>
    l.tasks (task.position.add key) output.records).getD []

/-- The children of an executed task can be planned. -/
def Plannable (task : Task) (output : Output) : Prop :=
  ∀ f, task.target.record? = some f → ∀ link ∈ f.links,
    link.2.Plannable (task.position.add link.1) output.records

end Task

theorem planChildren_eq_ok {task : Task} {output : Output} {entries : List (String × Task)}
    (done : planChildren task output = .ok entries) :
    task.Plannable output ∧ entries.map Prod.snd = task.children output := by
  unfold planChildren at done
  unfold Task.Plannable Task.children
  cases asked : task.target.record? with
  | none =>
    rw [asked] at done
    cases done
    exact ⟨fun _ some => (nomatch some), rfl⟩
  | some f =>
    rw [asked] at done
    obtain ⟨ready, rfl⟩ := planLinks_eq_ok.mp done
    refine ⟨fun _ same => Option.some.inj same ▸ ready, ?_⟩
    rw [List.map_flatMap]
    refine List.flatMap_congr fun link _ => ?_
    rw [List.map_map]
    exact List.map_id' _

theorem exists_planChildren {task : Task} {output : Output} (ready : task.Plannable output) :
    ∃ entries, planChildren task output = .ok entries := by
  unfold planChildren
  cases asked : task.target.record? with
  | none => exact ⟨[], rfl⟩
  | some f => exact ⟨_, planLinks_eq_ok.mpr ⟨ready f asked, rfl⟩⟩

/-- The children of a level that can be planned are those of its tasks. -/
theorem planLevel_eq_ok {place : Nat} {entries : List (Task × Output)} {found : List ChildTask}
    (done : planLevel place entries = .ok found) :
    (∀ entry ∈ entries, entry.1.Plannable entry.2) ∧
      found.map ChildTask.task = entries.flatMap fun entry => entry.1.children entry.2 := by
  induction entries generalizing place found with
  | nil =>
    cases done
    exact ⟨fun _ present => (nomatch present), rfl⟩
  | cons entry rest ih =>
    obtain ⟨task, output⟩ := entry
    simp only [planLevel, Fallible.bind_eq_ok, Fallible.pure_eq_ok] at done
    obtain ⟨own, first, more, later, rfl⟩ := done
    obtain ⟨ready, same⟩ := planChildren_eq_ok first
    obtain ⟨others, rest_same⟩ := ih later
    refine ⟨List.forall_mem_cons.mpr ⟨ready, others⟩, ?_⟩
    rw [List.map_append, rest_same, List.flatMap_cons, ← same, List.map_map]
    rfl

theorem exists_planLevel (place : Nat) {entries : List (Task × Output)}
    (ready : ∀ entry ∈ entries, entry.1.Plannable entry.2) :
    ∃ found, planLevel place entries = .ok found := by
  induction entries generalizing place with
  | nil => exact ⟨[], rfl⟩
  | cons entry rest ih =>
    obtain ⟨task, output⟩ := entry
    rw [List.forall_mem_cons] at ready
    obtain ⟨own, first⟩ := exists_planChildren ready.1
    obtain ⟨more, later⟩ := ih (place + 1) ready.2
    refine ⟨own.map (fun entry => ⟨place, entry.1, entry.2⟩) ++ more, ?_⟩
    rw [planLevel, first, later]
    rfl

/-- A child of an executed task reads a target of an association that has a key. -/
theorem Task.exists_link {task child : Task} {output : Output}
    (present : child ∈ task.children output) :
    ∃ f key l target, task.target.record? = some f ∧ (key, l) ∈ f.links ∧ target ∈ l.targets ∧
      l.keys output.records ≠ [] ∧
      child = joinedTask (task.position.add key) l (l.keys output.records) target := by
  unfold children at present
  cases asked : task.target.record? with
  | none =>
    rw [asked] at present
    cases present
  | some f =>
    rw [asked] at present
    obtain ⟨⟨key, l⟩, linked, own⟩ := List.mem_flatMap.mp present
    dsimp only at own
    rw [BoundLink.tasks] at own
    split at own
    · cases own
    · rename_i keyed
      obtain ⟨target, reached, rfl⟩ := List.mem_map.mp own
      exact ⟨f, key, l, target, rfl, linked, reached, keyed, rfl⟩

/-! ### Levels -/

section Levels

variable (connector : Connector) (size : Option Nat)

/-- The tasks of a level have all been executed, with these outputs. -/
def Executed (level : List Task) (outputs : List Output) : Prop :=
  (level.mapM fun task => task.plan.execute connector size) = .ok outputs

/-- The levels that are executed from some tasks on: none if there is no task; only the first one
if a task fails, or if all succeed but the children cannot be planned; and else the first one and
those from its children on. -/
inductive Descends : List Task → List (List Task) → Prop
  | ended : Descends [] []
  | failed {level : List Task} {task : Task} (present : task ∈ level)
    (fails : task.succeeds connector size = false) : Descends level [level]
  | unplanned {level : List Task} {outputs : List Output}
    (done : Executed connector size level outputs)
    (stuck : ∃ entry ∈ level.zip outputs, ¬ entry.1.Plannable entry.2) : Descends level [level]
  | further {level : List Task} {outputs : List Output} {levels : List (List Task)}
    (some_task : level ≠ [])
    (done : Executed connector size level outputs)
    (ready : ∀ entry ∈ level.zip outputs, entry.1.Plannable entry.2)
    (rest : Descends ((level.zip outputs).flatMap fun entry => entry.1.children entry.2) levels) :
    Descends level (level :: levels)

variable {connector size}

/-- A level is executed unless one of its tasks fails. -/
theorem executeLevel_cases (connector : Connector) (size : Option Nat) {order : List Nat}
    {tasks : List Task} (every : order.Perm (List.range tasks.length)) :
    (∃ outputs, executeLevel connector size order tasks = .ok outputs ∧
        Executed connector size tasks outputs) ∨
      (∃ e, executeLevel connector size order tasks = .error e) ∧
        ∃ task ∈ tasks, task.succeeds connector size = false := by
  have gathered := executeLevel_toOption connector size every
  cases done : executeLevel connector size order tasks with
  | ok outputs =>
    rw [done] at gathered
    exact .inl ⟨outputs, rfl, toOption_eq_some.mp ((toOption_mapM _ tasks).trans gathered.symm)⟩
  | error e =>
    rw [done] at gathered
    obtain ⟨task, present, failed⟩ := mapM_eq_none.mp gathered.symm
    refine .inr ⟨⟨e, rfl⟩, task, present, ?_⟩
    rw [Task.succeeds]
    cases answer : task.plan.execute connector size with
    | error e => rfl
    | ok output =>
      rw [answer] at failed
      cases failed

/-- The levels of a resolution descend from its first tasks. -/
theorem resolveLevel_descends {completion : Completion} (complete : completion.Complete)
    (depth : Nat) (tasks : List Task) :
    Descends connector size tasks (resolveLevel connector size completion depth tasks).levels := by
  fun_induction resolveLevel connector size completion depth tasks with
  | case1 depth => exact .ended
  | case2 depth tasks some_task e failed =>
    rcases executeLevel_cases connector size
      (complete depth tasks.length) with ⟨outputs, done, _⟩ | ⟨_, task, present, fails⟩
    · rw [failed] at done
      cases done
    · exact .failed present fails
  | case3 depth tasks some_task outputs done e failed =>
    rcases executeLevel_cases connector size
      (complete depth tasks.length) with ⟨_, same, executed⟩ | ⟨⟨e', other⟩, _⟩
    · rw [done] at same
      cases same
      refine .unplanned executed ?_
      by_contra all
      obtain ⟨found, planned⟩ := exists_planLevel 0 fun entry present =>
        Classical.not_not.mp fun stuck => all ⟨entry, present, stuck⟩
      rw [failed] at planned
      cases planned
    · rw [done] at other
      cases other
  | case4 depth tasks some_task outputs done children planned below ih =>
    rcases executeLevel_cases connector size
      (complete depth tasks.length) with ⟨_, same, executed⟩ | ⟨⟨e', other⟩, _⟩
    · rw [done] at same
      cases same
      obtain ⟨ready, same⟩ := planLevel_eq_ok planned
      refine .further some_task executed ready ?_
      rw [← same]
      exact ih
    · rw [done] at other
      cases other

/-- What holds of the first tasks, and of the children of every task that it holds of, holds of all
tasks. -/
theorem Descends.forall_tasks {p : Task → Prop} {tasks : List Task} {levels : List (List Task)}
    (descends : Descends connector size tasks levels) (first : ∀ task ∈ tasks, p task)
    (step : ∀ {task child : Task} {output : Output},
      p task → child ∈ task.children output → p child) :
    ∀ level ∈ levels, ∀ task ∈ level, p task := by
  induction descends with
  | ended => exact fun _ there => nomatch there
  | failed => exact List.forall_mem_singleton.mpr first
  | unplanned => exact List.forall_mem_singleton.mpr first
  | further some_task done ready rest ih =>
    refine List.forall_mem_cons.mpr ⟨first, ih fun child present => ?_⟩
    obtain ⟨entry, executed, own⟩ := List.mem_flatMap.mp present
    exact step (first entry.1 (List.of_mem_zip executed).1) own

end Levels

/-! ### Root fields -/

namespace RootRead

/-- The targets of a root field can be planned. -/
def Plannable (read : RootRead) : Prop := checkOrders read.position read.targets = .ok ()

theorem tasks_eq_ok {read : RootRead} {tasks : List Task} :
    read.tasks = .ok tasks ↔ read.Plannable ∧ read.targets.map read.task = tasks := by
  unfold RootRead.tasks
  rw [Fallible.bind_eq_ok]
  constructor
  · rintro ⟨_, agreed, done⟩
    exact ⟨agreed, Fallible.pure_eq_ok.mp done⟩
  · rintro ⟨agreed, rfl⟩
    exact ⟨(), agreed, rfl⟩

end RootRead

/-- The first tasks of some root fields. -/
def rootTasks (reads : List RootRead) : List Task :=
  reads.flatMap fun read => read.targets.map read.task

theorem mapM_tasks {reads : List RootRead} {tasks : List (List Task)}
    (planned : reads.mapM RootRead.tasks = .ok tasks) : tasks.flatten = rootTasks reads := by
  have yielded := toOption_mapM RootRead.tasks reads
  rw [planned, toOption_ok] at yielded
  have same := map_eq_of_mapM (g := fun own => own) yielded.symm
    fun read _ own done => (RootRead.tasks_eq_ok.mp (toOption_eq_some.mp done)).2.symm
  rw [List.map_id'] at same
  rw [same, rootTasks, List.flatMap_def]

/-- The levels of a resolution descend from the root fields, if these can be planned. -/
theorem resolveReads_descends (connector : Connector) (size : Option Nat) {completion : Completion}
    (complete : completion.Complete) (reads : List RootRead) :
    (∀ read ∈ reads, read.Plannable) ∧ Descends connector size (rootTasks reads)
        (resolveReads connector size completion reads).levels ∨
      (∃ read ∈ reads, ¬ read.Plannable) ∧
        (resolveReads connector size completion reads).levels = [] := by
  unfold resolveReads
  cases planned : reads.mapM RootRead.tasks with
  | error e =>
    refine .inr ⟨?_, rfl⟩
    by_contra all
    obtain ⟨tasks, done⟩ := exists_mapM_ok fun read asked =>
      ⟨_, RootRead.tasks_eq_ok.mpr
        ⟨Classical.not_not.mp fun stuck => all ⟨read, asked, stuck⟩, rfl⟩⟩
    rw [planned] at done
    cases done
  | ok tasks =>
    refine .inl ⟨fun read asked => ?_, ?_⟩
    · obtain ⟨own, done⟩ := forall_of_mapM_ok planned read asked
      exact (RootRead.tasks_eq_ok.mp done).1
    · rw [← mapM_tasks planned]
      exact resolveLevel_descends complete 0 tasks.flatten

end GraphRead
