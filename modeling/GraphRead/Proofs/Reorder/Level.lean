import GraphRead.Proofs.Reorder.Answer
import GraphRead.Proofs.Resolve.Budget
/-!
The levels of a resolution whose positions have their types in another order.

If nothing fails, every level is followed by the children of its tasks (`Unfolds`). A target in
another order has the same children in another order, so each level has the same tasks in another
order, and the levels are equally long (`Unfolds.length_eq`). As a level comes in as many waves as
its length says, the resolutions take equally long, and one is interrupted if the other is
(`outcome_observe_congr`).
-/

namespace GraphRead

open Success

/-! ### Tasks in another order -/

/-- The same read, with the targets below it in another order. -/
structure Task.Reordered (task task' : Task) : Prop where
  position : task'.position = task.position
  plan : task'.plan = task.plan
  target : task.target.Reordered task'.target

/-- The same tasks in another order, each of them reordered. -/
def Task.Shuffled (tasks others : List Task) : Prop :=
  ∃ middle, tasks.Perm middle ∧ List.Forall₂ Task.Reordered middle others

namespace Task.Shuffled

variable {tasks others more rest : List Task}

theorem nil : Shuffled [] [] := ⟨[], .refl _, .nil⟩

theorem length_eq (shuffled : Shuffled tasks others) : others.length = tasks.length := by
  obtain ⟨middle, perm, each⟩ := shuffled
  rw [perm.length_eq, each.length_eq]

theorem append (first : Shuffled tasks others) (second : Shuffled more rest) :
    Shuffled (tasks ++ more) (others ++ rest) := by
  obtain ⟨middle, perm, each⟩ := first
  obtain ⟨middle', perm', each'⟩ := second
  exact ⟨middle ++ middle', perm.append perm', List.rel_append each each'⟩

/-- What comes of related items is put together item by item. -/
theorem flatMap {α β : Type} {related : α → β → Prop} {items : List α} {others : List β}
    (both : List.Forall₂ related items others) {f : α → List Task} {g : β → List Task}
    (each : ∀ a b, related a b → Shuffled (f a) (g b)) :
    Shuffled (items.flatMap f) (others.flatMap g) := by
  induction both with
  | nil => exact .nil
  | cons first _ ih =>
    rw [List.flatMap_cons, List.flatMap_cons]
    exact (each _ _ first).append ih

/-- The tasks of the targets of a position are in the order of the targets. -/
theorem map {many : Prop} {targets targets' : List Target}
    (shuffled : Target.Shuffled many targets targets') {f g : Target → Task}
    (each : ∀ target other, target.Reordered other → (f target).Reordered (g other)) :
    Shuffled (targets.map f) (targets'.map g) := by
  obtain ⟨middle, perm, matched⟩ := shuffled.matched
  exact ⟨middle.map f, perm.map f, List.rel_map (fun {_ _} own => each _ _ own) matched⟩

end Task.Shuffled

/-! ### Children in another order -/

theorem BoundLink.Reordered.tasks {l l' : BoundLink} (r : l.Reordered l') (position : Path)
    (records : List Fetched) :
    Task.Shuffled (l.tasks position records) (l'.tasks position records) := by
  have keys : l'.keys records = l.keys records := by
    rw [BoundLink.keys, BoundLink.keys, r.association]
  rw [BoundLink.tasks, BoundLink.tasks, keys]
  split
  · exact .nil
  · refine .map r.targets fun target other own => ⟨rfl, ?_, own⟩
    rw [PerParent.joinedTask, PerParent.joinedTask, r.filter, r.association]
    exact own.compile _ _ _

theorem Task.Reordered.children {task task' : Task} (r : task.Reordered task')
    (output : Output) : Task.Shuffled (task.children output) (task'.children output) := by
  unfold Task.children
  rw [r.position]
  rcases r.target.cases_record with ⟨none, same⟩ | ⟨f, f', asked, asked', record⟩
  · rw [same, none]
    exact .nil
  · rw [asked, asked']
    have links := record.links
    simp only [Option.map_some, Option.getD_some]
    generalize f.links = left, f'.links = right at links
    induction links with
    | nil => exact .nil
    | cons first _ ih =>
      rw [List.flatMap_cons, List.flatMap_cons]
      exact (first.tasks _ _).append ih

/-! ### Levels without a failure -/

section Levels

variable (connector : Connector) (size : Option Nat)

/-- The levels from some tasks on, if all tasks succeed. -/
inductive Unfolds : List Task → List (List Task) → Prop
  | ended : Unfolds [] []
  | further {level : List Task} {outputs : List Output} {levels : List (List Task)}
    (some_task : level ≠ []) (done : Executed connector size level outputs)
    (rest : Unfolds ((level.zip outputs).flatMap fun entry => entry.1.children entry.2) levels) :
    Unfolds level (level :: levels)

variable {connector size}

/-- The levels of a resolution that finds something unfold from its first tasks. -/
theorem resolveLevel_unfolds {completion : Completion} (complete : completion.Complete)
    (depth : Nat) (tasks : List Task) : ∀ found,
    (resolveLevel connector size completion depth tasks).outcome = .ok found →
      Unfolds connector size tasks
        (resolveLevel connector size completion depth tasks).levels := by
  fun_induction resolveLevel connector size completion depth tasks with
  | case1 depth => exact fun _ _ => .ended
  | case2 depth tasks some_task e failed =>
    intro _ resolved
    cases resolved
  | case3 depth tasks some_task outputs done e failed =>
    intro _ resolved
    cases resolved
  | case4 depth tasks some_task outputs done children planned below ih =>
    intro found resolved
    obtain ⟨later, outcome, -⟩ := Fallible.bind_eq_ok.mp resolved
    rcases executeLevel_cases connector size
      (complete depth tasks.length) with ⟨_, same, executed⟩ | ⟨⟨e', other⟩, _⟩
    · rw [done] at same
      cases same
      refine .further some_task executed ?_
      rw [← (planLevel_eq_ok planned).2]
      exact ih later outcome
    · rw [done] at other
      cases other

/-- The levels of root fields that answer unfold from the tasks of the root fields. -/
theorem resolveReads_unfolds {completion : Completion} (complete : completion.Complete)
    {reads : List RootRead} {response : Response}
    (resolved : (resolveReads connector size completion reads).outcome = .ok response) :
    Unfolds connector size (rootTasks reads)
      (resolveReads connector size completion reads).levels := by
  unfold resolveReads at resolved ⊢
  cases planned : reads.mapM RootRead.tasks with
  | error e =>
    rw [planned] at resolved
    cases resolved
  | ok tasks =>
    rw [planned] at resolved
    obtain ⟨outputs, found, -⟩ := Fallible.bind_eq_ok.mp resolved
    rw [← mapM_tasks planned]
    exact resolveLevel_unfolds complete 0 tasks.flatten outputs found

/-- What a task yields. -/
def Task.output (connector : Connector) (size : Option Nat) (task : Task) : Output :=
  (task.plan.execute connector size).toOption.getD .empty

/-- The children of an executed level, task by task. -/
theorem Executed.children_eq {level : List Task} {outputs : List Output}
    (done : Executed connector size level outputs) :
    ((level.zip outputs).flatMap fun entry => entry.1.children entry.2) =
      level.flatMap fun task => task.children (task.output connector size) := by
  have yielded := toOption_mapM (fun task : Task => task.plan.execute connector size) level
  rw [done, toOption_ok] at yielded
  rw [mapM_eq_map yielded.symm .empty]
  clear yielded done
  induction level with
  | nil => rfl
  | cons task rest ih =>
    rw [List.map_cons, List.zip_cons_cons, List.flatMap_cons, List.flatMap_cons, ih]
    rfl

namespace Unfolds

variable {tasks others : List Task} {levels levels' : List (List Task)}

theorem succeeds (unfolds : Unfolds connector size tasks levels) :
    ∀ level ∈ levels, ∀ task ∈ level, task.succeeds connector size := by
  induction unfolds with
  | ended => exact List.forall_mem_nil _
  | further some_task done rest ih =>
    exact List.forall_mem_cons.mpr ⟨fun task => done.succeeds, ih⟩

/-- **The levels below the same tasks in another order are equally long.** -/
theorem length_eq (unfolds : Unfolds connector size tasks levels)
    (unfolds' : Unfolds connector size others levels') (shuffled : Task.Shuffled tasks others) :
    levels'.map List.length = levels.map List.length := by
  induction unfolds generalizing others levels' with
  | ended =>
    cases unfolds' with
    | ended => rfl
    | further some_task =>
      exact absurd (List.eq_nil_of_length_eq_zero shuffled.length_eq) some_task
  | @further level outputs levels some_task done rest ih =>
    cases unfolds' with
    | ended =>
      exact absurd (List.eq_nil_of_length_eq_zero shuffled.length_eq.symm) some_task
    | @further _ outputs' levels' _ done' rest' =>
      rw [List.map_cons, List.map_cons, shuffled.length_eq]
      refine congrArg (_ :: ·) (ih rest' ?_)
      rw [done.children_eq, done'.children_eq]
      obtain ⟨middle, perm, each⟩ := shuffled
      have children (task task' : Task) (own : task.Reordered task') :
          Task.Shuffled (task.children (task.output connector size))
            (task'.children (task'.output connector size)) := by
        have yields : task'.output connector size = task.output connector size := by
          rw [Task.output, Task.output, own.plan]
        rw [yields]
        exact own.children _
      obtain ⟨middle', perm', each'⟩ := Task.Shuffled.flatMap each children
      exact ⟨middle', (perm.flatMap_right _).trans perm', each'⟩

end Unfolds

end Levels

/-! ### Root fields -/

theorem RootRead.Reordered.task {read read' : RootRead} (r : read.Reordered read')
    {target other : Target} (own : target.Reordered other) :
    (read.task target).Reordered (read'.task other) where
  position := by
    show read'.position = read.position
    rw [RootRead.position, RootRead.position, r.key]
  plan := by simp only [RootRead.task, r.kind, r.filter, own.type, own.compile]
  target := own

theorem rootTasks_reordered {reads reads' : List RootRead}
    (both : List.Forall₂ RootRead.Reordered reads reads') :
    Task.Shuffled (rootTasks reads) (rootTasks reads') :=
  .flatMap both fun _ _ own => .map own.targets fun _ _ => own.task

/-! ### Interruptions -/

theorem length_waves (limit : Nat) (levels : List (List Task)) :
    (waves limit levels).length =
      ((levels.map List.length).map fun n => (n + (max 1 limit - 1)) / max 1 limit).sum := by
  rw [waves, List.length_flatMap, List.map_map]
  exact congrArg List.sum (List.map_congr_left fun level _ => length_chunks limit level)

/-- Resolutions that find the same, without a failure and in levels of the same lengths, are
observed to find the same: none is interrupted unless all are. -/
theorem outcome_observe_congr {connector : Connector} (config : Config) (timing : Timing)
    {resolution resolution' : Resolution Response}
    (found : resolution'.outcome = resolution.outcome)
    (lengths : resolution'.levels.map List.length = resolution.levels.map List.length)
    (succeed : ∀ level ∈ resolution.levels, ∀ task ∈ level,
      task.succeeds connector config.maxBindValues)
    (succeed' : ∀ level ∈ resolution'.levels, ∀ task ∈ level,
      task.succeeds connector config.maxBindValues) :
    (observe connector config timing resolution').outcome =
      (observe connector config timing resolution).outcome := by
  have whole {levels : List (List Task)} (succeed : ∀ level ∈ levels, ∀ task ∈ level,
      task.succeeds connector config.maxBindValues) (limit : Nat) :
      wavesUntilFailure connector config.maxBindValues (waves limit levels) =
        waves limit levels := by
    refine wavesUntilFailure_eq _ _ fun wave cut task known => ?_
    obtain ⟨level, listed, there⟩ := List.mem_flatMap.mp cut
    refine succeed level listed task ?_
    rw [← flatten_chunks limit level]
    exact List.mem_flatten_of_mem there known
  unfold observe
  split
  · rfl
  · dsimp only
    rw [whole succeed, whole succeed', length_waves, length_waves, lengths, found]
    split <;> rfl

end GraphRead
