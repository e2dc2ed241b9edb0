import GraphRead.Proofs.PerParent.Level
import GraphRead.Resolve.Roots
/-!
Root fields: their reads run together on every level, and each of them answers as it does on its
own (`resolveReads_toOption`).
-/

namespace GraphRead.PerParent

open Success

variable (store : Memory) (size : Option Nat)

theorem execute_alone {plan : Plan} (connector : Connector) (alone : plan.join = none)
    (size : Option Nat) : plan.execute connector size = plan.execute connector none := by
  simp only [Plan.execute, Plan.fetchRows, Plan.fetchCounts, alone]

theorem rootTask_join (read : RootRead) (target : Target) :
    (read.task target).plan.join = none := by
  unfold RootRead.task
  cases read.kind <;> rfl

theorem rootTask_planned (read : RootRead) (target : Target) : Planned (read.task target) where
  compiled := by
    unfold RootRead.task
    cases read.kind with
    | many => exact ⟨_, _, _, rfl⟩
    | single id => exact ⟨_, _, _, rfl⟩
  keyed := by
    intro join same
    rw [rootTask_join] at same
    cases same

/-- What a root field answers, from what its tasks yield. -/
theorem rootAnswer_toOption (read : RootRead) :
    (rootAnswer store.connector read).toOption =
      (checkOrders read.position read.targets).toOption.bind fun _ =>
        ((read.targets.map read.task).mapM (finished store size)).bind fun outputs =>
          (read.answer outputs).toOption := by
  rw [rootAnswer, toOption_bind]
  refine congrArg (Option.bind _) (funext fun _ => ?_)
  rw [toOption_bind, toOption_mapM, mapM_map]
  refine congrArg (fun outputs => Option.bind outputs _) (mapM_congr fun target _ => ?_)
  rw [finished, toOption_bind, execute_alone store.connector (rootTask_join read target) size]
  rfl

theorem tasks_toOption (read : RootRead) :
    read.tasks.toOption = (checkOrders read.position read.targets).toOption.map fun _ =>
      read.targets.map read.task := by
  rw [RootRead.tasks, toOption_bind]
  exact bind_some_map _ _

/-- The tasks of root fields read their targets. -/
theorem exists_of_mem_tasks {reads : List RootRead} {tasks : List (List Task)}
    (planned : reads.mapM RootRead.tasks = .ok tasks) {task : Task}
    (present : task ∈ tasks.flatten) :
    ∃ read ∈ reads, ∃ target ∈ read.targets, task = read.task target := by
  obtain ⟨own, listed, present⟩ := List.mem_flatten.mp present
  obtain ⟨read, asked, made⟩ := exists_of_mem_mapM_ok planned listed
  rw [← toOption_eq_some, tasks_toOption] at made
  obtain ⟨-, -, rfl⟩ := Option.map_eq_some_iff.mp made
  obtain ⟨target, reached, rfl⟩ := List.mem_map.mp present
  exact ⟨read, asked, target, reached, rfl⟩

/-- Outputs that are found together are taken from the front, root field by root field. -/
theorem rootAnswers_toOption (reads : List RootRead) :
    ((reads.mapM RootRead.tasks).toOption.bind fun tasks =>
      (tasks.flatten.mapM (finished store size)).bind fun outputs =>
        (rootAnswers reads outputs).toOption) =
      reads.mapM fun read => (rootAnswer store.connector read).toOption := by
  induction reads with
  | nil => rfl
  | cons read rest ih =>
    rw [List.mapM_cons, List.mapM_cons, ← ih, rootAnswer_toOption store size, toOption_bind,
      tasks_toOption]
    cases (checkOrders read.position read.targets).toOption with
    | none => rfl
    | some agreement =>
      rw [Option.map_some, Option.bind_some, toOption_bind]
      cases rest.mapM RootRead.tasks with
      | error e =>
        show none = Option.bind _ fun _ => Option.bind none _
        simp
      | ok more =>
        show Option.bind (((read.targets.map read.task) :: more).flatten.mapM
          (finished store size)) _ = _
        rw [List.flatten_cons, List.mapM_append]
        cases here : (read.targets.map read.task).mapM (finished store size) with
        | none => rfl
        | some outs =>
          have long : outs.length = read.targets.length := by
            have same := congrArg List.length (mapM_eq_some.mp here)
            rw [List.length_map, List.length_map, List.length_map] at same
            exact same.symm
          cases later : more.flatten.mapM (finished store size) with
          | none =>
            show none = Option.bind _ fun _ => _
            simp [later]
          | some others =>
            show (rootAnswers (read :: rest) (outs ++ others)).toOption = _
            rw [rootAnswers, ← long, List.take_left, List.drop_left]
            simp only [toOption_bind, Option.bind_some, toOption_ok, later]
            rfl

variable {together : List Target → Prop}

/-- Resolving root fields level by level, in whatever order the reads complete, finds what
resolving them per parent does. -/
theorem resolveReads_toOption {completion : Completion} (every : completion.Complete)
    {reads : List RootRead} (formed : ∀ read ∈ reads, ∀ target ∈ read.targets,
      target.Formed together) :
    (resolveReads store.connector size completion reads).outcome.toOption =
      (response store.connector reads).toOption := by
  have answers := rootAnswers_toOption store size reads
  rw [response, toOption_bind, toOption_mapM, ← answers]
  unfold resolveReads
  cases done : reads.mapM RootRead.tasks with
  | error e => rfl
  | ok tasks =>
    have each : ∀ task ∈ tasks.flatten, Planned task ∧ task.target.Formed together := by
      intro task present
      obtain ⟨read, asked, target, reached, rfl⟩ := exists_of_mem_tasks done present
      exact ⟨rootTask_planned read target, formed read asked target reached⟩
    have level := resolveLevel_toOption store size every 0 each
    simp only [toOption_bind, level, toOption_ok, Option.bind_some]
    rw [Option.bind_assoc]

end GraphRead.PerParent
