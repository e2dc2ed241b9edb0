import GraphRead.Execution.Run
import GraphRead.Proofs.Resolve.Arrival
import Mathlib.Data.List.Flatten
/-!
What an execution issues.

Whatever the times are, and wherever an execution ends, it issues reads of the tasks of its levels,
in their order (`observe_reads_sublist`). It issues all of them if the tasks succeed and nothing
interrupts it (`observe_reads_eq`).
-/

namespace GraphRead

namespace Read

theorem untilFailure_sublist (connector : Connector) (reads : List Read) :
    (untilFailure connector reads).Sublist reads := by
  induction reads with
  | nil => exact .refl _
  | cons read rest ih =>
    rw [untilFailure]
    split
    · exact ih.cons_cons read
    · exact (List.nil_sublist rest).cons_cons read

theorem untilFailure_eq {connector : Connector} {reads : List Read}
    (answered : ∀ read ∈ reads, read.answered connector) :
    untilFailure connector reads = reads := by
  induction reads with
  | nil => rfl
  | cons read rest ih =>
    rw [List.forall_mem_cons] at answered
    rw [untilFailure, if_pos answered.1, ih answered.2]

end Read

section Schedule

variable (connector : Connector) (size : Option Nat)

theorem sequentialReads_sublist (tasks : List Task) :
    (sequentialReads connector size tasks).Sublist (tasks.flatMap (Task.reads size)) := by
  induction tasks with
  | nil => exact .refl _
  | cons task rest ih =>
    rw [sequentialReads, List.flatMap_cons]
    refine (Read.untilFailure_sublist connector (task.reads size)).append ?_
    split
    · exact ih
    · exact List.nil_sublist _

theorem sequentialReads_eq {tasks : List Task}
    (succeed : ∀ task ∈ tasks, task.succeeds connector size) :
    sequentialReads connector size tasks = tasks.flatMap (Task.reads size) := by
  induction tasks with
  | nil => rfl
  | cons task rest ih =>
    rw [List.forall_mem_cons] at succeed
    rw [sequentialReads, if_pos succeed.1, ih succeed.2, List.flatMap_cons,
      Read.untilFailure_eq (Task.answered_of_succeeds succeed.1)]

theorem wavesUntilFailure_sublist (waves : List (List Task)) :
    (wavesUntilFailure connector size waves).Sublist waves := by
  induction waves with
  | nil => exact .refl _
  | cons wave rest ih =>
    rw [wavesUntilFailure]
    split
    · exact ih.cons_cons wave
    · exact (List.nil_sublist rest).cons_cons wave

theorem wavesUntilFailure_eq {waves : List (List Task)}
    (succeed : ∀ wave ∈ waves, ∀ task ∈ wave, task.succeeds connector size) :
    wavesUntilFailure connector size waves = waves := by
  induction waves with
  | nil => rfl
  | cons wave rest ih =>
    rw [List.forall_mem_cons] at succeed
    rw [wavesUntilFailure, if_pos (List.all_eq_true.mpr succeed.1), ih succeed.2]

theorem startedWaves_sublist (latency time : Nat) (waves : List (List Task)) :
    (startedWaves latency time waves).Sublist waves := by
  have kept := (List.filter_sublist (p := fun wave => wave.2 * latency ≤ time)
    (l := waves.zipIdx)).map Prod.fst
  rwa [List.zipIdx_map_fst] at kept

/-- The waves have the tasks of the levels. -/
theorem flatten_waves (limit : Nat) (levels : List (List Task)) :
    (waves limit levels).flatten = levels.flatten := by
  rw [waves, List.flatMap_def, List.flatten_flatten, List.map_map]
  refine congrArg List.flatten (List.map_id'' (fun level => ?_) levels)
  exact flatten_chunks limit level

theorem waveReads_sublist {some_of waves : List (List Task)} (among : some_of.Sublist waves) :
    (waveReads size some_of).Sublist (waveReads size waves) :=
  among.flatten.flatMap _

/-- What an execution issues are reads of the tasks of its levels. -/
theorem observe_reads_sublist (config : Config) (timing : Timing)
    (resolution : Resolution Response) :
    (observe connector config timing resolution).reads.Sublist
      (resolution.levels.flatten.flatMap (Task.reads config.maxBindValues)) := by
  have whole :
      waveReads config.maxBindValues (waves config.effectiveConcurrency resolution.levels) =
        resolution.levels.flatten.flatMap (Task.reads config.maxBindValues) := by
    rw [waveReads, flatten_waves]
  have begun := wavesUntilFailure_sublist connector config.maxBindValues
    (waves config.effectiveConcurrency resolution.levels)
  unfold observe
  split
  · exact List.nil_sublist _
  · dsimp only
    split
    · rw [← whole]
      exact waveReads_sublist _ ((startedWaves_sublist _ _ _).trans begun)
    · dsimp only
      split
      · exact sequentialReads_sublist connector _ _
      · rw [← whole]
        exact waveReads_sublist _ begun

/-- If all tasks succeed and nothing interrupts it, an execution issues all their reads. -/
theorem observe_reads_eq {config : Config} {timing : Timing} {resolution : Resolution Response}
    (patient : config.queryTimeout = none) (going : timing.cancelAfter = none)
    (succeed : ∀ level ∈ resolution.levels, ∀ task ∈ level,
      task.succeeds connector config.maxBindValues) :
    (observe connector config timing resolution).reads =
      resolution.levels.flatten.flatMap (Task.reads config.maxBindValues) := by
  have tasks : ∀ task ∈ resolution.levels.flatten,
      task.succeeds connector config.maxBindValues := by
    intro task present
    obtain ⟨level, listed, known⟩ := List.mem_flatten.mp present
    exact succeed level listed task known
  have inWaves : ∀ wave ∈ waves config.effectiveConcurrency resolution.levels, ∀ task ∈ wave,
      task.succeeds connector config.maxBindValues := by
    intro wave present task known
    refine tasks task ?_
    rw [← flatten_waves config.effectiveConcurrency]
    exact List.mem_flatten_of_mem present known
  unfold observe interruption?
  rw [going, patient, if_neg (by rintro ⟨⟩)]
  show (if timing.latency = 0 then _ else _) = _
  rw [wavesUntilFailure_eq connector _ inWaves, sequentialReads_eq connector _ tasks, waveReads,
    flatten_waves, ite_self]

end Schedule

end GraphRead
