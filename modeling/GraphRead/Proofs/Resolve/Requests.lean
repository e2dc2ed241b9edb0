import GraphRead.Config
import GraphRead.Proofs.Resolve.Arrival
import Mathlib.Algebra.Order.BigOperators.Group.List
import Mathlib.Algebra.Order.Group.Nat
import Mathlib.Data.List.Flatten
/-!
Requests in flight: how many reads of a level wait for an answer at a time.

The limit of concurrency counts tasks. A task that has been started issues its reads one after the
other without waiting for their answers, so several of them can be in flight: a fetch and a count,
or those of several chunks of keys. `Requests.Step` is what can happen next to the single reads.
Seen from the tasks it is a step of `InFlight` (`Step.places`), so that no more tasks are under way
than the limit allows, and every request in flight is one of theirs (`Requests.Sound`).

* `requests_bounded` — the requests in flight are reads of as many tasks as the limit allows, and
  those of any so many tasks can be in flight together.
-/

namespace GraphRead

/-- A task under way, with its place in the level: the reads that it has still to issue, and those
whose answers it waits for. -/
structure UnderWay where
  task : Task × Nat
  toIssue : List Read
  pending : List Read

/-- Where the tasks of a level are, with their places, and the requests of those under way. Of the
tasks that have completed only the places are known. -/
structure Requests where
  waiting : List (Task × Nat)
  underWay : List UnderWay
  completed : List Nat

namespace UnderWay

variable (connector : Connector) (size : Option Nat)

/-- A task that has been started and has issued nothing yet. -/
def start (task : Task × Nat) : UnderWay := ⟨task, task.1.reads size, []⟩

/-- A task all of whose reads wait for their answers. -/
def allPending (task : Task × Nat) : UnderWay := ⟨task, [], task.1.reads size⟩

/-- Nothing is left to be issued, and nothing to be waited for. -/
def Settled (u : UnderWay) : Prop := u.toIssue = [] ∧ u.pending = []

/-- A task fails with one of its requests, or with what has been answered. -/
def Fails (u : UnderWay) : Prop :=
  (∃ read ∈ u.pending, read.answered connector = false) ∨
    (u.Settled ∧ u.task.1.succeeds connector size = false)

end UnderWay

namespace Requests

/-- A level none of whose tasks has been started. -/
def ready (tasks : List Task) : Requests := ⟨tasks.zipIdx, [], []⟩

/-- The requests that have been issued and not been answered. -/
def pending (s : Requests) : List Read := s.underWay.flatMap UnderWay.pending

/-- The places of the tasks. -/
def places (s : Requests) : InFlight :=
  ⟨s.waiting.map Prod.snd, s.underWay.map fun u => u.task.2, s.completed⟩

/-- What can happen next: the first task that waits is started if there is room for it, a task
issues its next read, a request is answered, or a task completes. The first task that fails stops
the level, and what is in flight is dropped. -/
inductive Step (connector : Connector) (size : Option Nat) (limit : Nat) :
    Requests → Requests → Prop
  | start {task : Task × Nat} {waiting : List (Task × Nat)} {underWay : List UnderWay}
    {completed : List Nat} (room : underWay.length < limit) :
    Step connector size limit ⟨task :: waiting, underWay, completed⟩
      ⟨waiting, underWay ++ [.start size task], completed⟩
  | issue {waiting : List (Task × Nat)} {before behind : List UnderWay} {completed : List Nat}
    {task : Task × Nat} {read : Read} {toIssue pending : List Read} :
    Step connector size limit
      ⟨waiting, before ++ ⟨task, read :: toIssue, pending⟩ :: behind, completed⟩
      ⟨waiting, before ++ ⟨task, toIssue, pending ++ [read]⟩ :: behind, completed⟩
  | answer {waiting : List (Task × Nat)} {before behind : List UnderWay} {completed : List Nat}
    {task : Task × Nat} {read : Read} {toIssue first later : List Read}
    (answered : read.answered connector) :
    Step connector size limit
      ⟨waiting, before ++ ⟨task, toIssue, first ++ read :: later⟩ :: behind, completed⟩
      ⟨waiting, before ++ ⟨task, toIssue, first ++ later⟩ :: behind, completed⟩
  | complete {waiting : List (Task × Nat)} {before behind : List UnderWay} {completed : List Nat}
    {u : UnderWay} (settled : u.Settled) (succeeds : u.task.1.succeeds connector size) :
    Step connector size limit ⟨waiting, before ++ u :: behind, completed⟩
      ⟨waiting, before ++ behind, completed ++ [u.task.2]⟩
  | stop {waiting : List (Task × Nat)} {before behind : List UnderWay} {completed : List Nat}
    {u : UnderWay} (fails : u.Fails connector size) :
    Step connector size limit ⟨waiting, before ++ u :: behind, completed⟩
      ⟨[], [], completed ++ [u.task.2]⟩

/-- What can happen after some time. -/
abbrev Run (connector : Connector) (size : Option Nat) (limit : Nat) : Requests → Requests → Prop :=
  Relation.ReflTransGen (Step connector size limit)

variable {connector : Connector} {size : Option Nat} {limit : Nat} {s t : Requests}
  {tasks : List Task}

/-! ### The tasks under way -/

/-- A task starts or completes as a whole, and what happens to its requests does not move it. The
task that stops the level is the last one to complete. -/
theorem Step.places (step : Step connector size limit s t) :
    InFlight.Run limit s.places t.places ∨
      (t.waiting = [] ∧ t.underWay = [] ∧
        ∃ last, InFlight.Step limit s.places last ∧ last.completed = t.completed) := by
  cases step with
  | @start task waiting underWay completed room =>
    refine .inl (.single ?_)
    have moved : InFlight.Step limit
        ⟨task.2 :: waiting.map Prod.snd, underWay.map fun u => u.task.2, completed⟩
        ⟨waiting.map Prod.snd, (underWay.map fun u => u.task.2) ++ [task.2], completed⟩ :=
      .start (by rwa [List.length_map])
    simpa [Requests.places, UnderWay.start] using moved
  | issue =>
    refine .inl ?_
    simp only [Requests.places, List.map_append, List.map_cons]
    exact .refl
  | answer =>
    refine .inl ?_
    simp only [Requests.places, List.map_append, List.map_cons]
    exact .refl
  | complete =>
    refine .inl (.single ?_)
    simp only [Requests.places, List.map_append, List.map_cons]
    exact .complete
  | @stop waiting before behind completed u fails =>
    refine .inr ⟨rfl, rfl, Requests.places ⟨waiting, before ++ behind, completed ++ [u.task.2]⟩,
      ?_, rfl⟩
    simp only [Requests.places, List.map_append, List.map_cons]
    exact .complete

/-- Nothing happens any more where no task waits or is under way. -/
theorem Step.ended (step : Step connector size limit s t) (waiting : s.waiting = []) :
    s.underWay ≠ [] := by
  cases step with
  | start => cases waiting
  | issue => simp
  | answer => simp
  | complete => simp
  | stop => simp

/-- The tasks complete in an order in which they can complete when each of them is one read. -/
theorem Run.places (run : Run connector size limit (ready tasks) s) :
    ∃ seen, InFlight.Run limit (.ready tasks.length) seen ∧ seen.completed = s.completed ∧
      (seen = s.places ∨ s.waiting = [] ∧ s.underWay = []) := by
  induction run with
  | refl =>
    refine ⟨.ready tasks.length, .refl, rfl, .inl ?_⟩
    simp only [InFlight.ready, Requests.places, ready, List.map_nil, List.zipIdx_map_snd]
    rw [List.range_eq_range']
  | tail _ step ih =>
    obtain ⟨seen, run, _, here | ⟨waiting, idle⟩⟩ := ih
    · subst here
      rcases step.places with later | ⟨waiting, idle, last, stopped, same⟩
      · exact ⟨_, run.trans later, rfl, .inl rfl⟩
      · exact ⟨last, run.tail stopped, same, .inr ⟨waiting, idle⟩⟩
    · exact absurd idle (step.ended waiting)

/-- No more tasks are under way than may. -/
theorem Run.bounded (run : Run connector size limit (ready tasks) s) :
    s.underWay.length ≤ limit := by
  obtain ⟨seen, reached, _, here | ⟨_, idle⟩⟩ := run.places
  · subst here
    have few := InFlight.Run.bounded reached (Nat.zero_le limit)
    rwa [Requests.places, List.length_map] at few
  · rw [idle]
    exact Nat.zero_le limit

/-! ### The requests of the tasks -/

/-- What is in flight belongs to the level: the tasks that have not completed are some of its tasks
in their order, and the requests of a task under way are some of its reads. -/
structure Sound (size : Option Nat) (tasks : List Task) (s : Requests) : Prop where
  tasks : (s.underWay.map UnderWay.task ++ s.waiting).Sublist tasks.zipIdx
  reads : ∀ u ∈ s.underWay, (u.pending ++ u.toIssue).Sublist (u.task.1.reads size)

theorem Sound.ready (size : Option Nat) (tasks : List Task) : Sound size tasks (ready tasks) where
  tasks := .refl _
  reads _ known := nomatch known

theorem Sound.step (sound : Sound size tasks s) (step : Step connector size limit s t) :
    Sound size tasks t := by
  obtain ⟨among, own⟩ := sound
  cases step with
  | start =>
    refine ⟨by simpa [UnderWay.start] using among, ?_⟩
    simpa [List.forall_mem_append, or_imp, forall_and, UnderWay.start] using own
  | @issue waiting before behind completed task read toIssue pending =>
    refine ⟨by simpa using among, ?_⟩
    simp only [List.forall_mem_append, List.forall_mem_cons] at own ⊢
    refine ⟨own.1, ?_, own.2.2⟩
    rw [List.append_assoc]
    exact own.2.1
  | @answer waiting before behind completed task read toIssue first later =>
    refine ⟨by simpa using among, ?_⟩
    simp only [List.forall_mem_append, List.forall_mem_cons] at own ⊢
    refine ⟨own.1, ?_, own.2.2⟩
    refine List.Sublist.trans (List.Sublist.append_right ?_ toIssue) own.2.1
    exact List.Sublist.append_left (List.sublist_cons_self read later) first
  | @complete waiting before behind completed u =>
    simp only [List.forall_mem_append, List.forall_mem_cons] at own
    refine ⟨.trans ?_ among, List.forall_mem_append.mpr ⟨own.1, own.2.2⟩⟩
    simp
  | stop => exact ⟨List.nil_sublist _, fun _ known => nomatch known⟩

theorem Sound.run (run : Run connector size limit (Requests.ready tasks) s) :
    Sound size tasks s := by
  induction run with
  | refl => exact .ready size tasks
  | tail _ step ih => exact ih.step step

/-- The requests in flight are reads of the tasks under way. -/
theorem Sound.pending (sound : Sound size tasks s) :
    s.pending.Sublist (s.underWay.flatMap fun u => u.task.1.reads size) :=
  List.Sublist.flatMap_right s.underWay fun u known =>
    (List.sublist_append_left u.pending u.toIssue).trans (sound.reads u known)

/-! ### How much can be in flight -/

/-- A task under way can issue all its reads. -/
theorem run_issue (waiting : List (Task × Nat)) (before behind : List UnderWay)
    (completed : List Nat) (task : Task × Nat) (toIssue pending : List Read) :
    Run connector size limit
      ⟨waiting, before ++ ⟨task, toIssue, pending⟩ :: behind, completed⟩
      ⟨waiting, before ++ ⟨task, [], pending ++ toIssue⟩ :: behind, completed⟩ := by
  induction toIssue generalizing pending with
  | nil =>
    rw [List.append_nil]
  | cons read rest ih =>
    have later := ih (pending ++ [read])
    rw [List.append_assoc] at later
    exact .head .issue later

/-- Requests that the data store answers can be answered one after the other. -/
theorem run_answer (waiting : List (Task × Nat)) (before behind : List UnderWay)
    (completed : List Nat) (task : Task × Nat) {pending : List Read}
    (answered : ∀ read ∈ pending, read.answered connector) :
    Run connector size limit
      ⟨waiting, before ++ ⟨task, [], pending⟩ :: behind, completed⟩
      ⟨waiting, before ++ ⟨task, [], []⟩ :: behind, completed⟩ := by
  induction pending with
  | nil => exact .refl
  | cons read rest ih =>
    rw [List.forall_mem_cons] at answered
    have first := @Step.answer connector size limit waiting before behind completed task read []
      [] rest answered.1
    exact .head first (ih answered.2)

/-- A task can be started if there is room for it, and have all its reads in flight. -/
theorem run_start {underWay : List UnderWay} (room : underWay.length < limit)
    (task : Task × Nat) (waiting : List (Task × Nat)) (completed : List Nat) :
    Run connector size limit ⟨task :: waiting, underWay, completed⟩
      ⟨waiting, underWay ++ [.allPending size task], completed⟩ :=
  .head (.start room) (run_issue waiting underWay [] completed task (task.1.reads size) [])

/-- A task that succeeds can be started and completed while others go on. -/
theorem run_whole {underWay : List UnderWay} (room : underWay.length < limit)
    {task : Task × Nat} (succeeds : task.1.succeeds connector size)
    (waiting : List (Task × Nat)) (completed : List Nat) :
    Run connector size limit ⟨task :: waiting, underWay, completed⟩
      ⟨waiting, underWay, completed ++ [task.2]⟩ := by
  have done := @Step.complete connector size limit waiting underWay [] completed
    ⟨task, [], []⟩ ⟨rfl, rfl⟩ succeeds
  rw [List.append_nil] at done
  exact ((run_start room task waiting completed).trans
    (run_answer waiting underWay [] completed task (Task.answered_of_succeeds succeeds))).tail done

/-- The first tasks that wait can be under way together, as far as there is room. -/
theorem run_first (first later : List (Task × Nat)) (underWay : List UnderWay)
    (completed : List Nat) (room : underWay.length + first.length ≤ limit) :
    Run connector size limit ⟨first ++ later, underWay, completed⟩
      ⟨later, underWay ++ first.map (.allPending size), completed⟩ := by
  induction first generalizing underWay with
  | nil =>
    rw [List.map_nil, List.append_nil]
    exact .refl
  | cons task rest ih =>
    rw [List.length_cons] at room
    have more := ih (underWay ++ [.allPending size task])
      (by rw [List.length_append, List.length_singleton]; omega)
    rw [List.append_assoc] at more
    exact (run_start (by omega) task (rest ++ later) completed).trans more

/-- If all tasks succeed, any of them can be under way together, as far as there is room: the tasks
between them complete beforehand. -/
theorem exists_run_chosen {chosen waiting : List (Task × Nat)} (some_of : chosen.Sublist waiting)
    (succeed : ∀ task ∈ waiting, task.1.succeeds connector size) (underWay : List UnderWay)
    (completed : List Nat) (room : underWay.length + chosen.length ≤ limit) :
    ∃ waiting' completed', Run connector size limit ⟨waiting, underWay, completed⟩
      ⟨waiting', underWay ++ chosen.map (.allPending size), completed'⟩ := by
  induction some_of generalizing underWay completed with
  | slnil =>
    refine ⟨[], completed, ?_⟩
    rw [List.map_nil, List.append_nil]
  | @cons chosen waiting task _ ih =>
    rw [List.forall_mem_cons] at succeed
    cases chosen with
    | nil =>
      refine ⟨task :: waiting, completed, ?_⟩
      rw [List.map_nil, List.append_nil]
    | cons next others =>
      rw [List.length_cons] at room
      obtain ⟨waiting', completed', later⟩ := ih succeed.2 underWay (completed ++ [task.2])
        (by rw [List.length_cons]; exact room)
      exact ⟨waiting', completed', (run_whole (by omega) succeed.1 waiting completed).trans later⟩
  | @cons_cons chosen waiting task _ ih =>
    rw [List.forall_mem_cons] at succeed
    rw [List.length_cons] at room
    obtain ⟨waiting', completed', later⟩ := ih succeed.2 (underWay ++ [.allPending size task])
      completed (by rw [List.length_append, List.length_singleton]; omega)
    rw [List.append_assoc] at later
    exact ⟨waiting', completed', (run_start (by omega) task waiting completed).trans later⟩

/-- The reads of tasks that have all been issued and not been answered. -/
theorem pending_allPending (waiting tasks : List (Task × Nat)) (completed : List Nat) :
    (Requests.mk waiting (tasks.map (.allPending size)) completed).pending =
      (tasks.map Prod.fst).flatMap (Task.reads size) := by
  rw [pending, List.flatMap_map, List.flatMap_map]
  rfl

theorem map_fst_zipIdx (tasks : List Task) : tasks.zipIdx.map Prod.fst = tasks :=
  List.zipIdx_map_fst 0 tasks

/-- The requests in flight are reads of tasks of the level, of no more tasks than may be under
way. -/
theorem Run.exists_busy (run : Run connector size limit (ready tasks) s) :
    ∃ busy : List Task, busy.Sublist tasks ∧ busy.length ≤ limit ∧
      s.pending.Sublist (busy.flatMap (Task.reads size)) := by
  have sound := Sound.run run
  refine ⟨s.underWay.map fun u => u.task.1, ?_, ?_, ?_⟩
  · have among := ((List.sublist_append_left _ _).trans sound.tasks).map Prod.fst
    rwa [List.map_map, map_fst_zipIdx] at among
  · rw [List.length_map]
    exact run.bounded
  · rw [List.flatMap_map]
    exact sound.pending

/-- As many requests are in flight as the tasks under way have reads, at most. -/
theorem Run.length_pending_le (run : Run connector size limit (ready tasks) s) {most : Nat}
    (few : ∀ task ∈ tasks, (task.reads size).length ≤ most) : s.pending.length ≤ limit * most := by
  obtain ⟨busy, among, bounded, reads⟩ := run.exists_busy
  refine reads.length_le.trans (le_trans ?_ (Nat.mul_le_mul_right most bounded))
  rw [List.length_flatMap, ← List.length_map fun task => (task.reads size).length]
  refine List.sum_le_card_nsmul _ most fun count counted => ?_
  obtain ⟨task, known, rfl⟩ := List.mem_map.mp counted
  exact few task (among.subset known)

/-- The reads of the first tasks can be in flight together. -/
theorem exists_run_take (connector : Connector) (size : Option Nat) (limit : Nat)
    (tasks : List Task) : ∃ s, Run connector size limit (ready tasks) s ∧
      s.pending = (tasks.take limit).flatMap (Task.reads size) := by
  have room : ([] : List UnderWay).length + (tasks.zipIdx.take limit).length ≤ limit := by
    rw [List.length_nil, Nat.zero_add]
    exact List.length_take_le limit tasks.zipIdx
  have run := @run_first connector size limit (tasks.zipIdx.take limit)
    (tasks.zipIdx.drop limit) [] [] room
  rw [List.take_append_drop, List.nil_append] at run
  refine ⟨_, run, ?_⟩
  rw [pending_allPending, List.map_take, map_fst_zipIdx]

/-- If all tasks succeed, the reads of any of them can be in flight together. -/
theorem exists_run_busy {busy : List Task} (succeed : ∀ task ∈ tasks, task.succeeds connector size)
    (among : busy.Sublist tasks) (few : busy.length ≤ limit) :
    ∃ s, Run connector size limit (ready tasks) s ∧
      s.pending = busy.flatMap (Task.reads size) := by
  rw [← map_fst_zipIdx tasks] at among
  obtain ⟨chosen, some_of, rfl⟩ := List.sublist_map_iff.mp among
  rw [List.length_map] at few
  have each : ∀ task ∈ tasks.zipIdx, task.1.succeeds connector size := by
    intro task known
    refine succeed task.1 ?_
    rw [← map_fst_zipIdx tasks]
    exact List.mem_map_of_mem known
  obtain ⟨waiting, completed, run⟩ := exists_run_chosen some_of each [] []
    (show 0 + chosen.length ≤ limit by omega)
  rw [List.nil_append] at run
  exact ⟨_, run, pending_allPending _ _ _⟩

end Requests

/-- **The limit of concurrency bounds the tasks under way.** At any time the requests in flight are
reads of tasks of the level, of no more tasks than the limit says; so there are at most so many
times the limit as the tasks have reads each, and no more than the limit if they have one. The
reads of the first tasks can all be in flight together, and, if all tasks of the level succeed,
those of any tasks, as long as these are no more than the limit. -/
theorem requests_bounded (connector : Connector) (config : Config) (tasks : List Task) :
    let size := config.maxBindValues
    let limit := config.effectiveConcurrency
    (∀ s, Requests.Run connector size limit (.ready tasks) s →
      (∃ busy : List Task, busy.Sublist tasks ∧ busy.length ≤ limit ∧
        s.pending.Sublist (busy.flatMap (Task.reads size))) ∧
      ∀ most, (∀ task ∈ tasks, (task.reads size).length ≤ most) →
        s.pending.length ≤ limit * most) ∧
    (∃ s, Requests.Run connector size limit (.ready tasks) s ∧
      s.pending = (tasks.take limit).flatMap (Task.reads size)) ∧
    ((∀ task ∈ tasks, task.succeeds connector size) →
      ∀ busy : List Task, busy.Sublist tasks → busy.length ≤ limit →
        ∃ s, Requests.Run connector size limit (.ready tasks) s ∧
          s.pending = busy.flatMap (Task.reads size)) := by
  intro size limit
  refine ⟨fun s run => ⟨run.exists_busy, fun most few => run.length_pending_le few⟩, ?_, ?_⟩
  · exact Requests.exists_run_take connector size limit tasks
  · exact fun succeed busy among few => Requests.exists_run_busy succeed among few

namespace Census

def users : ObjectType := ⟨"user", "users", "id", .always, []⟩

/-- Asks for the first user and for the number of users. -/
def firstUser : RootRead where
  key := "users"
  filter := .always
  targets := [.connection
    ⟨users, [], .forward 1 none, some ⟨users, some ⟨users, []⟩, false⟩, none, true, false⟩]
  kind := .many

def store : Memory := ⟨[("users", [[("id", .int 1)]])], []⟩

/-- One task at a time. -/
def alone : Config := ⟨1, none, none⟩

/-- The level of the root field. -/
def level : List Task := firstUser.targets.map firstUser.task

/-- Where one task may be under way, its fetch and its count are in flight together. -/
theorem requests_exceed_limit :
    ∃ level ∈ (resolveReads store.connector alone.maxBindValues .inOrder [firstUser]).levels,
      ∃ s, Requests.Run store.connector alone.maxBindValues alone.effectiveConcurrency
          (.ready level) s ∧
        ¬ s.pending.length ≤ max 1 alone.concurrencyLimit := by
  obtain ⟨below, levels⟩ :=
    exists_levels_below store.connector none .inOrder 0 (show level ≠ [] by rintro ⟨⟩)
  obtain ⟨s, run, pending⟩ := Requests.exists_run_take store.connector none 1 level
  refine ⟨level, ?_, s, run, ?_⟩
  · show level ∈ (resolveLevel store.connector none .inOrder 0 level).levels
    rw [levels]
    exact List.mem_cons_self
  · rw [pending]
    decide

end Census

end GraphRead
