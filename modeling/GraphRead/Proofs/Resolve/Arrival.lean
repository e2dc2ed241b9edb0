import GraphRead.Proofs.Resolve.InFlight
import GraphRead.Resolve.Roots
import GraphRead.Resolve.Schedule
import GraphRead.Store.Memory
/-!
A resolution does not depend on the order in which its reads complete.

The outputs of a level are filed in the places of its tasks, so whatever is made of them is the same
however they come in: the reads of the next level with the tasks that they belong to, and in the end
the response. By induction on the levels, two resolutions execute the same tasks level by level,
and they succeed with the same response or fail both (`resolveLevel_order_free`). A level in which a
task fails is the last one (`resolveLevel_failed`).
-/

namespace GraphRead

open Success

/-! ### Reads and tasks -/

namespace Plan

variable {plan : Plan} {connector : Connector} {size : Option Nat}

/-- The rows of a plan are there only if every request for them is answered. -/
theorem answered_of_fetchRows {set : RowSet} (done : plan.fetchRows connector size = .ok set) :
    ∀ fetch ∈ plan.fetches size, ∃ set, connector.rows fetch = .ok set := by
  unfold fetchRows at done
  cases joined : plan.join with
  | none =>
    rw [joined] at done
    rw [fetches, joined]
    exact List.forall_mem_singleton.mpr ⟨set, done⟩
  | some join =>
    rw [joined] at done
    obtain ⟨sets, rows, _⟩ := Fallible.bind_eq_ok.mp done
    exact forall_of_mapM_ok rows

/-- The counts of a plan that counts by parent are there only if every request for them is
answered. -/
theorem answered_of_fetchCounts {tally : Tally} (done : plan.fetchCounts connector size = .ok tally)
    (counted : plan.counts) {join : Join} (joined : plan.join = some join) :
    ∀ filter ∈ plan.groupFilters join size,
      ∃ counts, connector.grouped plan.table filter join.column = .ok counts := by
  rw [fetchCounts, if_pos counted, joined] at done
  obtain ⟨groups, taken, _⟩ := Fallible.bind_eq_ok.mp done
  exact forall_of_mapM_ok taken

/-- A plan is executed only if every read is answered. -/
theorem answered_of_execute {output : Output} (done : plan.execute connector size = .ok output) :
    ∀ read ∈ plan.reads size, read.answered connector := by
  obtain ⟨set, rows, done⟩ := Fallible.bind_eq_ok.mp done
  obtain ⟨tally, counts, _⟩ := Fallible.bind_eq_ok.mp done
  have rows := answered_of_fetchRows (Fallible.mapError_eq_ok.mp rows)
  have counts := Fallible.mapError_eq_ok.mp counts
  refine List.forall_mem_append.mpr ⟨List.forall_mem_map.mpr fun fetch issued => ?_, ?_⟩
  · obtain ⟨found, answer⟩ := rows fetch issued
    rw [Read.answered, Connector.reply, answer]
    rfl
  · split
    · rename_i counted
      cases joined : plan.join with
      | none =>
        rw [fetchCounts, if_pos counted, joined] at counts
        obtain ⟨number, answer, _⟩ := Fallible.map_eq_ok.mp counts
        refine List.forall_mem_singleton.mpr ?_
        rw [Read.answered, Connector.reply, answer]
        rfl
      | some join =>
        refine List.forall_mem_map.mpr fun filter asked => ?_
        obtain ⟨found, answer⟩ := answered_of_fetchCounts counts counted joined filter asked
        rw [Read.answered, Connector.reply, answer]
        rfl
    · exact fun _ present => nomatch present

end Plan

/-- A task fails if one of its reads does. -/
theorem Task.fails_of_read {connector : Connector} {size : Option Nat} {task : Task} {read : Read}
    (issued : read ∈ task.reads size) (failed : read.answered connector = false) :
    task.succeeds connector size = false := by
  rw [succeeds]
  cases done : task.plan.execute connector size with
  | error e => rfl
  | ok output =>
    rw [Plan.answered_of_execute done read issued] at failed
    cases failed

/-- All reads of a task that succeeds are answered. -/
theorem Task.answered_of_succeeds {connector : Connector} {size : Option Nat} {task : Task}
    (succeeds : task.succeeds connector size) :
    ∀ read ∈ task.reads size, read.answered connector := by
  intro read issued
  cases answer : read.answered connector with
  | true => rfl
  | false =>
    rw [fails_of_read issued answer] at succeeds
    cases succeeds

/-! ### Levels -/

section Levels

variable (connector : Connector) (size : Option Nat) {first second : Completion}
  (complete : first.Complete) (complete' : second.Complete)

include complete complete' in
/-- Two resolutions of a level execute the same tasks, level by level, and yield the same. -/
theorem resolveLevel_order_free (depth : Nat) (tasks : List Task) :
    (resolveLevel connector size first depth tasks).levels =
        (resolveLevel connector size second depth tasks).levels ∧
      (resolveLevel connector size first depth tasks).outcome.toOption =
        (resolveLevel connector size second depth tasks).outcome.toOption := by
  induction high : levelHeight tasks using Nat.strongRecOn generalizing depth tasks with
  | ind height ih =>
    by_cases none : tasks = []
    · subst none
      rw [resolveLevel, resolveLevel, dif_pos rfl, dif_pos rfl]
      exact ⟨rfl, rfl⟩
    · have outputs := (executeLevel_toOption connector size (complete depth tasks.length)).trans
        (executeLevel_toOption connector size (complete' depth tasks.length)).symm
      rw [resolveLevel_cons connector size first depth none,
        resolveLevel_cons connector size second depth none]
      cases here : executeLevel connector size (first depth tasks.length) tasks with
      | error e =>
        cases there : executeLevel connector size (second depth tasks.length) tasks with
        | error e' => exact ⟨rfl, rfl⟩
        | ok found =>
          rw [here, there] at outputs
          cases outputs
      | ok found =>
        rw [here, toOption_ok] at outputs
        rw [toOption_eq_some.mp outputs.symm]
        dsimp only
        cases planned : planLevel 0 (tasks.zip found) with
        | error e => exact ⟨rfl, rfl⟩
        | ok children =>
          have lower := levelHeight_planLevel_lt none planned
          obtain ⟨levels, same⟩ := ih _ (high ▸ lower) (depth + 1) _ rfl
          dsimp only
          refine ⟨congrArg (tasks :: ·) levels, ?_⟩
          rw [toOption_bind, toOption_bind, same]

include complete in
/-- A level in which a task fails is not gathered. -/
theorem executeLevel_of_failed (depth : Nat) {tasks : List Task} {task : Task}
    (present : task ∈ tasks) (failed : task.succeeds connector size = false)
    {outputs : List Output} :
    executeLevel connector size (first depth tasks.length) tasks ≠ .ok outputs := by
  intro done
  rw [Task.succeeds] at failed
  cases answer : task.plan.execute connector size with
  | ok output =>
    rw [answer] at failed
    cases failed
  | error e =>
    have none := executeLevel_error connector size (complete depth tasks.length) present answer
    rw [done] at none
    cases none

include complete in
/-- A level in which a task fails is the last one, and the resolution fails. -/
theorem resolveLevel_failed (depth : Nat) (tasks : List Task) {before after : List (List Task)}
    {level : List Task}
    (split : (resolveLevel connector size first depth tasks).levels = before ++ level :: after)
    {task : Task} (present : task ∈ level) (failed : task.succeeds connector size = false) :
    after = [] ∧ (resolveLevel connector size first depth tasks).outcome.toOption = none := by
  -- where nothing is planned below, the level is the only one
  have last {before : List (List Task)} (tasks : List Task) (e : ResolveError)
      (only : [tasks] = before ++ level :: after) :
      after = [] ∧ (Except.error e : Except ResolveError (List Output)).toOption = none := by
    cases before with
    | nil => exact ⟨(List.cons.inj only).2.symm, rfl⟩
    | cons _ rest => exact absurd (List.cons.inj only).2 (by simp)
  fun_induction resolveLevel connector size first depth tasks generalizing before with
  | case1 depth => exact absurd split.symm (by simp)
  | case2 depth tasks some_task e ended => exact last tasks e split
  | case3 depth tasks some_task found executed e unplanned => exact last tasks e split
  | case4 depth tasks some_task found executed children planned below =>
    rename_i ih
    cases before with
    | nil =>
      rw [← (List.cons.inj split).1] at present
      exact absurd executed (executeLevel_of_failed connector size complete depth present failed)
    | cons _ rest =>
      obtain ⟨ended, lost⟩ := ih (List.cons.inj split).2
      refine ⟨ended, ?_⟩
      dsimp only
      rw [toOption_bind, lost]
      rfl

/-! ### Root fields -/

include complete complete' in
theorem resolveReads_eq (reads : List RootRead) :
    (resolveReads connector size first reads).levels =
        (resolveReads connector size second reads).levels ∧
      (resolveReads connector size first reads).outcome.toOption =
        (resolveReads connector size second reads).outcome.toOption := by
  unfold resolveReads
  cases reads.mapM RootRead.tasks with
  | error e => exact ⟨rfl, rfl⟩
  | ok tasks =>
    obtain ⟨levels, same⟩ :=
      resolveLevel_order_free connector size complete complete' 0 tasks.flatten
    refine ⟨levels, ?_⟩
    dsimp only
    rw [toOption_bind, toOption_bind, same]

include complete in
theorem resolveReads_failed (reads : List RootRead) {before after : List (List Task)}
    {level : List Task}
    (split : (resolveReads connector size first reads).levels = before ++ level :: after)
    {task : Task} (present : task ∈ level) (failed : task.succeeds connector size = false) :
    after = [] ∧ (resolveReads connector size first reads).outcome.toOption = none := by
  unfold resolveReads at split ⊢
  cases planned : reads.mapM RootRead.tasks with
  | error e =>
    rw [planned] at split
    exact absurd split.symm (by simp)
  | ok tasks =>
    rw [planned] at split
    obtain ⟨last, lost⟩ :=
      resolveLevel_failed connector size complete 0 tasks.flatten split present failed
    refine ⟨last, ?_⟩
    dsimp only
    rw [toOption_bind, lost]
    rfl

end Levels

/-- The response does not depend on the order in which reads complete, nor on how many of them may
run at a time: two resolutions execute the same tasks level by level, and they succeed with the same
response or fail both. If a task of a level fails, or a read of one, both fail, and nothing is
executed below that level. -/
theorem resolveReads_order_free (connector : Connector) (size : Option Nat) (reads : List RootRead)
    {first second : Completion} {limit limit' : Nat} (allowed : first.Allowed limit)
    (allowed' : second.Allowed limit') :
    let one := resolveReads connector size first reads
    let other := resolveReads connector size second reads
    one.levels = other.levels ∧ one.outcome.toOption = other.outcome.toOption ∧
      ∀ before level after, one.levels = before ++ level :: after →
        (∃ task ∈ level, task.succeeds connector size = false ∨
          ∃ read ∈ task.reads size, read.answered connector = false) →
        after = [] ∧ one.outcome.toOption = none ∧ other.outcome.toOption = none := by
  intro one other
  obtain ⟨levels, outcome⟩ :=
    resolveReads_eq connector size allowed.complete allowed'.complete reads
  refine ⟨levels, outcome, fun before level after split => ?_⟩
  rintro ⟨task, present, failed⟩
  have fails : task.succeeds connector size = false := by
    rcases failed with failed | ⟨read, issued, failed⟩
    · exact failed
    · exact Task.fails_of_read issued failed
  obtain ⟨last, lost⟩ :=
    resolveReads_failed connector size allowed.complete reads split present fails
  exact ⟨last, lost, outcome.symm.trans lost⟩

namespace Outage

/-- A store of users and bots that answers no reads of bots. -/
def store : Memory := ⟨[("users", [[("id", .int 1)]]), ("bots", [])], ["bots"]⟩

/-- The lookup of the first actor of a type. -/
def lookup (type table : String) : RootRead :=
  ⟨type, .always, [.field ⟨⟨type, table, "id", .always, []⟩, []⟩], .single (.int 1)⟩

def lookups : List RootRead := [lookup "user" "users", lookup "bot" "bots"]

/-- The reads of the first level. -/
def tasks : List Task := lookups.flatMap fun read => read.targets.map read.task

theorem levels_lookups :
    (resolveReads store.connector none .inOrder lookups).levels = [tasks] := by
  show (resolveLevel store.connector none .inOrder 0 tasks).levels = [tasks]
  rw [resolveLevel_cons _ _ _ _ (by rintro ⟨⟩)]
  cases here : executeLevel store.connector none (Completion.inOrder 0 tasks.length) tasks with
  | error e => rfl
  | ok found =>
    have last : tasks[1] ∈ tasks := List.getElem_mem _
    exact absurd here (executeLevel_of_failed _ _ Completion.inOrder_complete 0 last rfl)

/-- The lookup of a bot fails the lookup of a user, which succeeds before or after it. -/
theorem resolveReads_order_free_lookups :
    let one := resolveReads store.connector none .inOrder lookups
    let other := resolveReads store.connector none .firstLast lookups
    one.levels = [tasks] ∧ other.levels = [tasks] ∧
      one.outcome.toOption = none ∧ other.outcome.toOption = none := by
  obtain ⟨levels, _, ended⟩ := resolveReads_order_free store.connector none lookups
    (Completion.inOrder_allowed Nat.zero_lt_one) (Completion.firstLast_allowed Nat.one_lt_two)
  obtain ⟨_, first, second⟩ := ended [] tasks [] levels_lookups
    ⟨tasks[1], List.getElem_mem _, .inl rfl⟩
  exact ⟨levels_lookups, levels.symm.trans levels_lookups, first, second⟩

end Outage

end GraphRead
