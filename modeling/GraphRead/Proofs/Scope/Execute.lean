import GraphRead.Execution.Run
import GraphRead.Proofs.Binding.Formed
import GraphRead.Proofs.Resolve.Complete
import GraphRead.Proofs.Scope.Reads
/-!
Rows outside the scope of their types are unobservable (`executeDocument_eq_of_sameInScope`).

Every task of a resolution has a scoped plan, from the root fields to the last level, because
whatever is bound is of a type of the schema. So two stores that are alike for scoped reads lead to
the same outputs on every level, and from these the same next level is planned, until the whole
resolution is the same: its levels, its outcome and with them the reads that are issued.
-/

namespace GraphRead

variable {schema : Schema}

/-- A task of a type of the schema has a scoped plan, and so have the tasks below it. -/
structure Task.Scoped (schema : Schema) (task : Task) : Prop where
  plan : task.plan.Scoped schema
  below : task.target.Formed schema.Together

/-! ### The tasks of all levels are scoped -/

theorem planLink_scoped {position : Path} {key : String} {l : BoundLink} {records : List Fetched}
    {tasks : List Task} (together : schema.Together l.targets)
    (formed : ∀ child ∈ l.targets, child.Formed schema.Together)
    (done : planLink position key l records = .ok tasks) : ∀ task ∈ tasks, task.Scoped schema := by
  unfold planLink at done
  simp only [Fallible.bind_eq_ok] at done
  obtain ⟨keys, _, done⟩ := done
  split at done
  · cases Fallible.pure_eq_ok.mp done
    exact fun _ present => nomatch present
  · obtain ⟨_, _, done⟩ := Fallible.bind_eq_ok.mp done
    cases Fallible.pure_eq_ok.mp done
    intro task present
    obtain ⟨target, reached, rfl⟩ := List.mem_map.mp present
    exact ⟨Plan.compile_scoped (together.declared target reached) _ _ _, formed target reached⟩

theorem planLevel_scoped {place : Nat} {entries : List (Task × Output)}
    {children : List ChildTask} (each : ∀ entry ∈ entries, entry.1.Scoped schema)
    (done : planLevel place entries = .ok children) :
    ∀ child ∈ children, child.task.Scoped schema := by
  intro child present
  obtain ⟨-, parent, known, f, l, tasks, asked, linked, made, among⟩ :=
    exists_of_mem_planLevel done present
  have formed := (each parent known).below
  exact planLink_scoped (formed.together_of_mem asked linked)
    (fun target reached => formed.child asked linked reached) made child.task among

/-! ### Levels -/

section Levels

variable {left right : Connector} (alike : schema.Alike left right)

include alike

theorem executeLevel_alike {tasks : List Task} (each : ∀ task ∈ tasks, task.Scoped schema)
    (size : Option Nat) (order : List Nat) :
    executeLevel left size order tasks = executeLevel right size order tasks := by
  have answers : (tasks.map fun task => task.plan.execute left size) =
      tasks.map fun task => task.plan.execute right size :=
    List.map_congr_left fun task present => Plan.execute_alike alike (each task present).plan size
  rw [executeLevel, executeLevel, answers]

/-- Stores that are alike lead to the same resolution, of which all tasks are scoped. -/
theorem resolveLevel_alike (size : Option Nat) (completion : Completion) (depth : Nat)
    {tasks : List Task} (each : ∀ task ∈ tasks, task.Scoped schema) :
    resolveLevel left size completion depth tasks =
        resolveLevel right size completion depth tasks ∧
      ∀ level ∈ (resolveLevel right size completion depth tasks).levels, ∀ task ∈ level,
        task.Scoped schema := by
  induction high : levelHeight tasks using Nat.strongRecOn generalizing depth tasks with
  | ind height ih =>
    by_cases none : tasks = []
    · subst none
      rw [resolveLevel, resolveLevel, dif_pos rfl, dif_pos rfl]
      exact ⟨rfl, fun _ present => by cases present⟩
    · have single (level : List Task) (present : level ∈ [tasks]) :
          ∀ task ∈ level, task.Scoped schema := by
        rw [List.mem_singleton.mp present]
        exact each
      rw [resolveLevel_cons left size completion depth none,
        resolveLevel_cons right size completion depth none, executeLevel_alike alike each]
      cases executeLevel right size (completion depth tasks.length) tasks with
      | error e => exact ⟨rfl, single⟩
      | ok outputs =>
        dsimp only
        cases planned : planLevel 0 (tasks.zip outputs) with
        | error e => exact ⟨rfl, single⟩
        | ok children =>
          have below : ∀ task ∈ children.map ChildTask.task, task.Scoped schema := by
            intro task present
            obtain ⟨child, known, rfl⟩ := List.mem_map.mp present
            exact planLevel_scoped
              (fun entry there => each entry.1 (List.of_mem_zip there).1) planned child known
          have lower := levelHeight_planLevel_lt none planned
          obtain ⟨same, levels⟩ := ih _ (high ▸ lower) (depth + 1) below rfl
          dsimp only
          rw [same]
          refine ⟨rfl, fun level present => ?_⟩
          rcases List.mem_cons.mp present with here | later
          · rw [here]
            exact each
          · exact levels level later

end Levels

/-! ### Root fields -/

theorem RootRead.task_scoped (read : RootRead) {target : Target}
    (declared : target.type ∈ Keyed.values schema.types)
    (formed : target.Formed schema.Together) : (read.task target).Scoped schema := by
  unfold RootRead.task
  cases read.kind with
  | many => exact ⟨Plan.compile_scoped declared _ _ _, formed⟩
  | single id => exact ⟨Plan.compile_scoped declared _ _ _, formed⟩

theorem RootRead.tasks_scoped {read : RootRead} (together : schema.Together read.targets)
    (formed : ∀ target ∈ read.targets, target.Formed schema.Together) {tasks : List Task}
    (done : read.tasks = .ok tasks) : ∀ task ∈ tasks, task.Scoped schema := by
  unfold RootRead.tasks at done
  obtain ⟨_, _, done⟩ := Fallible.bind_eq_ok.mp done
  cases Fallible.pure_eq_ok.mp done
  intro task present
  obtain ⟨target, reached, rfl⟩ := List.mem_map.mp present
  exact RootRead.task_scoped read (together.declared target reached) (formed target reached)

theorem resolveReads_alike {left right : Connector} (alike : schema.Alike left right)
    {reads : List RootRead} (formed : ∀ read ∈ reads, schema.Together read.targets ∧
      ∀ target ∈ read.targets, target.Formed schema.Together)
    (size : Option Nat) (completion : Completion) :
    resolveReads left size completion reads = resolveReads right size completion reads ∧
      ∀ level ∈ (resolveReads right size completion reads).levels, ∀ task ∈ level,
        task.Scoped schema := by
  unfold resolveReads
  cases done : reads.mapM RootRead.tasks with
  | error e => exact ⟨rfl, fun _ present => nomatch present⟩
  | ok tasks =>
    have each : ∀ task ∈ tasks.flatten, task.Scoped schema := by
      intro task present
      obtain ⟨own, listed, present⟩ := List.mem_flatten.mp present
      obtain ⟨read, asked, planned⟩ := Success.exists_of_mem_mapM_ok done listed
      exact RootRead.tasks_scoped (formed read asked).1 (formed read asked).2 planned task present
    obtain ⟨same, levels⟩ := resolveLevel_alike alike size completion 0 each
    dsimp only
    rw [same]
    exact ⟨rfl, levels⟩

/-! ### The reads that are issued -/

section Schedule

variable {left right : Connector} (alike : schema.Alike left right)

include alike

theorem Task.succeeds_alike {task : Task} (scoped_task : task.Scoped schema) (size : Option Nat) :
    task.succeeds left size = task.succeeds right size := by
  rw [Task.succeeds, Task.succeeds, Plan.execute_alike alike scoped_task.plan]

theorem Read.untilFailure_alike {reads : List Read}
    (each : ∀ read ∈ reads, schema.Scoped read.table read.filter) :
    Read.untilFailure left reads = Read.untilFailure right reads := by
  induction reads with
  | nil => rfl
  | cons read rest ih =>
    rw [List.forall_mem_cons] at each
    have answer : read.answered left = read.answered right := by
      rw [Read.answered, Read.answered, alike.reply each.1]
    rw [Read.untilFailure, Read.untilFailure, answer, ih each.2]

theorem sequentialReads_alike {tasks : List Task} (each : ∀ task ∈ tasks, task.Scoped schema)
    (size : Option Nat) : sequentialReads left size tasks = sequentialReads right size tasks := by
  induction tasks with
  | nil => rfl
  | cons task rest ih =>
    rw [List.forall_mem_cons] at each
    have first : Read.untilFailure left (task.reads size) =
        Read.untilFailure right (task.reads size) :=
      Read.untilFailure_alike alike (Plan.reads_scoped each.1.plan size)
    rw [sequentialReads, sequentialReads, Task.succeeds_alike alike each.1, ih each.2, first]

theorem wavesUntilFailure_alike {waves : List (List Task)}
    (each : ∀ wave ∈ waves, ∀ task ∈ wave, task.Scoped schema) (size : Option Nat) :
    wavesUntilFailure left size waves = wavesUntilFailure right size waves := by
  induction waves with
  | nil => rfl
  | cons wave rest ih =>
    rw [List.forall_mem_cons] at each
    have all : (wave.all fun task => task.succeeds left size) =
        wave.all fun task => task.succeeds right size := by
      rw [Bool.eq_iff_iff, List.all_eq_true, List.all_eq_true]
      refine forall₂_congr fun task present => ?_
      rw [Task.succeeds_alike alike (each.1 task present)]
    rw [wavesUntilFailure, wavesUntilFailure, all, ih each.2]

/-- A resolution with scoped tasks is observed alike. -/
theorem observe_alike (config : Config) (timing : Timing) {resolution : Resolution Response}
    (each : ∀ level ∈ resolution.levels, ∀ task ∈ level, task.Scoped schema) :
    observe left config timing resolution = observe right config timing resolution := by
  have inWaves : ∀ wave ∈ waves config.effectiveConcurrency resolution.levels, ∀ task ∈ wave,
      task.Scoped schema := by
    intro wave present task known
    obtain ⟨level, listed, cut⟩ := List.mem_flatMap.mp present
    refine each level listed task ?_
    rw [← flatten_chunks config.effectiveConcurrency level]
    exact List.mem_flatten_of_mem cut known
  have inLevels : ∀ task ∈ resolution.levels.flatten, task.Scoped schema := by
    intro task present
    obtain ⟨level, listed, known⟩ := List.mem_flatten.mp present
    exact each level listed task known
  simp only [observe, wavesUntilFailure_alike alike inWaves,
    sequentialReads_alike alike inLevels]

end Schedule

/-- **Rows outside the scope of their types are unobservable.** Two stores that only differ in such
rows lead to the same execution of every document: the same records, counts, page infos and
cursors, the same error, and the same reads. So they do for every order in which the reads of a
level complete. -/
theorem executeDocument_eq_of_sameInScope {schema : Schema} {left right : Memory}
    (same : schema.SameInScope left right) (config : Config) (timing : Timing)
    (document : Document) :
    executeDocument schema left.connector config timing document =
        executeDocument schema right.connector config timing document ∧
      ∀ completion root reads, Selection.ofDocument document = .ok root →
        root.rootReads schema = .ok reads →
        resolveReads left.connector config.maxBindValues completion reads =
          resolveReads right.connector config.maxBindValues completion reads := by
  have alike := Schema.Alike.of_sameInScope same
  refine ⟨?_, fun completion root reads built bound => ?_⟩
  · unfold executeDocument
    cases built : Selection.ofDocument document with
    | error e => rfl
    | ok root =>
      dsimp only
      unfold executeSelection
      cases bound : root.rootReads schema with
      | error e => rfl
      | ok reads =>
        have formed := Selection.rootReads_formed (Selection.ofDocument_wellKeyed built) bound
        obtain ⟨resolved, levels⟩ :=
          resolveReads_alike alike formed config.maxBindValues .inOrder
        dsimp only
        rw [resolved, observe_alike alike config timing levels]
  · have formed := Selection.rootReads_formed (Selection.ofDocument_wellKeyed built) bound
    exact (resolveReads_alike alike formed config.maxBindValues completion).1

/-! ### Accounts of two tenants -/

namespace TwoTenants

/-- Accounts of the first tenant: the scope leaves out all others. -/
def accounts : ObjectType where
  name := "account"
  table := "accounts"
  primaryKey := "id"
  scope := .equals "tenant" (.int 1)
  fields := [("id", .scalar ⟨"id", .int, .column "id"⟩)]

def ledger : Schema where
  types := [("account", accounts)]
  interfaces := []
  roots := [("accounts", ⟨"accounts", "account", .connection [⟨"id", .ascending⟩], []⟩)]

def account (id tenant : Int64) : Row := [("id", .int id), ("tenant", .int tenant)]

/-- An account of another tenant comes first, which the second store lacks. -/
def shared : Memory := ⟨[("accounts", [account 1 2, account 2 1])], []⟩

def own : Memory := ⟨[("accounts", [account 2 1])], []⟩

/-- Asks for the first account and for their number. -/
def firstAccount : Document where
  root := ⟨⟨rootName, none, []⟩, [.field ⟨"accounts", none, [("first", .int 1)]⟩
    [.field ⟨"totalCount", none, []⟩ [], .field ⟨"edges", none, []⟩ [.field ⟨"node", none, []⟩
      [.field ⟨"id", none, []⟩ []]]]]⟩
  fragments := []

theorem sameInScope : ledger.SameInScope shared own where
  failing _ := rfl
  rows table := by
    by_cases accounts : table = "accounts"
    · subst accounts
      rfl
    · have other : "accounts" ≠ table := fun same => accounts same.symm
      simp only [shared, own, Keyed.get?, if_neg other]

/-- An account of another tenant does not push one's own out of the first page. -/
theorem executeDocument_eq_own : ledger.SameInScope shared own ∧
    executeDocument ledger shared.connector .default .instant firstAccount =
      executeDocument ledger own.connector .default .instant firstAccount :=
  ⟨sameInScope, (executeDocument_eq_of_sameInScope sameInScope .default .instant firstAccount).1⟩

end TwoTenants

end GraphRead
