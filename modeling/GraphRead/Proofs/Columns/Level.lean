import GraphRead.Proofs.Columns.Mentioned
import GraphRead.Proofs.Resolve.Names
/-!
No column is missed.

Where every row has the columns that the schema mentions for its table, a store in memory never
fails for want of a column (`Plan.execute_present`), and the records of a level have the columns by
which the next level is planned. So a resolution fails in other ways only
(`resolveReads_present`): the tables that cannot be read, the orders that differ and the numbers of
records are left.
-/

namespace GraphRead

open PerParent Success FailsOnly Memory

/-! ### Errors -/

/-- Whether a fault is that a record lacks a column. -/
def DomainError.isMissingColumn : DomainError → Bool
  | columnNotFound .. => true
  | _ => false

/-- Whether a store fails because a row lacks a column. -/
def StoreError.isMissingColumn : StoreError → Bool
  | columnDoesNotExist _ => true
  | domain error => error.isMissingColumn
  | _ => false

/-- Whether resolving fails because a row or a record lacks a column. -/
def ResolveError.isMissingColumn : ResolveError → Bool
  | store error => error.isMissingColumn
  | domain error => error.isMissingColumn
  | _ => false

/-- Whether binding fails because a record lacks a column. -/
def BindError.isMissingColumn : BindError → Bool
  | domain error => error.isMissingColumn
  | _ => false

/-- Whether a query fails because a row or a record lacks a column. -/
def ExecutionError.isMissingColumn : ExecutionError → Bool
  | store error => error.isMissingColumn
  | domain error => error.isMissingColumn
  | resolve error => error.isMissingColumn
  | bind error => error.isMissingColumn
  | _ => false

/-! ### Reads -/

section Reads

variable {store : Memory}

theorem scan_present (table : String) (filter : Filter) :
    Yields (fun rows => rows ⊆ store.rowsOf table) (fun e => e.isMissingColumn = false)
      (store.scan table filter) := by
  unfold scan
  split
  · exact .error rfl
  · split
    · rename_i rows found
      refine .ok ?_
      rw [rowsOf, found]
      exact List.filter_subset_self _
    · exact .error rfl

/-- Rows that have the columns are projected on them. -/
theorem exists_project {columns : List String} {rows : List Row}
    (filled : ∀ row ∈ rows, holds columns row) :
    ∃ values, project columns rows = .ok ⟨columns, values⟩ := by
  obtain ⟨values, done⟩ := exists_mapM_ok fun row present => by
    have known := projectRow_toOption columns row
    rw [if_pos (filled row present)] at known
    exact ⟨_, toOption_eq_some.mp known⟩
  rw [project, done]
  exact ⟨values, rfl⟩

/-- A request for columns that every row of the table has fails in other ways only. -/
theorem fetch_present (fetch : Fetch)
    (filled : ∀ row ∈ store.rowsOf fetch.table, holds (columnsOf fetch) row) :
    Yields (fun set => set.columns = columnsOf fetch) (fun e => e.isMissingColumn = false)
      (store.fetch fetch) := by
  have projected {rows : List Row} (known : rows ⊆ store.rowsOf fetch.table) :
      Yields (fun set => set.columns = columnsOf fetch)
        (fun e : StoreError => e.isMissingColumn = false) (project (columnsOf fetch) rows) := by
    obtain ⟨values, done⟩ := exists_project fun row present => filled row (known present)
    rw [done]
    exact .ok rfl
  cases fetch with
  | plain table columns arguments =>
    refine (scan_present table arguments.filter).bind fun rows _ known => projected ?_
    exact fun row present => known (mem_sortRows.mp (mem_of_mem_taken present))
  | windowed table columns arguments window =>
    refine (scan_present table arguments.filter).bind fun rows _ known => projected ?_
    exact fun row present =>
      known (mem_sortRows.mp ((firstOfEach_sublist window [] _).subset present))

namespace Plan

variable {plan : Plan} (filled : ∀ row ∈ store.rowsOf plan.table, holds plan.columns row)

include filled

theorem fetchRows_present (size : Option Nat) :
    Yields (fun set => set.columns = plan.columns) (fun e => e.isMissingColumn = false)
      (plan.fetchRows store.connector size) := by
  unfold fetchRows
  split
  · exact fetch_present (.plain plan.table plan.columns plan.arguments) filled
  · rename_i join joined
    have each : FailsOnly (fun e => e.isMissingColumn = false)
        ((plan.fetches size).mapM store.connector.rows) := by
      refine FailsOnly.mapM fun fetch issued => (fetch_present fetch ?_).failsOnly
      rw [columnsOf_of_mem_fetches issued]
      rw [fetches_eq joined] at issued
      obtain ⟨chunk, -, rfl⟩ := List.mem_map.mp issued
      rw [fetchOf_table]
      exact filled
    refine (Yields.of_failsOnly each).bind fun sets _ _ => .ok ?_
    rw [RowSet.empty, RowSet.foldl_extend]

omit filled in
theorem fetchCounts_present (size : Option Nat) :
    FailsOnly (fun e => e.isMissingColumn = false) (plan.fetchCounts store.connector size) := by
  unfold fetchCounts
  split
  · split
    · exact FailsOnly.map _ (FailsOnly.map _ (scan_present _ _).failsOnly)
    · refine FailsOnly.bind (FailsOnly.mapM fun filter _ => ?_) fun _ _ => ok _
      exact (scan_present _ _).failsOnly.bind fun _ _ => ok _
  · exact ok _

/-- A plan for columns that every row of its table has fails in other ways only. -/
theorem execute_present (covered : plan.Covered) (size : Option Nat) :
    FailsOnly (fun e => e.isMissingColumn = false) (plan.execute store.connector size) := by
  have counts : FailsOnly (fun e => e.isMissingColumn = false)
      (plan.fetchCounts store.connector size) := fetchCounts_present size
  have yields : Yields (fun _ => True) (fun e => e.isMissingColumn = false)
      (plan.execute store.connector size) := by
    refine ((fetchRows_present filled size).mapError fun _ other => other).bind fun set _ same =>
      ((Yields.of_failsOnly counts).mapError fun _ other => other).bind fun tally _ _ => ?_
    rw [recordsOf_eq covered fun column present => same ▸ present]
    exact .ok trivial
  exact yields.failsOnly

end Plan

end Reads

/-! ### Levels -/

section Levels

variable {declared : Declarations} {schema : Schema} {store : Memory} {size : Option Nat}

theorem ResolveError.isMissingColumn_of_isMismatch {e : ResolveError} (mismatch : e.isMismatch) :
    e.isMissingColumn = false := by
  cases e <;> first | rfl | cases mismatch

theorem checkOrders_present (position : Path) (targets : List Target) :
    FailsOnly (fun e => e.isMissingColumn = false) (checkOrders position targets) :=
  (checkOrders_diverges position targets).mono fun _ ⟨_, same⟩ => same ▸ rfl

/-- The records of a task have the columns that join them to their children. -/
theorem planChildren_present {task : Task} {output : Output}
    (joinable : Joinable task.target output) :
    FailsOnly (fun e => e.isMissingColumn = false) (planChildren task output) := by
  refine planChildren_failsOnly fun link linked => planLink_failsOnly ?_ (checkOrders_present _ _)
  obtain ⟨f, asked, linked⟩ := Target.mem_links.mp linked
  rw [joinKeys_eq_ok.mpr ⟨joinable f asked link linked, rfl⟩]
  exact ok _

/-- The rows of a table have the columns that a task asks for. -/
theorem Task.Supplied.holds {task : Task} (supplied : task.Supplied schema)
    (fills : schema.Fills store) :
    ∀ row ∈ store.rowsOf task.plan.table, Memory.holds task.plan.columns row :=
  fun row present => List.all_eq_true.mpr fun column asked =>
    fills _ _ (supplied.mentioned column asked) row present

/-- No column is missed on a level or below it, by induction on the height of the level. -/
theorem resolveLevel_present (shape : Schema.Shape declared schema) (fills : schema.Fills store)
    {completion : Completion} (every : completion.Complete) (depth : Nat) {tasks : List Task}
    (supplied : ∀ task ∈ tasks, task.Supplied schema) :
    FailsOnly (fun e => e.isMissingColumn = false)
      (resolveLevel store.connector size completion depth tasks).outcome := by
  fun_induction resolveLevel store.connector size completion depth tasks with
  | case1 depth => exact ok []
  | case2 depth tasks some_task e failed =>
    have each : FailsOnly (fun e => e.isMissingColumn = false)
        (executeLevel store.connector size (completion depth tasks.length) tasks) :=
      executeLevel_failsOnly (fun task present => Plan.execute_present
        ((supplied task present).holds fills) (supplied task present).planned.covered size) _
    exact error (each e failed)
  | case3 depth tasks some_task outputs done e failed =>
    have read := executeLevel_toOption store.connector size (every depth tasks.length)
    rw [done] at read
    have each : FailsOnly (fun e => e.isMissingColumn = false) (planLevel 0 (tasks.zip outputs)) :=
      planLevel_failsOnly 0 fun entry present => planChildren_present <|
        (supplied entry.1 (List.of_mem_zip present).1).planned.joinable store size
          (eq_some_of_mem_zip read.symm present)
    exact error (each e failed)
  | case4 depth tasks some_task outputs done children planned below ih =>
    refine (ih fun child present => ?_).bind fun found _ =>
      (assembleLevel_mismatches _ _ _).mono fun _ => ResolveError.isMissingColumn_of_isMismatch
    rw [(planLevel_eq_ok planned).2] at present
    obtain ⟨entry, executed, own⟩ := List.mem_flatMap.mp present
    exact Task.supplied_child shape (supplied entry.1 (List.of_mem_zip executed).1) own

/-- **No column is missed** by the reads of a query, in whatever order they complete. -/
theorem resolveReads_present (shape : Schema.Shape declared schema) (fills : schema.Fills store)
    {completion : Completion} (every : completion.Complete) {root : Selection}
    {reads : List RootRead} (done : root.rootReads schema = .ok reads) :
    FailsOnly (fun e => e.isMissingColumn = false)
      (resolveReads store.connector size completion reads).outcome := by
  unfold resolveReads
  split
  · rename_i e failed
    have each : FailsOnly (fun e => e.isMissingColumn = false) (reads.mapM RootRead.tasks) :=
      FailsOnly.mapM fun read _ => (checkOrders_present _ _).bind fun _ _ => ok _
    exact error (each e failed)
  · rename_i tasks planned
    refine (resolveLevel_present shape fills every 0 fun task present => ?_).bind fun outputs _ =>
      (((rootAnswers_mismatches reads outputs).mono
        fun _ => ResolveError.isMissingColumn_of_isMismatch).bind fun _ _ => ok _)
    obtain ⟨read, asked, target, reached, rfl⟩ := exists_of_mem_tasks planned present
    exact Task.supplied_root shape done asked reached

end Levels

end GraphRead
