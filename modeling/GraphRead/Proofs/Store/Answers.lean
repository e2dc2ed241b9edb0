import GraphRead.Proofs.Store.Sorting
import GraphRead.Proofs.Success
import GraphRead.Resolve.Execute
/-!
What a store in memory answers.

A read of a table that can be read goes through four steps: the rows that pass the filter, sorted,
cut, and each of them made a record. Only the last step can fail, namely if a row lacks a column
(`Plan.readRow`). Of the rows that a plan makes records of, the record shows the values under the
columns of the plan, and its sort key and parent key are values of the row (`Plan.recordFor`).
-/

namespace GraphRead

open Success

/-- The first items of a list if there is a limit, else all of them. -/
def taken {α : Type} (limit : Option Nat) (items : List α) : List α :=
  match limit with
  | some n => items.take n
  | none => items

namespace Memory

/-- The rows of a table that can be read. -/
def table? (store : Memory) (table : String) : Option (List Row) :=
  if store.failing.contains table then none else Keyed.get? store.tables table

@[simp] theorem connector_rows (store : Memory) : store.connector.rows = store.fetch := rfl

@[simp] theorem connector_count (store : Memory) : store.connector.count = store.count := rfl

@[simp] theorem connector_grouped (store : Memory) : store.connector.grouped = store.grouped := rfl

theorem scan_toOption (store : Memory) (table : String) (filter : Filter) :
    (store.scan table filter).toOption =
      (store.table? table).map (List.filter filter.matches) := by
  unfold scan table?
  split
  · rfl
  · cases Keyed.get? store.tables table <;> rfl

/-- Whether a row has all of some columns. -/
def holds (columns : List String) (row : Row) : Bool := columns.all (Keyed.hasKey row)

theorem projectRow_toOption (columns : List String) (row : Row) :
    (projectRow columns row).toOption =
      if holds columns row then some (columns.map row.value) else none := by
  unfold projectRow holds
  rw [toOption_mapM]
  split
  · rename_i all
    refine mapM_eq_some.mpr ?_
    rw [List.map_map]
    refine List.map_congr_left fun column present => ?_
    have here := List.all_eq_true.mp all column present
    rw [Keyed.hasKey] at here
    rw [Function.comp_apply, Row.value]
    cases found : Keyed.get? row column with
    | none => rw [found] at here; cases here
    | some v => rfl
  · rename_i missing
    rw [← Option.not_isSome_iff_eq_none, isSome_mapM]
    intro all
    refine missing (List.all_eq_true.mpr fun column present => ?_)
    have here := all column present
    rw [Keyed.hasKey]
    cases found : Keyed.get? row column with
    | none => rw [found] at here; cases here
    | some v => rfl

/-- The values of a row under some columns, if it has them all. -/
def valuesOf? (columns : List String) (row : Row) : Option (List Value) :=
  (projectRow columns row).toOption

theorem project_toOption (columns : List String) (rows : List Row) :
    (project columns rows).toOption =
      (rows.mapM (valuesOf? columns)).map (RowSet.mk columns) := by
  rw [project, toOption_map, toOption_mapM]
  rfl

/-- The rows of a fetch, in their order. -/
def chosen (rows : List Row) : Fetch → List Row
  | .plain _ _ arguments =>
    taken arguments.take (sortRows arguments.order (rows.filter arguments.filter.matches))
  | .windowed _ _ arguments window =>
    firstOfEach window [] (sortRows arguments.order (rows.filter arguments.filter.matches))

theorem mem_of_mem_taken {α : Type} {limit : Option Nat} {items : List α} {a : α}
    (present : a ∈ taken limit items) : a ∈ items := by
  cases limit with
  | none => exact present
  | some n => exact List.mem_of_mem_take present

theorem mem_sortRows {order : Order} {rows : List Row} {row : Row} :
    row ∈ sortRows order rows ↔ row ∈ rows :=
  (List.mergeSort_perm _ _).mem_iff

/-- The rows of a fetch are rows of the table that pass its filter. -/
theorem mem_filter_of_mem_chosen {rows : List Row} {fetch : Fetch} {row : Row}
    (present : row ∈ chosen rows fetch) :
    row ∈ rows.filter (Read.rows fetch).filter.matches := by
  cases fetch with
  | plain table columns arguments => exact mem_sortRows.mp (mem_of_mem_taken present)
  | windowed table columns arguments window =>
    exact mem_sortRows.mp ((firstOfEach_sublist window [] _).subset present)

theorem matches_of_mem_chosen {rows : List Row} {fetch : Fetch} {row : Row}
    (present : row ∈ chosen rows fetch) : (Read.rows fetch).filter.matches row :=
  (List.mem_filter.mp (mem_filter_of_mem_chosen present)).2

/-- The columns of a fetch. -/
def columnsOf : Fetch → List String
  | .plain _ columns _ => columns
  | .windowed _ columns _ _ => columns

theorem fetch_toOption (store : Memory) (fetch : Fetch) :
    (store.fetch fetch).toOption = (store.table? fetch.table).bind fun rows =>
      ((chosen rows fetch).mapM (valuesOf? (columnsOf fetch))).map
        (RowSet.mk (columnsOf fetch)) := by
  cases fetch with
  | plain table columns arguments =>
    simp only [Memory.fetch, toOption_bind, scan_toOption, project_toOption, Fetch.table, chosen,
      columnsOf, Option.bind_map]
    rfl
  | windowed table columns arguments window =>
    simp only [Memory.fetch, toOption_bind, scan_toOption, project_toOption, Fetch.table, chosen,
      columnsOf, Option.bind_map]
    rfl

theorem count_toOption (store : Memory) (table : String) (filter : Filter) :
    (store.count table filter).toOption =
      (store.table? table).map (List.countP filter.matches) := by
  rw [count, toOption_map, scan_toOption, Option.map_map]
  refine congrArg (fun f => Option.map f _) (funext fun rows => ?_)
  rw [List.countP_eq_length_filter, Function.comp_apply]

/-- The groups of the rows that pass a filter, by the value of a column. -/
def groupsOf (rows : List Row) (filter : Filter) (column : String) : List (Value × Nat) :=
  (Value.groups ((rows.filter filter.matches).map fun row => row.value column)).mergeSort
    fun l r => compare l.1 r.1 != .gt

theorem grouped_toOption (store : Memory) (table : String) (filter : Filter) (column : String) :
    (store.grouped table filter column).toOption =
      (store.table? table).map fun rows => groupsOf rows filter column := by
  rw [grouped, toOption_bind, scan_toOption]
  cases store.table? table <;> rfl

end Memory

theorem RowSet.foldl_extend (columns : List String) (before : List (List Value))
    (sets : List RowSet) :
    sets.foldl extend ⟨columns, before⟩ = ⟨columns, before ++ sets.flatMap rows⟩ := by
  induction sets generalizing before with
  | nil => rw [List.flatMap_nil, List.append_nil]; rfl
  | cons set rest ih =>
    rw [List.foldl_cons, List.flatMap_cons, ← List.append_assoc]
    exact ih (before ++ set.rows)

/-! ### The records of a plan -/

namespace Plan

/-- What a plan sorts by and joins on is among the columns that it asks for. -/
structure Covered (plan : Plan) : Prop where
  sorted : ∀ listing, plan.listing = some listing → ∀ c ∈ listing.order.columns, c ∈ plan.columns
  joined : ∀ join, plan.join = some join → join.column ∈ plan.columns

theorem compile_covered (target : Target) (filter : Filter) (join : Option Join)
    (take : Option Nat) : (compile target filter join take).Covered where
  sorted := by
    intro listing same c present
    have same : target.connection?.map Listing.ofConnection = some listing := same
    simp only [compile, requiredColumns, List.mem_eraseDups, same, Option.map_some,
      Option.getD_some]
    exact List.mem_append_right _ present
  joined := by
    intro own same
    have same : join = some own := same
    simp [compile, requiredColumns, List.mem_eraseDups, same]

/-- The columns that the records of a plan are sorted by. -/
def sortColumns (plan : Plan) : List String :=
  (plan.listing.map fun listing => listing.order.columns).getD []

/-- The record that a plan makes of a row. -/
def recordFor (plan : Plan) (row : Row) : Fetched :=
  { record :=
      { type := plan.type
        columns := plan.columns
        values := plan.columns.map row.value
        cursor := plan.listing.bind fun listing =>
          cursorOf plan.type.name listing (plan.sortColumns.map row.value)
        links := [] }
    sortKey := plan.sortColumns.map row.value
    parentKey := plan.join.map fun join => row.value join.column }

/-- The record that a plan makes of a row, if the row has all columns. -/
def readRow (plan : Plan) (row : Row) : Option Fetched :=
  if Memory.holds plan.columns row then some (plan.recordFor row) else none

theorem mem_of_mapM_readRow {plan : Plan} {rows : List Row} {records : List Fetched}
    (done : rows.mapM plan.readRow = some records) :
    ∀ r ∈ records, ∃ row ∈ rows, r = plan.recordFor row := by
  intro r present
  obtain ⟨row, known, read⟩ := exists_of_mem_mapM done present
  refine ⟨row, known, ?_⟩
  unfold readRow at read
  split at read
  · exact (Option.some.inj read).symm
  · cases read

theorem idxOf?_of_mem {columns : List String} {c : String} (present : c ∈ columns) :
    columns.idxOf? c = some (columns.idxOf c) :=
  List.findIdx?_eq_some_iff_findIdx_eq.mpr ⟨List.idxOf_lt_length_of_mem present, rfl⟩

/-- The value of a column stands where the column does. -/
theorem getElem?_idxOf {columns : List String} {c : String} (present : c ∈ columns) (row : Row) :
    (columns.map row.value)[columns.idxOf c]? = some (row.value c) := by
  have within := List.idxOf_lt_length_of_mem present
  rw [List.getElem?_map, List.getElem?_eq_getElem within, List.getElem_idxOf within,
    Option.map_some]

theorem valueAt_idxOf {columns : List String} {c : String} (present : c ∈ columns) (row : Row) :
    valueAt (columns.map row.value) (columns.idxOf c) = row.value c := by
  rw [valueAt, getElem?_idxOf present, Option.getD_some]

/-- A record shows the values of its row. -/
theorem get?_recordFor {plan : Plan} {c : String} (present : c ∈ plan.columns) (row : Row) :
    (plan.recordFor row).record.get? c = some (row.value c) := by
  show (plan.columns.idxOf? c).bind (fun i => (plan.columns.map row.value)[i]?) = _
  rw [idxOf?_of_mem present, Option.bind_some, getElem?_idxOf present]

theorem require_of_mem (set : RowSet) {c : String} (type : String) (present : c ∈ set.columns) :
    set.require type c = .ok (set.columns.idxOf c) := by
  rw [RowSet.require, RowSet.index?, idxOf?_of_mem present]

theorem mapM_require (set : RowSet) {columns : List String} (type : String)
    (present : ∀ c ∈ columns, c ∈ set.columns) :
    columns.mapM (set.require type) = .ok (columns.map set.columns.idxOf) := by
  rw [← toOption_eq_some, toOption_mapM]
  refine mapM_eq_some.mpr ?_
  rw [List.map_map]
  refine List.map_congr_left fun c known => ?_
  rw [require_of_mem set type (present c known)]
  rfl

theorem Covered.sortColumns {plan : Plan} (covered : plan.Covered) :
    ∀ c ∈ plan.sortColumns, c ∈ plan.columns := by
  intro c present
  unfold Plan.sortColumns at present
  cases same : plan.listing with
  | none => rw [same] at present; cases present
  | some listing => rw [same] at present; exact covered.sorted listing same c present

/-- The record of some values under some columns. -/
def recordUnder (plan : Plan) (columns : List String) : List Value → Fetched :=
  plan.recordOf columns (plan.sortColumns.map columns.idxOf)
    (plan.join.map fun join => columns.idxOf join.column)

/-- Rows with the columns of a plan among theirs are made records. -/
theorem recordsOf_eq {plan : Plan} (covered : plan.Covered) {set : RowSet}
    (within : ∀ c ∈ plan.columns, c ∈ set.columns) :
    plan.recordsOf set = .ok (set.rows.map (plan.recordUnder set.columns)) := by
  have places := mapM_require set plan.type.name fun c sorted =>
    within c (covered.sortColumns c sorted)
  have place : (plan.join.mapM fun join => set.require plan.type.name join.column) =
      .ok (plan.join.map fun join => set.columns.idxOf join.column) := by
    cases same : plan.join with
    | none => rfl
    | some join =>
      simp only [Option.mapM_some, Option.map_some,
        require_of_mem set plan.type.name (within _ (covered.joined join same))]
      rfl
  unfold recordsOf
  rw [show (plan.listing.map fun l => l.order.columns).getD [] = plan.sortColumns from rfl]
  simp only [places, place]
  rfl

/-- The values of a row are made the record of the row. -/
theorem recordUnder_row {plan : Plan} (covered : plan.Covered) (row : Row) :
    plan.recordUnder plan.columns (plan.columns.map row.value) = plan.recordFor row := by
  have sorted : (plan.sortColumns.map plan.columns.idxOf).map
      (valueAt (plan.columns.map row.value)) = plan.sortColumns.map row.value := by
    rw [List.map_map]
    exact List.map_congr_left fun c present => valueAt_idxOf (covered.sortColumns c present) row
  have joined : (plan.join.map fun join => plan.columns.idxOf join.column).map
      (valueAt (plan.columns.map row.value)) = plan.join.map fun join => row.value join.column := by
    cases same : plan.join with
    | none => rfl
    | some join => exact congrArg some (valueAt_idxOf (covered.joined join same) row)
  rw [recordUnder, recordOf, recordFor, sorted, joined]

/-- The records of the rows that were fetched. -/
theorem rows_bind_recordsOf {plan : Plan} (covered : plan.Covered) (rows : List Row) :
    (((rows.mapM (Memory.valuesOf? plan.columns)).map (RowSet.mk plan.columns)).bind fun set =>
      (plan.recordsOf set).toOption) = rows.mapM plan.readRow := by
  have each : rows.mapM plan.readRow =
      rows.mapM fun row =>
        (Memory.valuesOf? plan.columns row).map (plan.recordUnder plan.columns) := by
    refine mapM_congr fun row _ => ?_
    rw [readRow, Memory.valuesOf?, Memory.projectRow_toOption]
    split
    · exact congrArg some (recordUnder_row covered row).symm
    · rfl
  rw [each, ← mapM_map_result]
  cases rows.mapM (Memory.valuesOf? plan.columns) with
  | none => rfl
  | some found =>
    exact toOption_eq_some.mpr (recordsOf_eq covered (fun _ present => present))

end Plan

end GraphRead
