import GraphRead.Proofs.Filter.Matches
import GraphRead.Proofs.Success
import GraphRead.Resolve.Execute
import GraphRead.Store.Memory
/-!
Rows outside the scope of the types, and the reads that cannot see them.

Two stores that only differ in rows outside the scope of every type of a table answer a read alike
if its filter includes a scope (`Alike.of_sameInScope`). The filter of a plan does, since it starts
with the scope of the type, and whatever is added to it narrows it further: the seek, the keys of
parents, in one piece or in chunks (`Plan.fetches_scoped`, `Plan.groupFilters_scoped`). The limits
and windows of a store apply to the rows that have passed the filter.
-/

namespace GraphRead

/-! ### Scopes -/

namespace Schema

/-- Whether a row of a table passes the scope of a type that reads from the table. -/
def inScope (schema : Schema) (table : String) (row : Row) : Bool :=
  (Keyed.values schema.types).any fun type => type.table = table && type.scope.matches row

/-- Two stores have the same tables, and in each of them the same rows as far as these are in
scope. Reads of the same tables fail. -/
structure SameInScope (schema : Schema) (left right : Memory) : Prop where
  failing : ∀ table, left.failing.contains table = right.failing.contains table
  rows : ∀ table,
    (Keyed.get? left.tables table).map (List.filter (schema.inScope table)) =
      (Keyed.get? right.tables table).map (List.filter (schema.inScope table))

/-- Only rows in scope pass the filter. -/
def Scoped (schema : Schema) (table : String) (filter : Filter) : Prop :=
  ∀ row, filter.matches row → schema.inScope table row

/-- Two stores answer every read alike that only asks for rows in scope. -/
structure Alike (schema : Schema) (left right : Connector) : Prop where
  rows : ∀ fetch, schema.Scoped fetch.table (Read.rows fetch).filter →
    left.rows fetch = right.rows fetch
  count : ∀ table filter, schema.Scoped table filter →
    left.count table filter = right.count table filter
  grouped : ∀ table filter column, schema.Scoped table filter →
    left.grouped table filter column = right.grouped table filter column

variable {schema : Schema} {left right : Memory}

/-- The rows that pass a scoped filter are the same in both stores. -/
theorem SameInScope.scan_eq (same : schema.SameInScope left right) {table : String}
    {filter : Filter} (guarded : schema.Scoped table filter) :
    left.scan table filter = right.scan table filter := by
  have narrowed (rows : List Row) :
      rows.filter filter.matches = (rows.filter (schema.inScope table)).filter filter.matches := by
    rw [List.filter_filter]
    refine List.filter_congr fun row _ => ?_
    cases passes : filter.matches row with
    | false => rfl
    | true => rw [guarded row passes]; rfl
  have rows := same.rows table
  unfold Memory.scan
  rw [same.failing table]
  split
  · rfl
  · cases here : Keyed.get? left.tables table with
    | none =>
      cases there : Keyed.get? right.tables table with
      | none => rfl
      | some others =>
        rw [here, there] at rows
        cases rows
    | some own =>
      cases there : Keyed.get? right.tables table with
      | none =>
        rw [here, there] at rows
        cases rows
      | some others =>
        rw [here, there] at rows
        refine congrArg Except.ok ?_
        rw [narrowed own, Option.some.inj rows, ← narrowed others]

theorem Alike.of_sameInScope (same : schema.SameInScope left right) :
    schema.Alike left.connector right.connector where
  rows fetch guarded := by
    cases fetch with
    | plain table columns arguments =>
      have scan : left.scan table arguments.filter = right.scan table arguments.filter :=
        same.scan_eq guarded
      simp only [Memory.connector, Memory.fetch, scan]
    | windowed table columns arguments window =>
      have scan : left.scan table arguments.filter = right.scan table arguments.filter :=
        same.scan_eq guarded
      simp only [Memory.connector, Memory.fetch, scan]
  count table filter guarded := by
    simp only [Memory.connector, Memory.count, same.scan_eq guarded]
  grouped table filter column guarded := by
    simp only [Memory.connector, Memory.grouped, same.scan_eq guarded]

/-- A filter that is narrowed stays scoped. -/
theorem Scoped.narrow {table : String} {filter : Filter} (guarded : schema.Scoped table filter)
    (more : Filter) : schema.Scoped table (.allOf [filter, more]) := by
  intro row passes
  rw [Filter.matches_pair, Bool.and_eq_true] at passes
  exact guarded row passes.1

/-- The answer to a scoped read is the same. -/
theorem Alike.reply {left right : Connector} (alike : schema.Alike left right) {read : Read}
    (guarded : schema.Scoped read.table read.filter) : left.reply read = right.reply read := by
  cases read with
  | rows fetch => rw [Connector.reply, Connector.reply, alike.rows fetch guarded]
  | count table filter => rw [Connector.reply, Connector.reply, alike.count table filter guarded]
  | grouped table filter column =>
    rw [Connector.reply, Connector.reply, alike.grouped table filter column guarded]

end Schema

/-! ### The reads of a plan -/

namespace Plan

/-- A plan only asks for rows in scope. -/
def Scoped (schema : Schema) (plan : Plan) : Prop := schema.Scoped plan.table plan.filter

variable {schema : Schema} {plan : Plan}

/-- The plan of a target of a declared type starts from the scope of the type. -/
theorem compile_scoped {target : Target} (declared : target.type ∈ Keyed.values schema.types)
    (filter : Filter) (join : Option Join) (take : Option Nat) :
    (compile target filter join take).Scoped schema := by
  intro row passes
  have passes : (Filter.allOf [target.type.scope, filter]).matches row := passes
  rw [Filter.matches_pair, Bool.and_eq_true] at passes
  refine List.any_eq_true.mpr ⟨target.type, declared, ?_⟩
  rw [Bool.and_eq_true]
  exact ⟨decide_eq_true rfl, passes.1⟩

theorem fetchFilter_scoped (guarded : plan.Scoped schema) :
    schema.Scoped plan.table plan.fetchFilter := by
  unfold fetchFilter
  split
  · rename_i seek _
    exact Schema.Scoped.narrow guarded seek
  · exact guarded

theorem fetchOf_scoped {join : Join} {arguments : ReadArguments} {keys : List Value}
    (guarded : schema.Scoped plan.table arguments.filter) :
    schema.Scoped (plan.fetchOf join arguments keys).table
      (Read.rows (plan.fetchOf join arguments keys)).filter := by
  unfold fetchOf
  split
  · split
    · exact guarded
    · exact guarded
  · exact guarded

/-- Every fetch of a plan, joined or not, in one piece or in chunks, is scoped. -/
theorem fetches_scoped (guarded : plan.Scoped schema) (size : Option Nat) :
    ∀ fetch ∈ plan.fetches size, schema.Scoped fetch.table (Read.rows fetch).filter := by
  have narrowed := fetchFilter_scoped guarded
  intro fetch present
  unfold fetches at present
  split at present
  · rw [List.mem_singleton.mp present]
    exact narrowed
  · rename_i join joined
    dsimp only at present
    rw [ReadArguments.batched, List.zipWith_map_left, List.zipWith_self] at present
    obtain ⟨chunk, -, rfl⟩ := List.mem_map.mp present
    exact fetchOf_scoped (narrowed.narrow _)

/-- Every count by parent is scoped. -/
theorem groupFilters_scoped (guarded : plan.Scoped schema) (join : Join) (size : Option Nat) :
    ∀ filter ∈ plan.groupFilters join size, schema.Scoped plan.table filter := by
  intro filter present
  obtain ⟨chunk, -, rfl⟩ := List.mem_map.mp present
  exact Schema.Scoped.narrow guarded _

/-- Every read of a plan is scoped. -/
theorem reads_scoped (guarded : plan.Scoped schema) (size : Option Nat) :
    ∀ read ∈ plan.reads size, schema.Scoped read.table read.filter := by
  intro read present
  rcases List.mem_append.mp present with fetched | counted
  · obtain ⟨fetch, known, rfl⟩ := List.mem_map.mp fetched
    exact fetches_scoped guarded size fetch known
  · split at counted
    · split at counted
      · rw [List.mem_singleton.mp counted]
        exact guarded
      · obtain ⟨filter, known, rfl⟩ := List.mem_map.mp counted
        exact groupFilters_scoped guarded _ size filter known
    · cases counted

variable {left right : Connector} (alike : schema.Alike left right)

include alike

/-- A plan yields the same from stores that are alike. -/
theorem execute_alike (guarded : plan.Scoped schema) (size : Option Nat) :
    plan.execute left size = plan.execute right size := by
  have rows : plan.fetchRows left size = plan.fetchRows right size := by
    have each := fetches_scoped guarded size
    have all : (plan.fetches size).mapM left.rows = (plan.fetches size).mapM right.rows :=
      Success.mapM_congr fun fetch present => alike.rows fetch (each fetch present)
    unfold fetchRows
    split
    · exact alike.rows _ (fetchFilter_scoped guarded)
    · rw [all]
  have counts : plan.fetchCounts left size = plan.fetchCounts right size := by
    unfold fetchCounts
    split
    · split
      · rw [alike.count _ _ guarded]
      · rename_i join _
        rw [Success.mapM_congr fun filter present => alike.grouped plan.table filter join.column
          (groupFilters_scoped guarded join size filter present)]
    · rfl
  rw [execute, execute, rows, counts]

end Plan

end GraphRead
