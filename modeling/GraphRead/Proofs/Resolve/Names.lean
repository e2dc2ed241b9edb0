import GraphRead.Proofs.PerParent.Read
import Mathlib.Data.List.Forall2
/-!
Which values the records of a plan have under the names of the columns.

A data store may return the columns that it is asked for in any order, and further ones. The records
of a plan without a join keep the names that were returned with the rows. Those of a joined plan
have the names that were asked for, whatever the batches say, so they show what was returned exactly
if each column stands, in every row, where it was asked for (`execute_readsByName_iff`).
-/

namespace GraphRead

open Success

/-- A row that a data store has returned, with the names of its columns. -/
structure NamedRow where
  columns : List String
  values : List Value

namespace NamedRow

/-- The value that was returned under a name. -/
def value? (row : NamedRow) (c : String) : Option Value :=
  (row.columns.idxOf? c).bind fun i => row.values[i]?

/-- The value that was returned under a name, or null. -/
def value (row : NamedRow) (c : String) : Value := (row.value? c).getD .null

/-- What was returned under the names of some columns stands in the order of these columns, in front
of everything else. -/
def Aligned (columns : List String) (row : NamedRow) : Prop :=
  ∀ c ∈ columns, row.values[columns.idxOf c]? = row.value? c

theorem value?_of_mem {row : NamedRow} {c : String} (present : c ∈ row.columns) :
    row.value? c = row.values[row.columns.idxOf c]? := by
  rw [value?, Plan.idxOf?_of_mem present, Option.bind_some]

/-- A row is aligned if its columns start with those that are asked for. -/
theorem aligned_of_prefix {columns : List String} {row : NamedRow}
    (starts : columns <+: row.columns) : row.Aligned columns := by
  obtain ⟨further, same⟩ := starts
  intro c present
  have there : c ∈ row.columns := same ▸ List.mem_append_left further present
  rw [value?_of_mem there, ← same, List.idxOf_append_of_mem present]

end NamedRow

/-- A data store returns the columns that it is asked for, in any order and with any others between
them, and in each row a value for every column. -/
structure Connector.Conforms (connector : Connector) : Prop where
  columns : ∀ fetch set, connector.rows fetch = .ok set →
    ∀ c ∈ Memory.columnsOf fetch, c ∈ set.columns
  rows : ∀ fetch set, connector.rows fetch = .ok set →
    ∀ row ∈ set.rows, row.length = set.columns.length

/-- The rows that a data store returns to a request. -/
def Connector.named (connector : Connector) (fetch : Fetch) : List NamedRow :=
  match connector.rows fetch with
  | .ok set => set.rows.map (NamedRow.mk set.columns)
  | .error _ => []

theorem Connector.named_of_ok {connector : Connector} {fetch : Fetch} {set : RowSet}
    (answered : connector.rows fetch = .ok set) :
    connector.named fetch = set.rows.map (NamedRow.mk set.columns) := by
  rw [named, answered]

/-- A conforming data store has a value under every column that it is asked for. -/
theorem Connector.Conforms.value?_isSome {connector : Connector} (conforms : connector.Conforms)
    {fetch : Fetch} {row : NamedRow} (returned : row ∈ connector.named fetch) {c : String}
    (asked : c ∈ Memory.columnsOf fetch) : c ∈ row.columns ∧ ∃ v, row.value? c = some v := by
  cases answered : connector.rows fetch with
  | error e =>
    rw [named, answered] at returned
    cases returned
  | ok set =>
    rw [named_of_ok answered] at returned
    obtain ⟨values, known, rfl⟩ := List.mem_map.mp returned
    have there := conforms.columns fetch set answered c asked
    have within : set.columns.idxOf c < values.length := by
      rw [conforms.rows fetch set answered values known]
      exact List.idxOf_lt_length_of_mem there
    exact ⟨there, values[set.columns.idxOf c], by
      rw [NamedRow.value?_of_mem there, List.getElem?_eq_getElem within]⟩

namespace Plan

variable {plan : Plan}

/-- A record shows, under the columns of a plan, what was returned under these names, and is placed
in its list and below its parent by these values. -/
structure ReadsByName (plan : Plan) (r : Fetched) (row : NamedRow) : Prop where
  record : ∀ c ∈ plan.columns, ∃ v, row.value? c = some v ∧ r.record.get? c = some v
  sortKey : r.sortKey = plan.sortColumns.map row.value
  parentKey : r.parentKey = plan.join.map fun join => row.value join.column
  cursor : r.record.cursor = plan.listing.bind fun listing =>
    cursorOf plan.type.name listing (plan.sortColumns.map row.value)

/-- The rows that a data store returns to the requests of a plan. -/
def returned (plan : Plan) (connector : Connector) (size : Option Nat) : List NamedRow :=
  (plan.fetches size).flatMap connector.named

/-- The record of some values under some columns shows what was returned exactly if the columns have
their values there. -/
theorem readsByName_recordUnder_iff (covered : plan.Covered) {columns : List String}
    (within : ∀ c ∈ plan.columns, c ∈ columns) {row : NamedRow}
    (complete : ∀ c ∈ plan.columns, ∃ v, row.value? c = some v) :
    plan.ReadsByName (plan.recordUnder columns row.values) row ↔
      ∀ c ∈ plan.columns, row.values[columns.idxOf c]? = row.value? c := by
  have shown (c : String) (present : c ∈ plan.columns) :
      (plan.recordUnder columns row.values).record.get? c = row.values[columns.idxOf c]? := by
    show (columns.idxOf? c).bind _ = _
    rw [idxOf?_of_mem (within c present), Option.bind_some]
    rfl
  constructor
  · intro reads c present
    obtain ⟨v, returned, got⟩ := reads.record c present
    rw [← shown c present, got, returned]
  · intro same
    have value (c : String) (present : c ∈ plan.columns) :
        valueAt row.values (columns.idxOf c) = row.value c := by
      rw [valueAt, same c present, NamedRow.value]
    have sorted : (plan.sortColumns.map columns.idxOf).map (valueAt row.values) =
        plan.sortColumns.map row.value := by
      rw [List.map_map]
      exact List.map_congr_left fun c known => value c (covered.sortColumns c known)
    refine ⟨fun c present => ?_, sorted, ?_, ?_⟩
    · obtain ⟨v, returned⟩ := complete c present
      exact ⟨v, returned, by rw [shown c present, same c present, returned]⟩
    · show (plan.join.map _).map _ = _
      cases joined : plan.join with
      | none => rfl
      | some join => exact congrArg some (value _ (covered.joined join joined))
    · show plan.listing.bind (fun listing => cursorOf plan.type.name listing
        ((plan.sortColumns.map columns.idxOf).map (valueAt row.values))) = _
      rw [sorted]

/-! ### What is read if every read is answered -/

variable {connector : Connector} {size : Option Nat}

theorem columnsOf_of_mem_fetches {fetch : Fetch} (issued : fetch ∈ plan.fetches size) :
    Memory.columnsOf fetch = plan.columns := by
  cases joined : plan.join with
  | none =>
    rw [fetches, joined] at issued
    rw [List.mem_singleton.mp issued]
    rfl
  | some join =>
    rw [fetches_eq joined] at issued
    obtain ⟨chunk, _, rfl⟩ := List.mem_map.mp issued
    exact fetchOf_columns _ _ _ _

/-- The rows that are returned to some requests, in one list. -/
theorem flatMap_named {fetches : List Fetch} {sets : List RowSet}
    (done : fetches.mapM connector.rows = .ok sets) :
    fetches.flatMap connector.named =
      sets.flatMap fun set => set.rows.map (NamedRow.mk set.columns) := by
  induction fetches generalizing sets with
  | nil =>
    cases done
    rfl
  | cons fetch rest ih =>
    rw [List.mapM_cons] at done
    obtain ⟨set, here, done⟩ := Fallible.bind_eq_ok.mp done
    obtain ⟨others, later, done⟩ := Fallible.bind_eq_ok.mp done
    cases done
    rw [List.flatMap_cons, List.flatMap_cons, ih later, Connector.named_of_ok here]

/-- The counts of a plan are taken if every read is answered. -/
theorem fetchCounts_of_answered (answered : ∀ read ∈ plan.reads size, read.answered connector) :
    ∃ tally, plan.fetchCounts connector size = .ok tally := by
  unfold fetchCounts
  by_cases counted : plan.counts
  · rw [if_pos counted]
    cases joined : plan.join with
    | none =>
      have asked : Read.count plan.table plan.filter ∈ plan.reads size := by
        simp [reads, counted, joined]
      obtain ⟨number, done⟩ := exists_of_isOk_map (answered _ asked)
      exact ⟨.total number, congrArg (Except.map Tally.total) done⟩
    | some join =>
      have each (filter : Filter) (present : filter ∈ plan.groupFilters join size) :
          ∃ counts, connector.grouped plan.table filter join.column = .ok counts := by
        refine exists_of_isOk_map (answered (.grouped plan.table filter join.column) ?_)
        simp [reads, counted, joined, present]
      obtain ⟨groups, done⟩ := exists_mapM_ok each
      refine ⟨.grouped (.ofList groups.flatten), ?_⟩
      dsimp only
      rw [done]
      rfl
  · exact ⟨.none, if_neg counted⟩

/-- The columns under which a plan puts a row: those that were asked for where there is a join, else
those that were returned with it. -/
def columnsFor (plan : Plan) (row : NamedRow) : List String :=
  if plan.join.isSome then plan.columns else row.columns

/-- A plan yields a record for every row that is returned, if every read is answered. -/
theorem execute_of_answered (covered : plan.Covered) (conforms : connector.Conforms)
    (answered : ∀ read ∈ plan.reads size, read.answered connector) :
    ∃ tally, plan.execute connector size = .ok ⟨(plan.returned connector size).map fun row =>
      plan.recordUnder (plan.columnsFor row) row.values, tally⟩ := by
  obtain ⟨tally, counts⟩ := fetchCounts_of_answered answered
  have each (fetch : Fetch) (issued : fetch ∈ plan.fetches size) :
      ∃ set, connector.rows fetch = .ok set :=
    exists_of_isOk_map (answered _ (List.mem_append_left _ (List.mem_map_of_mem issued)))
  refine ⟨tally, ?_⟩
  suffices found : ∃ set, plan.fetchRows connector size = .ok set ∧
      plan.recordsOf set = .ok ((plan.returned connector size).map fun row =>
        plan.recordUnder (plan.columnsFor row) row.values) by
    obtain ⟨set, rows, records⟩ := found
    exact Fallible.bind_eq_ok.mpr ⟨set, Fallible.mapError_eq_ok.mpr rows,
      Fallible.bind_eq_ok.mpr ⟨tally, Fallible.mapError_eq_ok.mpr counts,
        Fallible.bind_eq_ok.mpr ⟨_, Fallible.mapError_eq_ok.mpr records, rfl⟩⟩⟩
  unfold fetchRows returned columnsFor
  cases joined : plan.join with
  | none =>
    have only : plan.fetches size = [.plain plan.table plan.columns plan.arguments] := by
      rw [fetches, joined]
    obtain ⟨set, done⟩ := each _ (only ▸ List.mem_singleton_self _)
    refine ⟨set, done, ?_⟩
    rw [recordsOf_eq covered (conforms.columns _ set done), only, List.flatMap_singleton,
      Connector.named_of_ok done, List.map_map]
    rfl
  | some join =>
    obtain ⟨sets, done⟩ := exists_mapM_ok each
    refine ⟨⟨plan.columns, sets.flatMap RowSet.rows⟩, ?_, ?_⟩
    · dsimp only
      rw [done]
      exact congrArg Except.ok (RowSet.foldl_extend plan.columns [] sets)
    · rw [recordsOf_eq covered fun _ present => present, flatMap_named done, List.map_flatMap,
        List.map_flatMap]
      simp only [List.map_map]
      rfl

end Plan

/-- A plan that is made for a target yields records if every read is answered. They show what a
conforming data store has returned under the names of the columns, and are sorted and joined by it,
exactly if there is no join or every row has the columns where they were asked for. -/
theorem execute_readsByName_iff (connector : Connector) (conforms : connector.Conforms)
    (target : Target) (filter : Filter) (join : Option Join) (take size : Option Nat)
    (answered : ∀ read ∈ (Plan.compile target filter join take).reads size,
      read.answered connector) :
    let plan := Plan.compile target filter join take
    ∃ output, plan.execute connector size = .ok output ∧
      (List.Forall₂ plan.ReadsByName output.records (plan.returned connector size) ↔
        join = none ∨ ∀ row ∈ plan.returned connector size, row.Aligned plan.columns) := by
  intro plan
  have covered : plan.Covered := Plan.compile_covered target filter join take
  obtain ⟨tally, done⟩ := Plan.execute_of_answered covered conforms answered
  have complete (row : NamedRow) (returned : row ∈ plan.returned connector size) (c : String)
      (asked : c ∈ plan.columns) : c ∈ row.columns ∧ ∃ v, row.value? c = some v := by
    obtain ⟨fetch, issued, returned⟩ := List.mem_flatMap.mp returned
    refine conforms.value?_isSome returned ?_
    rw [Plan.columnsOf_of_mem_fetches issued]
    exact asked
  have each (row : NamedRow) (returned : row ∈ plan.returned connector size) :
      plan.ReadsByName (plan.recordUnder (plan.columnsFor row) row.values) row ↔
        ∀ c ∈ plan.columns, row.values[(plan.columnsFor row).idxOf c]? = row.value? c := by
    refine Plan.readsByName_recordUnder_iff covered (fun c asked => ?_)
      fun c asked => (complete row returned c asked).2
    unfold Plan.columnsFor
    split
    · exact asked
    · exact (complete row returned c asked).1
  refine ⟨_, done, ?_⟩
  rw [List.forall₂_map_left_iff, List.forall₂_same]
  have joins : plan.join = join := rfl
  cases join with
  | none =>
    refine iff_of_true (fun row returned => (each row returned).mpr fun c asked => ?_) (.inl rfl)
    exact (NamedRow.value?_of_mem (complete row returned c asked).1).symm
  | some join =>
    rw [or_iff_right (by rintro ⟨⟩)]
    exact forall₂_congr each

namespace Echo

/-- A data store that returns one row to each request, with the columns arranged in some way, and
the name of each column as the value under it. -/
def store (arrange : List String → List String) : Connector where
  rows fetch :=
    let columns := arrange (Memory.columnsOf fetch)
    .ok ⟨columns, [columns.map .string]⟩
  count _ _ := .ok 1
  grouped _ _ _ := .ok []

theorem conforms {arrange : List String → List String}
    (keeps : ∀ columns, ∀ c ∈ columns, c ∈ arrange columns) : (store arrange).Conforms where
  columns := by
    rintro fetch set ⟨⟩ c asked
    exact keeps _ c asked
  rows := by
    rintro fetch set ⟨⟩ row returned
    rw [List.mem_singleton.mp returned, List.length_map]

theorem answered (arrange : List String → List String) (read : Read) :
    read.answered (store arrange) := by
  cases read <;> rfl

def comments : Target := .field ⟨⟨"comment", "comments", "id", .always, []⟩, []⟩

/-- The comments of two posts, which are read in two batches. -/
def ofPosts : Option Join := some ⟨"post_id", [.int 1, .int 2]⟩

/-- Columns may come in the opposite order where there is no join, and further ones may follow where
there is one. -/
theorem execute_readsByName_comments :
    (∃ output, (Plan.compile comments .always none none).execute (store List.reverse) none =
        .ok output ∧
      List.Forall₂ (Plan.compile comments .always none none).ReadsByName output.records
        ((Plan.compile comments .always none none).returned (store List.reverse) none)) ∧
    ∃ output, (Plan.compile comments .always ofPosts none).execute (store (· ++ ["note"]))
        (some 1) = .ok output ∧
      List.Forall₂ (Plan.compile comments .always ofPosts none).ReadsByName output.records
        ((Plan.compile comments .always ofPosts none).returned (store (· ++ ["note"]))
          (some 1)) := by
  constructor
  · obtain ⟨output, done, reads⟩ := execute_readsByName_iff (store List.reverse)
      (conforms fun _ _ present => List.mem_reverse.mpr present) comments .always none none none
      fun read _ => answered _ read
    exact ⟨output, done, reads.mpr (.inl rfl)⟩
  · obtain ⟨output, done, reads⟩ := execute_readsByName_iff (store (· ++ ["note"]))
      (conforms fun _ _ present => List.mem_append_left _ present) comments .always ofPosts none
      (some 1) fun read _ => answered _ read
    refine ⟨output, done, reads.mpr (.inr fun row returned => NamedRow.aligned_of_prefix ?_)⟩
    obtain ⟨fetch, issued, returned⟩ := List.mem_flatMap.mp returned
    rw [List.mem_singleton.mp returned, ← Plan.columnsOf_of_mem_fetches issued]
    exact List.prefix_append _ _

/-- The columns of a joined plan come in the opposite order, and the records have the values of the
primary key and of the join column the wrong way round. -/
theorem execute_misreads_comments : (store List.reverse).Conforms ∧
    ∃ output, (Plan.compile comments .always ofPosts none).execute (store List.reverse) (some 1) =
        .ok output ∧
      ((Plan.compile comments .always ofPosts none).returned (store List.reverse) (some 1)).map
        (·.value? "id") = [some (.string "id"), some (.string "id")] ∧
      output.records.map (·.record.get? "id") =
        [some (.string "post_id"), some (.string "post_id")] ∧
      output.records.map Fetched.parentKey = [some (.string "id"), some (.string "id")] := by
  have lawful : (store List.reverse).Conforms :=
    conforms fun _ _ present => List.mem_reverse.mpr present
  obtain ⟨tally, done⟩ := Plan.execute_of_answered
    (Plan.compile_covered comments .always ofPosts none) lawful fun read _ => answered _ read
  have batches : Plan.keyChunks ⟨"post_id", [.int 1, .int 2]⟩ (some 1) =
      [[.int 1], [.int 2]] := by
    show chunks 1 _ = _
    simp [chunks]
  have rows : (Plan.compile comments .always ofPosts none).returned (store List.reverse) (some 1) =
      [⟨["post_id", "id"], [.string "post_id", .string "id"]⟩,
        ⟨["post_id", "id"], [.string "post_id", .string "id"]⟩] := by
    rw [Plan.returned, Plan.fetches_eq rfl, batches]
    rfl
  rw [rows] at done ⊢
  exact ⟨lawful, _, done, rfl, rfl, rfl⟩

end Echo

end GraphRead
