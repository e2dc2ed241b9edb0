import GraphRead.Proofs.PerParent.Basic
import GraphRead.Proofs.Store.Partitions
/-!
A joined plan and the plain reads for its parents.

A joined plan reads the children of many parents in chunks of their keys, and what it yields for
one key is what the plain read for that key yields: of the rows of a chunk, those of the key are the
rows that pass the filter and have the key, in the same order, cut at the same limit
(`filter_joinedRows`), and the groups count the same rows (`sumAt_joinedCounts`). So the whole
succeeds if the reads for all keys do, and shares out what they would have found (`Shares`).

* `execute_joined`, `readPlan_toOption` — what both sorts of reads make of the rows of a table.
-/

namespace GraphRead

open Success

/-! ### Chunks -/

/-- Only the chunk of a key contributes anything for it. -/
theorem flatMap_of_chunk {β : Type} {cut : List (List Value)} {k : Value} {f : List Value → List β}
    {own : List β} (differ : cut.flatten.Pairwise Value.Differ) (present : k ∈ cut.flatten)
    (here : ∀ chunk ∈ cut, k ∈ chunk → f chunk = own)
    (others : ∀ chunk ∈ cut, (∀ v ∈ chunk, v.Differ k) → f chunk = []) : cut.flatMap f = own := by
  induction cut with
  | nil => cases present
  | cons chunk rest ih =>
    rw [List.flatten_cons] at differ present
    obtain ⟨-, later, apart⟩ := List.pairwise_append.mp differ
    rw [List.flatMap_cons]
    rcases List.mem_append.mp present with mine | other
    · have nothing : rest.flatMap f = [] := by
        refine List.flatMap_eq_nil_iff.mpr fun c known => ?_
        refine others c (List.mem_cons_of_mem _ known) fun v there => ?_
        exact (apart k mine v (List.mem_flatten.mpr ⟨c, known, there⟩)).symm
      rw [here chunk List.mem_cons_self mine, nothing, List.append_nil]
    · rw [others chunk List.mem_cons_self fun v there => apart v there k other, List.nil_append]
      exact ih later other (fun c known => here c (List.mem_cons_of_mem _ known))
        fun c known => others c (List.mem_cons_of_mem _ known)

namespace Plan

open Memory PerParent

/-! ### The rows of a joined plan -/

/-- The arguments of the read for a chunk of keys. -/
def chunkArguments (plan : Plan) (join : Join) (chunk : List Value) : ReadArguments :=
  { plan.arguments with filter := .allOf [plan.fetchFilter, .among join.column chunk] }

/-- The rows that a table has for a chunk of keys. -/
def chunkRows (plan : Plan) (join : Join) (rows : List Row) (chunk : List Value) : List Row :=
  chosen rows (plan.fetchOf join (plan.chunkArguments join chunk) chunk)

/-- The chunks of the keys of a join. -/
def keyChunks (join : Join) (size : Option Nat) : List (List Value) :=
  chunks (chunkSize join size) join.keys

/-- The rows that a table has for all keys. -/
def joinedRows (plan : Plan) (join : Join) (size : Option Nat) (rows : List Row) : List Row :=
  (keyChunks join size).flatMap (plan.chunkRows join rows)

/-- The rows that a table has for one value of a column. -/
def rowsFor (plan : Plan) (column : String) (v : Value) (rows : List Row) : List Row :=
  taken plan.take
    (sortRows plan.arguments.order (rows.filter (only column v plan.fetchFilter).matches))

theorem fetches_eq {plan : Plan} {join : Join} (joined : plan.join = some join)
    (size : Option Nat) :
    plan.fetches size = (keyChunks join size).map fun chunk =>
      plan.fetchOf join (plan.chunkArguments join chunk) chunk := by
  unfold fetches
  rw [joined]
  simp only [ReadArguments.batched]
  rw [List.zipWith_map_left, List.zipWith_self]
  rfl

theorem fetchOf_table (plan : Plan) (join : Join) (arguments : ReadArguments)
    (keys : List Value) : (plan.fetchOf join arguments keys).table = plan.table := by
  unfold fetchOf
  split
  · split <;> rfl
  · rfl

theorem fetchOf_columns (plan : Plan) (join : Join) (arguments : ReadArguments)
    (keys : List Value) : columnsOf (plan.fetchOf join arguments keys) = plan.columns := by
  unfold fetchOf
  split
  · split <;> rfl
  · rfl

theorem fetchOf_filter (plan : Plan) (join : Join) (arguments : ReadArguments)
    (keys : List Value) :
    (Read.rows (plan.fetchOf join arguments keys)).filter = arguments.filter := by
  unfold fetchOf
  split
  · split <;> rfl
  · rfl

/-- A row with one of the keys passes the filter of a chunk exactly if it passes that of the key. -/
theorem matches_chunk (filter : Filter) (column : String) {chunk : List Value} {k : Value}
    (present : k ∈ chunk) (valued : k.isNull = false) (row : Row) :
    (row.has column k && (Filter.allOf [filter, .among column chunk]).matches row) =
      (only column k filter).matches row := by
  rw [only, Filter.matches_pair, Filter.matches_pair, Filter.matches_among, Filter.matches_equals,
    valued]
  by_cases here : row.has column k
  · have same : row.value column == k := here
    have known : (chunk.any fun v => v == row.value column) = true :=
      List.any_eq_true.mpr ⟨k, present, BEq.symm same⟩
    rw [here, known, Filter.isNull_of_beq same, valued]
    simp
  · simp [here]

/-- What is fetched passes the filter of the plan and the seeking. -/
theorem matches_fetchFilter_iff {plan : Plan} {row : Row} : plan.fetchFilter.matches row ↔
    plan.filter.matches row ∧
      ∀ seek, plan.listing.bind Listing.seek = some seek → seek.matches row := by
  unfold fetchFilter
  split
  · rename_i seek given
    rw [Filter.matches_pair_iff, given]
    simp
  · rename_i none
    rw [none]
    simp

theorem matches_of_fetchFilter {plan : Plan} {row : Row}
    (passes : plan.fetchFilter.matches row) : plan.filter.matches row :=
  (matches_fetchFilter_iff.mp passes).1

/-- The rows of a chunk are rows of the table that pass the filter of the plan. -/
theorem mem_filter_of_mem_chunkRows {plan : Plan} {join : Join} {rows : List Row}
    {chunk : List Value} {row : Row} (present : row ∈ plan.chunkRows join rows chunk) :
    row ∈ rows.filter plan.fetchFilter.matches := by
  obtain ⟨listed, passes⟩ := List.mem_filter.mp (mem_filter_of_mem_chosen present)
  rw [fetchOf_filter] at passes
  exact List.mem_filter.mpr ⟨listed, (Filter.matches_narrowed_iff.mp passes).1⟩

/-- The rows of a chunk have its keys. -/
theorem has_of_mem_chunkRows {plan : Plan} {join : Join} {rows : List Row} {chunk : List Value}
    {row : Row} (present : row ∈ plan.chunkRows join rows chunk) :
    ∃ k ∈ chunk, row.has join.column k := by
  have passes := matches_of_mem_chosen present
  rw [fetchOf_filter] at passes
  obtain ⟨-, k, known, -, here⟩ := Filter.matches_narrowed_iff.mp passes
  exact ⟨k, known, here⟩

theorem has_differ {column : String} {k v : Value} {row : Row} (differ : k.Differ v)
    (here : row.has column k) : row.has column v = false := by
  have same : row.value column == k := here
  rw [Row.has, BEq.congr_left same]
  exact differ

/-- Of the rows of a chunk, those of one of its keys are the rows for this key. -/
theorem filter_chunkRows {plan : Plan} {join : Join} {chunk : List Value} {k : Value}
    (rows : List Row) (present : k ∈ chunk) (valued : k.isNull = false) :
    (plan.chunkRows join rows chunk).filter (Row.has join.column k) =
      plan.rowsFor join.column k rows := by
  have sorted : (sortRows plan.arguments.order
      (rows.filter (plan.chunkArguments join chunk).filter.matches)).filter
        (Row.has join.column k) =
      sortRows plan.arguments.order
        (rows.filter (only join.column k plan.fetchFilter).matches) := by
    rw [filter_sortRows, List.filter_filter]
    refine congrArg (fun test => sortRows _ (rows.filter test)) (funext fun row => ?_)
    exact matches_chunk _ _ present valued row
  cases limited : plan.take with
  | none =>
    have fetch : plan.fetchOf join (plan.chunkArguments join chunk) chunk =
        .plain plan.table plan.columns (plan.chunkArguments join chunk) := by
      rw [fetchOf, limited]
    have all : (plan.chunkArguments join chunk).take = none := limited
    rw [chunkRows, fetch, chosen, all, rowsFor, limited, ← sorted]
    rfl
  | some limit =>
    by_cases several : 1 < chunk.length
    · have fetch : plan.fetchOf join (plan.chunkArguments join chunk) chunk =
          .windowed plan.table plan.columns (plan.chunkArguments join chunk)
            ⟨join.column, limit⟩ := by
        rw [fetchOf, limited]
        exact if_pos several
      rw [chunkRows, fetch, rowsFor, limited, taken, ← sorted]
      exact filter_firstOfEach ⟨join.column, limit⟩ k _
    · -- The chunk has no other key, so that a limit for all rows is one for the rows of the key.
      have single : chunk = [k] := by
        have some_key := List.length_pos_of_mem present
        obtain ⟨own, rfl⟩ := List.length_eq_one_iff.mp (show chunk.length = 1 by omega)
        rw [List.mem_singleton.mp present]
      have fetch : plan.fetchOf join (plan.chunkArguments join chunk) chunk =
          .plain plan.table plan.columns (plan.chunkArguments join chunk) := by
        rw [fetchOf, limited]
        exact if_neg several
      have every : ∀ row ∈ sortRows plan.arguments.order
          (rows.filter (plan.chunkArguments join chunk).filter.matches),
          row.has join.column k = true := by
        intro row there
        have passes := (List.mem_filter.mp (mem_sortRows.mp there)).2
        obtain ⟨-, own, known, -, here⟩ := Filter.matches_narrowed_iff.mp passes
        rw [single] at known
        rwa [List.mem_singleton.mp known] at here
      rw [List.filter_eq_self.mpr every] at sorted
      have cut : (plan.chunkArguments join chunk).take = some limit := limited
      rw [chunkRows, fetch, chosen, cut, rowsFor, limited, ← sorted]
      exact List.filter_eq_self.mpr fun row there => every row (mem_of_mem_taken there)

section Keys

variable {plan : Plan} {join : Join} {k : Value}

theorem flatten_keyChunks (join : Join) (size : Option Nat) :
    (keyChunks join size).flatten = join.keys :=
  flatten_chunks _ _

/-- Of the rows of a joined plan, those of one of the keys are the rows for this key. -/
theorem filter_joinedRows (join : Join) (size : Option Nat) (rows : List Row)
    (differ : join.keys.Pairwise Value.Differ) (present : k ∈ join.keys)
    (valued : k.isNull = false) :
    (plan.joinedRows join size rows).filter (Row.has join.column k) =
      plan.rowsFor join.column k rows := by
  rw [← flatten_keyChunks join size] at differ present
  rw [joinedRows, List.filter_flatMap]
  refine flatMap_of_chunk differ present ?_ ?_
  · intro chunk _ mine
    exact filter_chunkRows rows mine valued
  · intro chunk _ apart
    refine List.filter_eq_nil_iff.mpr fun row there => ?_
    obtain ⟨own, known, here⟩ := has_of_mem_chunkRows there
    rw [has_differ (apart own known) here]
    decide

/-- Every row of a joined plan has one of the keys. -/
theorem has_of_mem_joinedRows {size : Option Nat} {rows : List Row} {row : Row}
    (present : row ∈ plan.joinedRows join size rows) :
    ∃ k ∈ join.keys, row.has join.column k := by
  obtain ⟨chunk, cut, there⟩ := List.mem_flatMap.mp present
  obtain ⟨k, known, here⟩ := has_of_mem_chunkRows there
  refine ⟨k, ?_, here⟩
  rw [← flatten_keyChunks join size]
  exact List.mem_flatten.mpr ⟨chunk, cut, known⟩

/-! ### The counts of a joined plan -/

/-- The groups that a table has for a chunk of keys. -/
def chunkGroups (plan : Plan) (join : Join) (rows : List Row) (chunk : List Value) :
    List (Value × Nat) :=
  groupsOf rows (plan.joinFilter join chunk) join.column

/-- The counts that a table has for all keys. -/
def joinedCounts (plan : Plan) (join : Join) (size : Option Nat) (rows : List Row) : ByValue Nat :=
  .ofList ((keyChunks join size).map (plan.chunkGroups join rows)).flatten

/-- The groups of a chunk have its keys. -/
theorem same_of_mem_chunkGroups {rows : List Row} {chunk : List Value} {entry : Value × Nat}
    (present : entry ∈ plan.chunkGroups join rows chunk) : ∃ k ∈ chunk, entry.1 == k := by
  have grouped := (groupsOf_perm _ _ _).mem_iff.mp present
  have listed : entry.1 ∈ Value.distinct ((rows.filter (plan.joinFilter join chunk).matches).map
      fun row => row.value join.column) := List.mem_map_of_mem grouped
  obtain ⟨row, there, same⟩ := List.mem_map.mp (Value.mem_of_mem_distinct listed)
  obtain ⟨-, k, known, -, here⟩ :=
    Filter.matches_narrowed_iff.mp (List.mem_filter.mp there).2
  refine ⟨k, known, ?_⟩
  rw [← same]
  exact here

/-- No two groups of a joined plan are of one value. -/
theorem chunkGroups_pairwise (size : Option Nat) (rows : List Row)
    (differ : join.keys.Pairwise Value.Differ) :
    ((keyChunks join size).map (plan.chunkGroups join rows)).flatten.Pairwise
      fun left right => left.1.Differ right.1 := by
  rw [← flatten_keyChunks join size] at differ
  obtain ⟨-, apart⟩ := List.pairwise_flatten.mp differ
  rw [List.pairwise_flatten]
  constructor
  · intro groups known
    obtain ⟨chunk, -, rfl⟩ := List.mem_map.mp known
    exact groupsOf_pairwise _ _ _
  · rw [List.pairwise_map]
    refine apart.imp fun between left here right there => ?_
    obtain ⟨k, known, same⟩ := same_of_mem_chunkGroups here
    obtain ⟨k', known', same'⟩ := same_of_mem_chunkGroups there
    unfold Value.Differ
    rw [BEq.congr_left same, BEq.congr_right same']
    exact between k known k' known'

theorem sumAt_chunkGroups (rows : List Row) (cut : List (List Value)) (v : Value) :
    ByValue.sumAt (cut.map (plan.chunkGroups join rows)).flatten v =
      (cut.flatMap fun chunk =>
        (rows.filter (plan.joinFilter join chunk).matches).filter
          (Row.has join.column v)).length := by
  induction cut with
  | nil => rfl
  | cons chunk rest ih =>
    rw [List.map_cons, List.flatten_cons, ByValue.sumAt_append, ih, List.flatMap_cons,
      List.length_append, chunkGroups, ByValue.sumAt_perm (groupsOf_perm _ _ _),
      Value.sumAt_groups, List.countP_map, ← List.countP_eq_length_filter]
    rfl

/-- The counts of a joined plan count the rows for each key. -/
theorem sumAt_joinedCounts (join : Join) (size : Option Nat) (rows : List Row)
    (differ : join.keys.Pairwise Value.Differ) (present : k ∈ join.keys)
    (valued : k.isNull = false) :
    ByValue.sumAt (plan.joinedCounts join size rows) k =
      rows.countP (only join.column k plan.filter).matches := by
  rw [joinedCounts, ByValue.ofList_eq (chunkGroups_pairwise size rows differ), sumAt_chunkGroups,
    List.countP_eq_length_filter]
  rw [← flatten_keyChunks join size] at differ present
  refine congrArg List.length (flatMap_of_chunk differ present ?_ ?_)
  · intro chunk _ mine
    rw [List.filter_filter]
    refine congrArg (rows.filter ·) (funext fun row => ?_)
    exact matches_chunk _ _ mine valued row
  · intro chunk _ apart
    refine List.filter_eq_nil_iff.mpr fun row there => ?_
    obtain ⟨-, own, known, -, here⟩ :=
      Filter.matches_narrowed_iff.mp (List.mem_filter.mp there).2
    rw [has_differ (apart own known) here]
    decide

/-- The counts of a joined plan count nothing for null. -/
theorem sumAt_joinedCounts_null (join : Join) (size : Option Nat) (rows : List Row)
    (differ : join.keys.Pairwise Value.Differ) {v : Value} (null : v.isNull) :
    ByValue.sumAt (plan.joinedCounts join size rows) v = 0 := by
  rw [joinedCounts, ByValue.ofList_eq (chunkGroups_pairwise size rows differ), sumAt_chunkGroups,
    List.length_eq_zero_iff, List.flatMap_eq_nil_iff]
  intro chunk _
  refine List.filter_eq_nil_iff.mpr fun row there here => ?_
  obtain ⟨-, own, -, valued, mine⟩ :=
    Filter.matches_narrowed_iff.mp (List.mem_filter.mp there).2
  have same : own == v := BEq.trans (BEq.symm mine) here
  rw [Filter.isNull_of_beq same, null] at valued
  cases valued

end Keys

/-! ### What the reads make of the rows of a table -/

variable (store : Memory)

theorem fetchRows_joined {plan : Plan} {join : Join} (joined : plan.join = some join)
    (keyed : join.keys ≠ []) (size : Option Nat) :
    (plan.fetchRows store.connector size).toOption = (store.table? plan.table).bind fun rows =>
      ((plan.joinedRows join size rows).mapM (valuesOf? plan.columns)).map
        (RowSet.mk plan.columns) := by
  have answers : (fun chunk => (store.fetch
      (plan.fetchOf join (plan.chunkArguments join chunk) chunk)).toOption) = fun chunk =>
      (store.table? plan.table).bind fun rows =>
        ((plan.chunkRows join rows chunk).mapM (valuesOf? plan.columns)).map
          (RowSet.mk plan.columns) := by
    funext chunk
    rw [fetch_toOption, fetchOf_table, fetchOf_columns]
    rfl
  have steps : (plan.fetchRows store.connector size).toOption =
      ((keyChunks join size).mapM fun chunk => (store.fetch
        (plan.fetchOf join (plan.chunkArguments join chunk) chunk)).toOption).map fun sets =>
          sets.foldl RowSet.extend (.empty plan.columns) := by
    unfold fetchRows
    rw [joined, fetches_eq joined]
    simp only [connector_rows, toOption_bind, toOption_mapM, mapM_map]
    exact bind_some_map _ _
  rw [steps, answers]
  cases store.table? plan.table with
  | none =>
    have cut : keyChunks join size ≠ [] := by
      intro none
      have whole := flatten_keyChunks join size
      rw [none] at whole
      exact keyed whole.symm
    obtain ⟨chunk, rest, cut⟩ := List.exists_cons_of_ne_nil cut
    rw [cut]
    rfl
  | some rows =>
    have whole := mapM_flatMap (valuesOf? plan.columns) (plan.chunkRows join rows)
      (keyChunks join size)
    simp only [Option.bind_some, ← mapM_map_result, joinedRows, ← whole]
    cases (keyChunks join size).mapM fun chunk =>
        (plan.chunkRows join rows chunk).mapM (valuesOf? plan.columns) with
    | none => rfl
    | some sets =>
      have joined := RowSet.foldl_extend plan.columns [] (sets.map (RowSet.mk plan.columns))
      rw [List.flatMap_map] at joined
      exact congrArg some (joined.trans (congrArg (RowSet.mk _) List.flatMap_id))

theorem fetchCounts_joined {plan : Plan} {join : Join} (joined : plan.join = some join)
    {rows : List Row} (there : store.table? plan.table = some rows) (size : Option Nat) :
    (plan.fetchCounts store.connector size).toOption =
      some (if plan.counts then .grouped (plan.joinedCounts join size rows) else .none) := by
  unfold fetchCounts
  by_cases counted : plan.counts
  · have groups : ((plan.groupFilters join size).mapM fun filter =>
        (store.grouped plan.table filter join.column).toOption) =
        some ((keyChunks join size).map (plan.chunkGroups join rows)) := by
      rw [groupFilters, mapM_map]
      refine mapM_eq_some.mpr ?_
      rw [List.map_map]
      refine List.map_congr_left fun chunk _ => ?_
      rw [grouped_toOption, there]
      rfl
    rw [if_pos counted, if_pos counted, joined]
    simp only [toOption_bind, toOption_mapM, connector_grouped, groups]
    rfl
  · rw [if_neg counted, if_neg counted]
    rfl

/-- What is yielded for some rows: their records, with what is counted beside them. -/
theorem outputs_of_rows {plan : Plan} (covered : plan.Covered) (rows : List Row) (tally : Tally) :
    (((rows.mapM (valuesOf? plan.columns)).map (RowSet.mk plan.columns)).bind fun set =>
      (plan.recordsOf set).toOption.bind fun records => some (Output.mk records tally)) =
      (rows.mapM plan.readRow).map fun records => ⟨records, tally⟩ := by
  rw [← rows_bind_recordsOf covered, Option.map_bind]
  exact congrArg _ (funext fun _ => Option.map_eq_bind.symm)

/-- What a joined plan yields: the records of the rows for all keys, and the counts by key. -/
theorem execute_joined {plan : Plan} {join : Join} (joined : plan.join = some join)
    (keyed : join.keys ≠ []) (covered : plan.Covered) (size : Option Nat) :
    (plan.execute store.connector size).toOption = (store.table? plan.table).bind fun rows =>
      ((plan.joinedRows join size rows).mapM plan.readRow).map fun records =>
        ⟨records, if plan.counts then .grouped (plan.joinedCounts join size rows) else .none⟩ := by
  unfold execute
  simp only [toOption_bind, toOption_mapError, fetchRows_joined store joined keyed]
  cases there : store.table? plan.table with
  | none => rfl
  | some rows =>
    simp only [fetchCounts_joined store joined there, Option.bind_some]
    exact outputs_of_rows covered _ _

/-- What a plan without a join yields: the records of its rows, and their count. -/
theorem execute_plain {plan : Plan} (alone : plan.join = none) (covered : plan.Covered)
    (size : Option Nat) :
    (plan.execute store.connector size).toOption = (store.table? plan.table).bind fun rows =>
      ((chosen rows (.plain plan.table plan.columns plan.arguments)).mapM plan.readRow).map
        fun records =>
          ⟨records, if plan.counts then .total (rows.countP plan.filter.matches) else .none⟩ := by
  have rowsRead : plan.fetchRows store.connector size =
      store.fetch (.plain plan.table plan.columns plan.arguments) := by
    unfold fetchRows
    rw [alone]
    rfl
  have counted : (plan.fetchCounts store.connector size).toOption =
      if plan.counts then (store.table? plan.table).map fun rows =>
        .total (rows.countP plan.filter.matches)
      else some .none := by
    unfold fetchCounts
    split
    · rw [alone]
      simp only [connector_count]
      rw [toOption_map, count_toOption, Option.map_map]
      rfl
    · rfl
  unfold execute
  simp only [toOption_bind, toOption_mapError, rowsRead, counted, fetch_toOption, Fetch.table]
  cases store.table? plan.table with
  | none => rfl
  | some rows =>
    simp only [Option.map_some, ← apply_ite some, Option.bind_some]
    exact outputs_of_rows covered _ _

/-- Whatever a plan yields, its records are made of rows of its table that pass its filter. -/
theorem mem_execute {plan : Plan} (covered : plan.Covered)
    (keyed : ∀ join, plan.join = some join → join.keys ≠ []) {size : Option Nat} {output : Output}
    (done : plan.execute store.connector size = .ok output) :
    ∀ r ∈ output.records, ∃ rows row, store.table? plan.table = some rows ∧
      row ∈ rows.filter plan.fetchFilter.matches ∧ r = plan.recordFor row := by
  have done := toOption_eq_some.mpr done
  intro r present
  cases joined : plan.join with
  | none =>
    rw [execute_plain store joined covered] at done
    obtain ⟨rows, there, done⟩ := Option.bind_eq_some_iff.mp done
    obtain ⟨records, made, rfl⟩ := Option.map_eq_some_iff.mp done
    obtain ⟨row, known, same⟩ := mem_of_mapM_readRow made r present
    exact ⟨rows, row, there, mem_filter_of_mem_chosen known, same⟩
  | some join =>
    rw [execute_joined store joined (keyed join joined) covered] at done
    obtain ⟨rows, there, done⟩ := Option.bind_eq_some_iff.mp done
    obtain ⟨records, made, rfl⟩ := Option.map_eq_some_iff.mp done
    obtain ⟨row, known, same⟩ := mem_of_mapM_readRow made r present
    obtain ⟨chunk, -, known⟩ := List.mem_flatMap.mp known
    exact ⟨rows, row, there, mem_filter_of_mem_chunkRows known, same⟩

/-- What the plain read for one parent yields. -/
theorem readPlan_toOption (plan : Plan) (covered : plan.Covered) (column : String) (v : Value) :
    (readPlan store.connector column v plan).toOption =
      (store.table? plan.table).bind fun rows =>
        ((plan.rowsFor column v rows).mapM plan.readRow).map fun records =>
          ⟨records, if plan.counts then .total (rows.countP (only column v plan.filter).matches)
            else .none⟩ := by
  have counted : (countPlan store.connector column v plan).toOption =
      if plan.counts then (store.table? plan.table).map fun rows =>
        .total (rows.countP (only column v plan.filter).matches)
      else some .none := by
    unfold countPlan
    split
    · rw [connector_count, toOption_map, count_toOption, Option.map_map]
      rfl
    · rfl
  simp only [readPlan, connector_rows, toOption_bind, toOption_mapError, counted, fetch_toOption,
    Fetch.table]
  cases store.table? plan.table with
  | none => rfl
  | some rows =>
    simp only [Option.map_some, ← apply_ite some, Option.bind_some]
    exact outputs_of_rows covered _ _

end Plan

end GraphRead
