import GraphRead.Proofs.Store.Answers
import GraphRead.Proofs.Value.ByValue
/-!
Reads that answer for every value of a column at once.

The rows of a table fall into partitions by their values in a column. A windowed read sorts all rows
and keeps the first ones of each partition, a grouped count lists how many each partition has. Both
agree with reads that ask for one partition: a windowed read has of a partition what a plain read
with the same limit has (`Memory.Windowed.valued`), in the same order, since sorting is stable, and
a group has the number of rows that a count of its partition has (`Memory.Tallied.counted`).

A partition has all values that are the same, however they are spelled. That of null cannot be asked
for by an equation, but only by whether the column is null.
-/

namespace GraphRead

open Success

theorem Value.isNull_eq_beq (v : Value) : v.isNull = (v == .null) := by cases v <;> rfl

/-- The rows of a set that have a value in a column. -/
def RowSet.only (set : RowSet) (column : String) (v : Value) : RowSet :=
  { set with rows := set.rows.filter fun values =>
      ((set.index? column).bind fun i => values[i]?).any fun here => here == v }

namespace Memory

/-- Some rows as a set, under some columns. -/
def setOf (columns : List String) (rows : List Row) : RowSet :=
  ⟨columns, rows.map fun row => columns.map row.value⟩

/-- A fetch yields the rows that it chooses, if the rows of the table have its columns. -/
theorem fetch_eq_ok {store : Memory} {rows : List Row} (fetch : Fetch)
    (there : store.table? fetch.table = some rows)
    (held : ∀ row ∈ rows, holds (columnsOf fetch) row) :
    store.fetch fetch = .ok (setOf (columnsOf fetch) (chosen rows fetch)) := by
  rw [← toOption_eq_some, fetch_toOption, there, Option.bind_some, Option.map_eq_some_iff]
  refine ⟨_, mapM_eq_some.mpr ?_, rfl⟩
  rw [List.map_map]
  refine List.map_congr_left fun row present => ?_
  have known := held row (List.mem_filter.mp (mem_filter_of_mem_chosen present)).1
  rw [valuesOf?, projectRow_toOption, if_pos known]
  rfl

theorem count_eq_ok {store : Memory} {table : String} {rows : List Row} (filter : Filter)
    (there : store.table? table = some rows) :
    store.count table filter = .ok (rows.countP filter.matches) := by
  rw [← toOption_eq_some, count_toOption, there, Option.map_some]

theorem grouped_eq_ok {store : Memory} {table : String} {rows : List Row} (filter : Filter)
    (column : String) (there : store.table? table = some rows) :
    store.grouped table filter column = .ok (groupsOf rows filter column) := by
  rw [← toOption_eq_some, grouped_toOption, there, Option.map_some]

/-- The rows of a set that have a value in one of its columns are made of the rows that have it. -/
theorem setOf_only {columns : List String} {column : String} (shown : column ∈ columns) (v : Value)
    (rows : List Row) :
    (setOf columns rows).only column v = setOf columns (rows.filter (Row.has column v)) := by
  unfold RowSet.only setOf
  rw [List.filter_map]
  refine congrArg (RowSet.mk columns) (congrArg (List.map _) (congrArg (rows.filter ·) ?_))
  funext row
  show ((columns.idxOf? column).bind fun i => (columns.map row.value)[i]?).any _ = _
  rw [Plan.idxOf?_of_mem shown, Option.bind_some, Plan.getElem?_idxOf shown, Option.any_some,
    Row.has]

/-! ### A limit for each value -/

/-- The filter for a value asks for the rows that have it. -/
theorem equals_asks {v : Value} (valued : v.isNull = false) {column : String} (row : Row) :
    (Filter.equals column v).matches row = row.has column v := by
  rw [Filter.matches_equals, valued, Bool.not_false, Bool.true_and]

/-- Of a partition, a windowed read keeps the rows that a plain read of it has. -/
theorem chosen_partition {only : Filter} {window : Window} {v : Value}
    (asks : ∀ row, only.matches row = row.has window.column v) (rows : List Row) (table : String)
    (columns : List String) (arguments : ReadArguments) :
    chosen rows (.plain table columns
        ⟨.allOf [arguments.filter, only], arguments.order, some window.limit⟩) =
      (chosen rows (.windowed table columns arguments window)).filter
        (Row.has window.column v) := by
  have narrowed : rows.filter (Filter.allOf [arguments.filter, only]).matches =
      (rows.filter arguments.filter.matches).filter (Row.has window.column v) := by
    rw [List.filter_filter]
    refine congrArg (rows.filter ·) (funext fun row => ?_)
    rw [Filter.matches_pair, asks, Bool.and_comm]
  rw [chosen, chosen, narrowed, filter_firstOfEach, filter_sortRows]
  rfl

/-- What holds of the rows that a windowed read keeps of a table. -/
structure Windowed (store : Memory) (table : String) (rows : List Row) (columns : List String)
    (arguments : ReadArguments) (window : Window) (kept : List Row) : Prop where
  /-- The read yields these rows. -/
  answer : store.fetch (.windowed table columns arguments window) = .ok (setOf columns kept)
  /-- No row comes after one that is greater in the order of the query. -/
  ordered : kept.Pairwise fun l r => compareRows arguments.order l r ≠ .gt
  /-- They are rows of the table that pass the filter. -/
  passing : ∀ row ∈ kept, row ∈ rows ∧ arguments.filter.matches row
  /-- A plain read of the partition of a value yields those of the rows that have the value. -/
  valued : ∀ v : Value, v.isNull = false →
    store.fetch (.plain table columns
        ⟨.allOf [arguments.filter, .equals window.column v], arguments.order, some window.limit⟩) =
      .ok (setOf columns (kept.filter (Row.has window.column v)))
  /-- Where the column is among those that are read, the answers alone say so. -/
  shown : window.column ∈ columns → ∀ v : Value, v.isNull = false →
    store.fetch (.plain table columns
        ⟨.allOf [arguments.filter, .equals window.column v], arguments.order, some window.limit⟩) =
      .ok ((setOf columns kept).only window.column v)
  /-- There are no more rows without a value in the column than the limit. -/
  nulls : (kept.filter fun row => (row.value window.column).isNull).length ≤ window.limit

/-- A windowed read agrees with the plain reads of the partitions. -/
theorem windowed_chosen {store : Memory} {table : String} {rows : List Row} {columns : List String}
    (there : store.table? table = some rows) (held : ∀ row ∈ rows, holds columns row)
    (arguments : ReadArguments) (window : Window) :
    Windowed store table rows columns arguments window
      (chosen rows (.windowed table columns arguments window)) where
  answer := fetch_eq_ok (.windowed table columns arguments window) there held
  ordered := by
    have sorted := List.pairwise_mergeSort (notAfter_trans (compareRows arguments.order))
      (notAfter_total (compareRows arguments.order)) (rows.filter arguments.filter.matches)
    refine (sorted.sublist (firstOfEach_sublist window [] _)).imp fun before => ?_
    exact bne_iff_ne.mp before
  passing := fun row present => List.mem_filter.mp (mem_filter_of_mem_chosen present)
  valued := fun v valued => by
    rw [fetch_eq_ok (.plain table columns _) there held,
      chosen_partition (equals_asks valued) rows table columns arguments]
    rfl
  shown := fun shown v valued => by
    rw [setOf_only shown, fetch_eq_ok (.plain table columns _) there held,
      chosen_partition (equals_asks valued) rows table columns arguments]
    rfl
  nulls := by
    have null (row : Row) : (row.value window.column).isNull = row.has window.column .null :=
      Value.isNull_eq_beq _
    rw [funext null, chosen, filter_firstOfEach]
    exact List.length_take_le _ _

/-! ### A number for each value -/

/-- What holds of the numbers that a grouped count lists for a table. -/
structure Tallied (store : Memory) (table : String) (rows : List Row) (filter : Filter)
    (column : String) (groups : List (Value × Nat)) : Prop where
  /-- The read yields these groups. -/
  answer : store.grouped table filter column = .ok groups
  /-- The values ascend, so none is listed twice. -/
  ascending : groups.Pairwise fun l r => compare l.1 r.1 = .lt
  /-- The values of all rows that pass the filter are listed. -/
  complete : ∀ row ∈ rows, filter.matches row → ∃ entry ∈ groups, row.has column entry.1
  /-- Nothing else is listed. -/
  occurring : ∀ entry ∈ groups, ∃ row ∈ rows, filter.matches row ∧ row.has column entry.1
  /-- The number of a value is that of the rows that a count of its partition finds. -/
  counted : ∀ entry ∈ groups, entry.1.isNull = false →
    store.count table (.allOf [filter, .equals column entry.1]) = .ok entry.2
  /-- The numbers add up to that of all rows that pass the filter. -/
  total : store.count table filter = .ok (groups.map Prod.snd).sum

theorem groupsOf_perm (rows : List Row) (filter : Filter) (column : String) :
    (groupsOf rows filter column).Perm
      (Value.groups ((rows.filter filter.matches).map fun row => row.value column)) :=
  List.mergeSort_perm _ _

theorem groupsOf_pairwise (rows : List Row) (filter : Filter) (column : String) :
    (groupsOf rows filter column).Pairwise fun l r => l.1.Differ r.1 :=
  (groupsOf_perm rows filter column).symm.pairwise
    (List.pairwise_map.mp (Value.distinct_pairwise _)) fun differ => differ.symm

/-- The number of a value in the groups is that of the rows that have it. -/
theorem countP_of_mem_groupsOf {rows : List Row} {filter : Filter} {column : String}
    {entry : Value × Nat} (present : entry ∈ groupsOf rows filter column) :
    (rows.filter filter.matches).countP (Row.has column entry.1) = entry.2 := by
  have counted := Value.sumAt_groups
    ((rows.filter filter.matches).map fun row => row.value column) entry.1
  rw [List.countP_map] at counted
  calc (rows.filter filter.matches).countP (Row.has column entry.1)
    _ = ByValue.sumAt (Value.groups ((rows.filter filter.matches).map fun row =>
          row.value column)) entry.1 := counted.symm
    _ = ByValue.sumAt (groupsOf rows filter column) entry.1 :=
        ByValue.sumAt_perm (groupsOf_perm rows filter column).symm entry.1
    _ = entry.2 := ByValue.sumAt_of_mem (groupsOf_pairwise rows filter column) present

/-- A grouped count agrees with the counts of the partitions. -/
theorem tallied_groupsOf {store : Memory} {table : String} {rows : List Row}
    (there : store.table? table = some rows) (filter : Filter) (column : String) :
    Tallied store table rows filter column (groupsOf rows filter column) where
  answer := grouped_eq_ok filter column there
  ascending := by
    have sorted := List.pairwise_mergeSort
      (fun a b c : Value × Nat => notAfter_trans compare a.1 b.1 c.1)
      (fun a b : Value × Nat => notAfter_total compare a.1 b.1)
      (Value.groups ((rows.filter filter.matches).map fun row => row.value column))
    refine sorted.imp₂ (fun l r before differ => ?_) (groupsOf_pairwise rows filter column)
    have apart : compare l.1 r.1 ≠ .eq := fun same =>
      Bool.eq_false_iff.mp differ (Value.beq_iff_compare.mpr same)
    have notGreater : compare l.1 r.1 ≠ .gt := bne_iff_ne.mp before
    cases placed : compare l.1 r.1 with
    | lt => rfl
    | eq => exact absurd placed apart
    | gt => exact absurd placed notGreater
  complete := by
    intro row there passes
    obtain ⟨v, listed, same⟩ := Value.exists_mem_distinct
      (List.mem_map_of_mem (List.mem_filter.mpr ⟨there, passes⟩) :
        row.value column ∈ (rows.filter filter.matches).map fun row => row.value column)
    obtain ⟨entry, grouped, rfl⟩ := List.mem_map.mp listed
    exact ⟨entry, (groupsOf_perm rows filter column).mem_iff.mpr grouped, BEq.symm same⟩
  occurring := by
    intro entry present
    have grouped := (groupsOf_perm rows filter column).mem_iff.mp present
    obtain ⟨row, found, same⟩ := List.mem_map.mp
      (Value.mem_of_mem_distinct (List.mem_map_of_mem grouped))
    obtain ⟨there, passes⟩ := List.mem_filter.mp found
    exact ⟨row, there, passes, by rw [Row.has, same]; exact BEq.rfl⟩
  counted := by
    intro entry present valued
    rw [count_eq_ok _ there, ← countP_of_mem_groupsOf present, List.countP_filter]
    refine congrArg Except.ok (congrArg (List.countP · rows) (funext fun row => ?_))
    rw [Filter.matches_pair, equals_asks valued, Bool.and_comm]
  total := by
    rw [count_eq_ok filter there, ((groupsOf_perm rows filter column).map Prod.snd).sum_nat,
      Value.sum_groups, List.length_map, List.countP_eq_length_filter]

/-- **What is read for all values of a column at once agrees with the reads for one value each.** Of
every partition but that of null, a windowed read has the rows of the plain read with the same
limit, in the same order, and all of it is in the order of the query. A grouped count lists the
values that occur, each once and in ascending order, with the count of its partition, and the
numbers add up to the count of all. -/
theorem partitions_agree {store : Memory} {table : String} {rows : List Row} {columns : List String}
    (there : store.table? table = some rows) (held : ∀ row ∈ rows, holds columns row)
    (arguments : ReadArguments) (window : Window) :
    (∃ kept, Windowed store table rows columns arguments window kept) ∧
      ∃ groups, Tallied store table rows arguments.filter window.column groups :=
  ⟨⟨_, windowed_chosen there held arguments window⟩, _,
    tallied_groupsOf there arguments.filter window.column⟩

end Memory

namespace Ledger

/-- Two entries of the same amount, written differently, one of another and one of none. -/
def entries : List Row :=
  [[("id", .int 1), ("amount", .float ⟨15, 1⟩)], [("id", .int 2), ("amount", .null)],
    [("id", .int 3), ("amount", .float ⟨150, 2⟩)], [("id", .int 4), ("amount", .float ⟨2, 0⟩)]]

def store : Memory := ⟨[("entries", entries)], []⟩

/-- All entries, in no particular order. -/
def unordered : ReadArguments := ⟨.always, [], none⟩

/-- One entry of each amount. Both spellings of the first amount are of one partition. -/
theorem partitions_agree_entries :
    store.table? "entries" = some entries ∧
      (∀ row ∈ entries, Memory.holds ["id", "amount"] row) ∧
      Row.has "amount" (.float ⟨15, 1⟩) [("id", .int 3), ("amount", .float ⟨150, 2⟩)] ∧
      (∃ kept, Memory.Windowed store "entries" entries ["id", "amount"] unordered ⟨"amount", 1⟩
        kept) ∧
      ∃ groups, Memory.Tallied store "entries" entries unordered.filter "amount" groups :=
  ⟨rfl, by decide, by decide,
    Memory.partitions_agree rfl (by decide) unordered ⟨"amount", 1⟩⟩

end Ledger

end GraphRead
