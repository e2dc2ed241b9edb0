import GraphRead.Store.Read
/-!
A data store that holds its tables in memory.

A fetch filters the rows of a table, sorts them without changing the order of equals, cuts the
list, and takes the asked columns out of every row. Counts look at the filtered rows.
-/

namespace GraphRead

/-- Tables of rows, and the tables on which every read fails. -/
structure Memory where
  tables : Keyed (List Row)
  failing : List String

namespace Memory

/-- A store without tables. -/
def empty : Memory := ⟨[], []⟩

/-- Declares a table, which is empty unless it has rows already. -/
def withTable (store : Memory) (table : String) : Memory :=
  { store with tables := Keyed.insert store.tables table ((Keyed.get? store.tables table).getD []) }

/-- Adds a row at the end of a table. -/
def insert (store : Memory) (table : String) (row : Row) : Memory :=
  let rows := (Keyed.get? store.tables table).getD []
  { store with tables := Keyed.insert store.tables table (rows ++ [row]) }

/-- Lets every read of a table fail. -/
def failingOn (store : Memory) (table : String) : Memory :=
  { store with failing := table :: store.failing }

/-- The rows of a table that pass a filter. -/
def scan (store : Memory) (table : String) (filter : Filter) : Except StoreError (List Row) :=
  if store.failing.contains table then
    .error (.queryFailed ("simulated failure reading `" ++ table ++ "`"))
  else
    match Keyed.get? store.tables table with
    | some rows => .ok (rows.filter filter.matches)
    | none => .error (.tableDoesNotExist table)

/-- Compares two rows by the columns of an order. -/
def compareRows : Order → Row → Row → Ordering
  | [], _, _ => .eq
  | part :: parts, l, r =>
    (part.direction.apply (compare (l.value part.column) (r.value part.column))).then
      (compareRows parts l r)

/-- Sorts rows, keeping rows that compare equal in their order. -/
def sortRows (order : Order) (rows : List Row) : List Row :=
  rows.mergeSort fun l r => compareRows order l r != .gt

/-- The values of a row under some columns. -/
def projectRow (columns : List String) (row : Row) : Except StoreError (List Value) :=
  columns.mapM fun column =>
    match Keyed.get? row column with
    | some v => .ok v
    | none => .error (.columnDoesNotExist column)

/-- The values of rows under some columns. -/
def project (columns : List String) (rows : List Row) : Except StoreError RowSet :=
  (rows.mapM (projectRow columns)).map (RowSet.mk columns)

/-- The rows that come among the first `limit` of those with the same value of a column, where
`seen` are the values of the rows before. -/
def firstOfEach (window : Window) (seen : List Value) : List Row → List Row
  | [] => []
  | row :: rest =>
    let v := row.value window.column
    let later := firstOfEach window (v :: seen) rest
    if seen.countP (fun other => other == v) < window.limit then row :: later else later

/-- Answers a request for rows. -/
def fetch (store : Memory) : Fetch → Except StoreError RowSet
  | .plain table columns arguments => do
    let sorted := sortRows arguments.order (← store.scan table arguments.filter)
    project columns (match arguments.take with
      | some n => sorted.take n
      | none => sorted)
  | .windowed table columns arguments window => do
    let sorted := sortRows arguments.order (← store.scan table arguments.filter)
    project columns (firstOfEach window [] sorted)

/-- The number of rows that pass a filter. -/
def count (store : Memory) (table : String) (filter : Filter) : Except StoreError Nat :=
  (store.scan table filter).map List.length

/-- The number of rows for each value of a column, in the order of the values. -/
def grouped (store : Memory) (table : String) (filter : Filter) (column : String) :
    Except StoreError (List (Value × Nat)) := do
  let values := (← store.scan table filter).map fun row => row.value column
  return (Value.groups values).mergeSort fun l r => compare l.1 r.1 != .gt

/-- The answers of a store in memory. -/
def connector (store : Memory) : Connector := ⟨store.fetch, store.count, store.grouped⟩

end Memory

end GraphRead
