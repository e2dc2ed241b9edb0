import GraphRead.Proofs.Page.Seek
import GraphRead.Proofs.Store.Answers
/-!
The list behind a connection, and the page of it that is asked for.

A position of a query that leads to a list stands for one list over all its types: the rows of
every type that pass its scope, the filters of the arguments and, below a record, have the value of
the record in the join column, sorted by the order of the connection, where rows that tie are
ordered by the names of their types (`Place.entries`). A page of it has the first entries after its
cursor, or the last ones before it (`Pagination.window`). Nothing here says how rows are fetched.
-/

namespace GraphRead

/-- What is asked at one position of a query: the targets, the filter of the arguments, and below
a record the column of the children with the value of the record that joins them. -/
structure Place where
  targets : List Target
  filter : Filter
  parent : Option (String × Value)

/-- A row that is listed as a record of a target. -/
structure Entry where
  target : Target
  row : Row

namespace Entry

/-- The order of a list: by the columns, and where these tie by the names of the types. -/
def compare (order : Order) (l r : Entry) : Ordering :=
  (Memory.compareRows order l.row r.row).then
    (Ord.compare l.target.type.name r.target.type.name)

/-- How an entry lies to a cursor of its list. -/
def against (order : Order) (cursor : Cursor) (e : Entry) : Ordering :=
  (e.row.against order cursor.values).then
    (cursor.typeAgainst order (some e.target.type.name))

theorem compare_swap (order : Order) (l r : Entry) :
    compare order l r = (compare order r l).swap := by
  rw [compare, compare, Ordering.swap_then, ← Memory.compareRows_swap]
  exact congrArg (Ordering.then _) Std.OrientedOrd.eq_swap

instance (order : Order) : Std.TransCmp (compare order) where
  eq_swap := compare_swap order _ _
  isLE_trans :=
    ((Agree.of_transCmp _ _ _).then fun _ _ => Agree.of_transCmp _ _ _).isLE

theorem mem_flatMap {targets : List Target} {rows : Target → List Row} {e : Entry} :
    e ∈ (targets.flatMap fun target => (rows target).map (mk target)) ↔
      e.target ∈ targets ∧ e.row ∈ rows e.target := by
  rw [List.mem_flatMap]
  constructor
  · rintro ⟨target, reached, present⟩
    obtain ⟨row, known, rfl⟩ := List.mem_map.mp present
    exact ⟨reached, known⟩
  · rintro ⟨reached, known⟩
    exact ⟨e.target, reached, List.mem_map.mpr ⟨e.row, known, rfl⟩⟩

end Entry

/-- The rows of a table, none if there is no such table. -/
def Memory.rowsOf (store : Memory) (table : String) : List Row :=
  (Keyed.get? store.tables table).getD []

namespace Place

/-- Whether a row joins the record that a place lies below, if it lies below one. -/
def joins (place : Place) (row : Row) : Bool :=
  match place.parent with
  | some (column, v) => !v.isNull && row.has column v
  | none => true

/-- Whether a row is to be listed as a record of a target. -/
def admits (place : Place) (target : Target) (row : Row) : Bool :=
  target.type.scope.matches row && place.filter.matches row && place.joins row

/-- The rows of a target that are to be listed. -/
def listed (place : Place) (store : Memory) (target : Target) : List Entry :=
  ((store.rowsOf target.type.table).filter (place.admits target)).map (Entry.mk target)

/-- The list of a place: the rows of all its types in one order. -/
def entries (place : Place) (store : Memory) (order : Order) : List Entry :=
  (place.targets.flatMap (place.listed store)).mergeSort (notAfter (Entry.compare order))

/-- The plan by which the rows of a target are shown. -/
def plan (place : Place) (target : Target) : Plan :=
  .compile target place.filter (place.parent.map fun (column, v) => ⟨column, [v]⟩) none

/-- What is fetched to show an entry. -/
def shown (place : Place) (e : Entry) : Fetched := (place.plan e.target).recordFor e.row

/-- The record that shows an entry, without the answers of its associations. -/
def record (place : Place) (e : Entry) : Record := (place.shown e).record

end Place

namespace Pagination

/-- Whether an entry lies strictly beyond the cursor of a page, if there is one. -/
def isBeyond (page : Pagination) (order : Order) (e : Entry) : Bool :=
  match page.cursor? with
  | some cursor => e.against order cursor == page.side.ordering
  | none => true

/-- The entries of a list beyond the cursor of a page. -/
def beyond (page : Pagination) (order : Order) (entries : List Entry) : List Entry :=
  entries.filter (page.isBeyond order)

/-- A page of a list: the first entries after its cursor, or the last ones before it. -/
def window (page : Pagination) (order : Order) (entries : List Entry) : List Entry :=
  match page with
  | forward first _ => (page.beyond order entries).take first
  | backward last _ => ((page.beyond order entries).reverse.take last).reverse

/-- Where a page lies in its list. On the side of the cursor there is another page exactly if a
cursor is given, on the other side if more entries than the page holds lie beyond it. -/
def located (page : Pagination) (order : Order) (entries : List Entry) (records : List Record) :
    PageInfo :=
  let more := decide (page.limit < (page.beyond order entries).length)
  { hasNextPage := match page with
      | forward .. => more
      | backward _ before => before.isSome
    hasPreviousPage := match page with
      | forward _ after => after.isSome
      | backward .. => more
    startCursor := records.head?.bind Record.cursor
    endCursor := records.getLast?.bind Record.cursor }

end Pagination

/-- A record without the answers of its associations. -/
def Record.bare (record : Record) : Record := { record with links := [] }

namespace Place

/-- A page shows the window of the list that a connection of the place asks for. -/
structure Shows (place : Place) (store : Memory) (c : BoundConnection) (page : Page Record) :
    Prop where
  records : page.records.map Record.bare =
    (c.pagination.window c.effectiveOrder (place.entries store c.effectiveOrder)).map place.record
  pageInfo : page.pageInfo = c.pageInfo.map fun _ =>
    c.pagination.located c.effectiveOrder (place.entries store c.effectiveOrder) page.records

/-- What is assumed of the data: the types of a place have different names, the rows of a table
have different primary keys, and there is no null in a column of the order or in the cursor. -/
structure Regular (place : Place) (store : Memory) (c : BoundConnection) : Prop where
  types : (place.targets.map fun target => target.type.name).Nodup
  keys : ∀ target ∈ place.targets, (store.rowsOf target.type.table).Pairwise fun l r =>
    (l.value target.type.primaryKey == r.value target.type.primaryKey) = false
  valued : ∀ target ∈ place.targets, ∀ row ∈ store.rowsOf target.type.table,
    ∀ column ∈ c.effectiveOrder.columns, (row.value column).isNull = false
  cursor : ∀ cursor, c.pagination.cursor? = some cursor → ∀ v ∈ cursor.values, v.isNull = false

end Place

end GraphRead
