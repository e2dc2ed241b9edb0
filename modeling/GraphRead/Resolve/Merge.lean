import GraphRead.Resolve.Execute
/-!
Merging: one page, or at most one record, out of what was fetched for the types of a position.

The records of a list are sorted by their sort keys, and where those are equal by the names of
their types. Then the list is cut to the page: what was fetched beyond it only tells that there is
another page.
-/

namespace GraphRead

/-- Compares two records of a list. -/
def compareFetched (order : Order) (l r : Fetched) : Ordering :=
  (order.compareKeys l.sortKey r.sortKey).then (compare l.record.type.name r.record.type.name)

namespace Pagination

/-- Cuts a list to the page: the first records of it, or the last. -/
def cut {α : Type} (page : Pagination) (items : List α) : List α :=
  match page with
  | forward first _ => items.take first
  | backward last _ => items.drop (items.length - last)

end Pagination

/-- Where a page lies in its list. On the side of the cursor there is another page if there is a
cursor, on the other side if more was fetched than the page holds. -/
def pageInfo (page : Pagination) (overflow : Bool) (records : List Record) : PageInfo :=
  let beyond := page.cursor?.isSome
  { hasNextPage := if page.isBackward then beyond else overflow
    hasPreviousPage := if page.isBackward then overflow else beyond
    startCursor := records.head?.bind Record.cursor
    endCursor := records.getLast?.bind Record.cursor }

/-- The page of a list. Without a connection the records are left as they are. -/
def mergeMany (fetched : List Fetched) (connection : Option BoundConnection) (total : Nat) :
    Page Record :=
  match connection with
  | none => ⟨fetched.map Fetched.record, total, none⟩
  | some c =>
    let sorted := fetched.mergeSort fun l r => compareFetched c.effectiveOrder l r != .gt
    let overflow := decide (c.pagination.limit < sorted.length)
    let records := (c.pagination.cut sorted).map Fetched.record
    { records
      total := if c.count then total else 0
      pageInfo := c.pageInfo.map fun _ => pageInfo c.pagination overflow records }

/-- The record of a position that leads to at most one. A key is given where there has to be
one. -/
def mergeOne (fetched : List Fetched) (position : Path) (required : Option Value) :
    Except ResolveError (Option Record) :=
  match fetched, required with
  | [], some key => .error (.missingRecord position key.text)
  | [], none => .ok none
  | [one], _ => .ok (some one.record)
  | many, _ => .error (.tooManyRecords position many.length)

end GraphRead
