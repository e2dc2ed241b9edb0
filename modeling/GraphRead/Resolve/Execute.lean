import GraphRead.ByValue
import GraphRead.Resolve.Plan
import GraphRead.Response
/-!
Executing plans: asking the data store, and making records of the rows.

A plan without a join is one request for rows. A joined plan asks once per chunk of parent keys,
and the rows of the chunks are put one after the other. Values are taken out of a row by the place
of their column among the columns of the row set.
-/

namespace GraphRead

/-- A record with what places it in its list and below its parent. -/
structure Fetched where
  record : Record
  /-- The values of the columns that the list is sorted by. -/
  sortKey : List Value
  /-- The value of the join column. -/
  parentKey : Option Value

/-- The counts that a plan was asked for. -/
inductive Tally where
  | none
  | total (count : Nat)
  /-- The counts by the values of the join column. -/
  | grouped (counts : ByValue Nat)
  deriving Repr

/-- What the execution of a plan yields. -/
structure Output where
  records : List Fetched
  tally : Tally

namespace Output

/-- Nothing is yielded. -/
def empty : Output := ⟨[], .none⟩

end Output

namespace Plan

/-- The rows of a plan. -/
def fetchRows (plan : Plan) (connector : Connector) (maxBindValues : Option Nat) :
    Except StoreError RowSet :=
  match plan.join with
  | none => connector.rows (.plain plan.table plan.columns plan.arguments)
  | some _ => do
    let sets ← (plan.fetches maxBindValues).mapM connector.rows
    return sets.foldl RowSet.extend (.empty plan.columns)

/-- The counts of a plan. -/
def fetchCounts (plan : Plan) (connector : Connector) (maxBindValues : Option Nat) :
    Except StoreError Tally :=
  if plan.counts then
    match plan.join with
    | none => (connector.count plan.table plan.filter).map .total
    | some join => do
      let groups ← (plan.groupFilters join maxBindValues).mapM fun filter =>
        connector.grouped plan.table filter join.column
      return .grouped (.ofList groups.flatten)
  else .ok .none

/-- The value at a place of a row; what a row does not reach counts as null. -/
def valueAt (row : List Value) (index : Nat) : Value := (row[index]?).getD .null

/-- The cursor of a record of a type, from the values that it is sorted by. -/
def cursorOf (type : String) (listing : Listing) (sortKey : List Value) : Option String :=
  if listing.cursors then
    some (Cursor.mk (sortKey ++ if listing.typedCursors then [.string type] else [])).encode
  else none

/-- The record of a row, given the places of the sort columns and of the join column. -/
def recordOf (plan : Plan) (columns : List String) (sorted : List Nat) (joined : Option Nat)
    (row : List Value) : Fetched :=
  let sortKey := sorted.map (valueAt row)
  { record :=
      { type := plan.type
        columns
        values := row
        cursor := plan.listing.bind fun listing => cursorOf plan.type.name listing sortKey
        links := [] }
    sortKey
    parentKey := joined.map (valueAt row) }

/-- The records of a row set, in which the sort columns and the join column have to be. -/
def recordsOf (plan : Plan) (set : RowSet) : Except DomainError (List Fetched) := do
  let type := plan.type.name
  let sorted ← ((plan.listing.map fun l => l.order.columns).getD []).mapM (set.require type)
  let joined ← plan.join.mapM fun join => set.require type join.column
  return set.rows.map (plan.recordOf set.columns sorted joined)

/-- Executes a plan. -/
def execute (plan : Plan) (connector : Connector) (maxBindValues : Option Nat) :
    Except ResolveError Output := do
  let set ← (plan.fetchRows connector maxBindValues).mapError .store
  let tally ← (plan.fetchCounts connector maxBindValues).mapError .store
  let records ← (plan.recordsOf set).mapError .domain
  return ⟨records, tally⟩

end Plan

end GraphRead
