import GraphRead.Resolve.Error
import GraphRead.Resolve.Seek
/-!
Plans: the reads of one type at one position.

A plan says which columns of the type's table are wanted, which rows, in which order and how many.
The plan of a list has one row more than the page where it is asked whether there is a page beyond.
A plan that is joined reads the children of many parents at once: `Plan.fetches` cuts their keys
into chunks, and limits the rows of each parent on their own where a chunk has several.
-/

namespace GraphRead

/-- The rows of parents that a read is restricted to, by the values of a column of the child. -/
structure Join where
  column : String
  /-- The distinct values of the parents, none of which is null. -/
  keys : List Value
  deriving Repr

/-- How a list is read. -/
structure Listing where
  /-- The rows beyond the cursor of the page. Counts do without it. -/
  seek : Option Filter
  /-- The order of the page, and the columns of its sort keys and cursors. -/
  order : Order
  /-- Whether rows are fetched from the end of the list. -/
  backward : Bool
  count : Bool
  cursors : Bool
  typedCursors : Bool
  deriving Repr

/-- How one type is read at one position. -/
structure Plan where
  type : ObjectType
  columns : List String
  /-- The scope of the type, the filters of the arguments and those of the position. -/
  filter : Filter
  listing : Option Listing
  take : Option Nat
  join : Option Join

namespace Listing

/-- How a connection is read. -/
def ofConnection (c : BoundConnection) : Listing :=
  { seek := c.pagination.cursor?.map fun cursor =>
      seekFilter c.effectiveOrder cursor c.pagination.side
        (if c.typedCursors then some c.type.name else none)
    order := c.effectiveOrder
    backward := c.pagination.isBackward
    count := c.count
    cursors := c.needsCursors
    typedCursors := c.typedCursors }

/-- The order in which rows are fetched. -/
def fetchOrder (listing : Listing) : Order :=
  if listing.backward then listing.order.reversed else listing.order

end Listing

namespace BoundConnection

/-- How many rows of each type a page needs: one more where the page info is asked. -/
def fetchLimit (c : BoundConnection) : Nat :=
  c.pagination.limit + if c.pageInfo.isSome then 1 else 0

end BoundConnection

namespace Plan

/-- The columns that a target needs: the primary key, those of its attributes and associations,
that of the join, and those that the list is sorted by. -/
def requiredColumns (target : Target) (join : Option Join) (listing : Option Listing) :
    List String :=
  let attributes := (target.record?.map fun f => f.attributes.flatMap Attribute.columns).getD []
  let links := (target.record?.map fun f => f.links.map fun (_, l) => l.association.localColumn)
    |>.getD []
  let sorted := (listing.map fun l => l.order.columns).getD []
  let joined := (join.map Join.column).toList
  (target.type.primaryKey :: attributes ++ links ++ joined ++ sorted).eraseDups

/-- The plan of a target under the filter of its position. The limit does not count for a
connection, which has its own. -/
def compile (target : Target) (filter : Filter) (join : Option Join) (take : Option Nat) : Plan :=
  let listing := target.connection?.map Listing.ofConnection
  { type := target.type
    columns := requiredColumns target join listing
    filter := .allOf [target.type.scope, filter]
    listing
    take := match target.connection? with
      | some c => some c.fetchLimit
      | none => take
    join }

/-- The table that a plan reads. -/
def table (plan : Plan) : String := plan.type.table

/-- Whether records are counted. -/
def counts (plan : Plan) : Bool := plan.listing.any Listing.count

/-- What the fetched rows have to pass. -/
def fetchFilter (plan : Plan) : Filter :=
  match plan.listing.bind Listing.seek with
  | some seek => .allOf [plan.filter, seek]
  | none => plan.filter

/-- What the counted rows of some parents have to pass. -/
def joinFilter (plan : Plan) (join : Join) (keys : List Value) : Filter :=
  .allOf [plan.filter, .among join.column keys]

/-- Which rows are fetched, without regard to the parents. -/
def arguments (plan : Plan) : ReadArguments :=
  { filter := plan.fetchFilter
    order := (plan.listing.map Listing.fetchOrder).getD []
    take := plan.take }

/-- How many keys of parents one read may hold: all of them, unless there is a limit. -/
def chunkSize (join : Join) (maxBindValues : Option Nat) : Nat :=
  maxBindValues.getD join.keys.length

/-- The request for the children of some parents. Several parents that share a limit have their
rows limited by the value of the join column. -/
def fetchOf (plan : Plan) (join : Join) (arguments : ReadArguments) (keys : List Value) : Fetch :=
  match plan.take with
  | some limit =>
    if 1 < keys.length then .windowed plan.table plan.columns arguments ⟨join.column, limit⟩
    else .plain plan.table plan.columns arguments
  | none => .plain plan.table plan.columns arguments

/-- The requests for rows of a plan. -/
def fetches (plan : Plan) (maxBindValues : Option Nat) : List Fetch :=
  match plan.join with
  | none => [.plain plan.table plan.columns plan.arguments]
  | some join =>
    let size := chunkSize join maxBindValues
    List.zipWith (plan.fetchOf join) (plan.arguments.batched join.column join.keys size)
      (chunks size join.keys)

/-- The filters of the counts by parent. -/
def groupFilters (plan : Plan) (join : Join) (maxBindValues : Option Nat) : List Filter :=
  (chunks (chunkSize join maxBindValues) join.keys).map (plan.joinFilter join)

/-- The reads of a plan in the order in which they are issued. -/
def reads (plan : Plan) (maxBindValues : Option Nat) : List Read :=
  let counting : List Read :=
    if plan.counts then
      match plan.join with
      | none => [.count plan.table plan.filter]
      | some join => (plan.groupFilters join maxBindValues).map fun filter =>
          .grouped plan.table filter join.column
    else []
  (plan.fetches maxBindValues).map .rows ++ counting

/-- A plan in words. -/
def text (plan : Plan) : String :=
  "SELECT " ++ Text.join ", " plan.columns ++ " FROM " ++ plan.table ++ " WHERE " ++
    plan.fetchFilter.text ++
    (match plan.join with
      | some join => " AND " ++ join.column ++ " IN <" ++ toString join.keys.length ++ " keys>"
      | none => "") ++
    (match plan.listing with
      | some listing => " ORDER BY " ++ listing.fetchOrder.text
      | none => "") ++
    (match plan.take with
      | some limit => " LIMIT " ++ toString limit
      | none => "")

end Plan

/-- The orders of the connections among some targets, with the names of their types. -/
def targetOrders (targets : List Target) : List (String × Order) :=
  targets.filterMap fun target => target.connection?.map fun c => (c.type.name, c.effectiveOrder)

/-- Checks that the types behind a position agree on the order of their records, as they are
merged into one list. -/
def checkOrders (position : Path) (targets : List Target) : Except ResolveError Unit :=
  match targetOrders targets with
  | [] => .ok ()
  | (type, order) :: rest =>
    match rest.find? fun (_, other) => other ≠ order with
    | none => .ok ()
    | some (otherType, other) =>
      .error (.divergentOrder position ("`" ++ type ++ "` sorts by " ++ order.text ++ ", `" ++
        otherType ++ "` by " ++ other.text))

end GraphRead
