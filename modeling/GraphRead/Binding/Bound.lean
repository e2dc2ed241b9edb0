import GraphRead.Cursor
import GraphRead.Schema.Basic
/-!
Bound selections: what is asked of the records of one object type, with every name resolved.

A position of a query that leads to an interface has one target per covered type. A target is a
record, a connection, which is a list of records in pages, or an edge of a connection.
-/

namespace GraphRead

/-- A page of a list: at most so many records from one end, beyond a cursor if there is one. -/
inductive Pagination where
  | forward (first : Nat) (after : Option Cursor)
  | backward (last : Nat) (before : Option Cursor)
  deriving Repr

namespace Pagination

/-- The most records that a page may have. -/
def limit : Pagination → Nat
  | forward first _ => first
  | backward last _ => last

/-- The cursor that a page lies beyond. -/
def cursor? : Pagination → Option Cursor
  | forward _ after => after
  | backward _ before => before

/-- Whether a page is taken from the end of the list. -/
def isBackward : Pagination → Bool
  | forward .. => false
  | backward .. => true

end Pagination

/-- What is asked about the place of a page in its list. -/
structure PageInfoRequest where
  hasNextPage : Bool
  hasPreviousPage : Bool
  startCursor : Bool
  endCursor : Bool
  deriving DecidableEq, Repr

namespace PageInfoRequest

/-- Nothing is asked. -/
def none : PageInfoRequest := ⟨false, false, false, false⟩

/-- Everything that one of two requests asks. -/
def union (left right : PageInfoRequest) : PageInfoRequest :=
  ⟨left.hasNextPage || right.hasNextPage, left.hasPreviousPage || right.hasPreviousPage,
    left.startCursor || right.startCursor, left.endCursor || right.endCursor⟩

end PageInfoRequest

mutual

/-- What is asked of a record, under output keys. -/
structure BoundField where
  type : ObjectType
  items : List (String × BoundItem)

/-- One thing that is asked of a record. -/
inductive BoundItem where
  /-- The primary key. -/
  | id
  | scalar (a : Attribute)
  | link (l : BoundLink)

/-- An association, with the filters of its arguments and a target per type that it reaches. -/
structure BoundLink where
  association : Association
  filter : Filter
  targets : List Target

/-- What is asked of one type at a position. -/
inductive Target where
  | field (f : BoundField)
  | connection (c : BoundConnection)
  | edge (e : BoundEdge)

/-- What is asked of a list of records. -/
structure BoundConnection where
  type : ObjectType
  /-- The declared order, without the primary key that breaks ties. -/
  order : Order
  pagination : Pagination
  edges : Option BoundEdge
  pageInfo : Option PageInfoRequest
  count : Bool
  /-- Whether cursors end with the type name of their record, because records of several types
  are merged into the list. -/
  typedCursors : Bool

/-- What is asked of a record of a list and of its place in the list. -/
structure BoundEdge where
  type : ObjectType
  node : Option BoundField
  cursor : Bool

end

namespace BoundField

/-- The associations in order, with their output keys. -/
def links (f : BoundField) : List (String × BoundLink) :=
  f.items.filterMap fun
    | (key, .link l) => some (key, l)
    | _ => none

/-- The attributes in order. -/
def attributes (f : BoundField) : List Attribute :=
  f.items.filterMap fun
    | (_, .scalar a) => some a
    | _ => none

end BoundField

namespace BoundConnection

/-- What is asked of the records. -/
def node (c : BoundConnection) : Option BoundField := c.edges.bind BoundEdge.node

/-- The order of the records: the declared order, then the primary key. -/
def effectiveOrder (c : BoundConnection) : Order := c.order.withTiebreaker c.type.primaryKey

/-- Whether the cursors of the records have to be known. -/
def needsCursors (c : BoundConnection) : Bool :=
  c.edges.any BoundEdge.cursor || c.pageInfo.any fun info => info.startCursor || info.endCursor

end BoundConnection

namespace Target

/-- The type of the records. -/
def type : Target → ObjectType
  | field f => f.type
  | connection c => c.type
  | edge e => e.type

/-- The connection, if the target is one. -/
def connection? : Target → Option BoundConnection
  | connection c => some c
  | _ => none

/-- What is asked of a record: directly, or as the node of a list or an edge. -/
def record? : Target → Option BoundField
  | field f => some f
  | connection c => c.node
  | edge e => e.node

end Target

/-- How many records a root field answers with. -/
inductive RootReadKind where
  | many
  /-- The record with this primary key. -/
  | single (id : Value)
  deriving Repr

/-- A root field of a query, with every name resolved. -/
structure RootRead where
  key : String
  filter : Filter
  targets : List Target
  kind : RootReadKind

end GraphRead
