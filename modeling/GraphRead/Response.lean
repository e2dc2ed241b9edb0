import GraphRead.Schema.Basic
/-!
Responses: the records that answer a query, with the answers of their associations inside them.

A position that leads to a list answers with a page of it, and a position that leads to a single
record with that record or with nothing.
-/

namespace GraphRead

/-- The place of a page in its list. The cursors are those of the first and the last record. -/
structure PageInfo where
  hasNextPage : Bool
  hasPreviousPage : Bool
  startCursor : Option String
  endCursor : Option String
  deriving DecidableEq, Repr

/-- Records in their order. -/
structure Page (ρ : Type) where
  records : List ρ
  /-- How many records the whole list has, if that was asked, else zero. -/
  total : Nat
  pageInfo : Option PageInfo

/-- What one position of a query answers with. -/
inductive Answer (ρ : Type) where
  | many (page : Page ρ)
  | one (record : Option ρ)

/-- A fetched row as a record of an object type. The values stand under the columns by their
position. -/
structure Record where
  type : ObjectType
  columns : List String
  values : List Value
  cursor : Option String
  /-- The answers of the associations under their output keys. -/
  links : List (String × Answer Record)

namespace Record

/-- The fetched value of a column. -/
def get? (record : Record) (column : String) : Option Value :=
  (record.columns.idxOf? column).bind fun i => record.values[i]?

/-- The value of the primary key. -/
def id (record : Record) : Option Value := record.get? record.type.primaryKey

/-- The value of a field. Where the type has no field of that name, `id` is the primary key. -/
def fieldValue (record : Record) (name : String) : Except DomainError Value :=
  match record.type.field? name with
  | some (.scalar a) => a.resolve record.type.name record.get?
  | some (.link _) => .error (.fieldNotFound record.type.name name)
  | none =>
    if name = "id" then Attribute.fetch record.type.name record.get? record.type.primaryKey
    else .error (.fieldNotFound record.type.name name)

end Record

/-- The answers of the root fields of a query under their output keys. -/
abbrev Response := Keyed (Answer Record)

end GraphRead
