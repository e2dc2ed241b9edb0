import GraphRead.Schema.Association
import GraphRead.Schema.Attribute
/-!
Schemas: the object types, interfaces and root fields that queries can name.

An object type reads from one table. An interface stands for the object types that it covers. A
root field is an entry point: a connection, which is a list in pages, or the lookup of a single
record.
-/

namespace GraphRead

/-- A field of an object type. -/
inductive FieldKind where
  | scalar (a : Attribute)
  | link (a : Association)

/-- A concrete type, whose records are the rows of a table. -/
structure ObjectType where
  name : String
  table : String
  primaryKey : String
  /-- What rows have to pass to be records of the type. -/
  scope : Filter
  fields : Keyed FieldKind

namespace ObjectType

/-- The field of a name. -/
def field? (type : ObjectType) (name : String) : Option FieldKind := Keyed.get? type.fields name

/-- The attributes in order. -/
def attributes (type : ObjectType) : List Attribute :=
  type.fields.filterMap fun
    | (_, .scalar a) => some a
    | (_, .link _) => none

/-- The associations in order. -/
def associations (type : ObjectType) : List Association :=
  type.fields.filterMap fun
    | (_, .scalar _) => none
    | (_, .link a) => some a

end ObjectType

/-- The name of a field. -/
def FieldKind.name : FieldKind → String
  | scalar a => a.name
  | link a => a.name

/-- The fields of a type from a list of declarations: a later declaration takes the place of an
earlier one of the same name. -/
def ObjectType.fieldsOf (declared : List FieldKind) : Keyed FieldKind :=
  Keyed.ofList (declared.map fun field => (field.name, field))

/-- A set of object types that can be selected together. -/
structure Interface where
  name : String
  covered : List String
  deriving DecidableEq, Repr

/-- Whether an interface covers an object type. -/
def Interface.covers (face : Interface) (type : String) : Bool := face.covered.contains type

/-- What a root field leads to. -/
inductive RootKind where
  /-- A list in pages, in the declared order. -/
  | connection (order : Order)
  /-- At most one record, by its primary key. -/
  | single
  deriving DecidableEq, Repr

/-- An entry point of queries. -/
structure RootField where
  name : String
  target : String
  kind : RootKind
  filters : List DeclaredFilter

/-- The types, interfaces and root fields under their names. -/
structure Schema where
  types : Keyed ObjectType
  interfaces : Keyed Interface
  roots : Keyed RootField

namespace Schema

/-- The schema that declares nothing. -/
def empty : Schema := ⟨[], [], []⟩

/-- Whether a name is that of a type or of an interface. -/
def declares (schema : Schema) (name : String) : Bool :=
  Keyed.hasKey schema.types name || Keyed.hasKey schema.interfaces name

/-- The object type of a name. -/
def objectType (schema : Schema) (name : String) : Except DomainError ObjectType :=
  match Keyed.get? schema.types name with
  | some type => .ok type
  | none => .error (.typeNotFound name)

/-- The object types behind the name of a type or an interface, in the order of the
declaration. -/
def coveredTypes (schema : Schema) (name : String) : Except DomainError (List ObjectType) :=
  match Keyed.get? schema.types name with
  | some type => .ok [type]
  | none =>
    match Keyed.get? schema.interfaces name with
    | some face => face.covered.mapM schema.objectType
    | none => .error (.typeNotFound name)

/-- Whether a fragment on a condition applies to an object type: the condition is the type or an
interface that covers it. -/
def isAssignable (schema : Schema) (condition target : String) : Except DomainError Bool :=
  if condition = target && Keyed.hasKey schema.types condition then .ok true
  else
    match Keyed.get? schema.interfaces condition with
    | some face => .ok (face.covers target)
    | none =>
      if Keyed.hasKey schema.types condition then .ok false else .error (.typeNotFound condition)

end Schema

end GraphRead
