import GraphRead.Error
/-!
Attributes: the scalar fields of an object type, stored in a column or computed from columns.
-/

namespace GraphRead

/-- The kinds of scalar that clients see. -/
inductive ScalarKind where
  | id | string | int | float | boolean | dateTime | enum | json
  deriving DecidableEq, Repr

/-- Where the value of an attribute comes from. -/
inductive AttributeSource where
  | column (name : String)
  /-- A function of the values of some columns, in their order. -/
  | computed (columns : List String) (compute : List Value → Value)

/-- A scalar field of an object type. -/
structure Attribute where
  name : String
  kind : ScalarKind
  source : AttributeSource

namespace Attribute

/-- The columns that have to be fetched for an attribute. -/
def columns (a : Attribute) : List String :=
  match a.source with
  | .column name => [name]
  | .computed columns _ => columns

/-- Whether an attribute is computed. -/
def isComputed (a : Attribute) : Bool :=
  match a.source with
  | .column _ => false
  | .computed .. => true

/-- The value of a column that has to be there. -/
def fetch (type : String) (lookup : String → Option Value) (column : String) :
    Except DomainError Value :=
  match lookup column with
  | some v => .ok v
  | none => .error (.columnNotFound type column)

/-- The value of an attribute of a record, given the values of the record's columns. -/
def resolve (a : Attribute) (type : String) (lookup : String → Option Value) :
    Except DomainError Value :=
  match a.source with
  | .column name => fetch type lookup name
  | .computed columns compute => (columns.mapM (fetch type lookup)).map compute

end Attribute

end GraphRead
