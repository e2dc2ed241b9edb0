import GraphRead.Filter.Declared
import GraphRead.Order
/-!
Associations: links from an object type to another type, joined on equal values of two columns.
-/

namespace GraphRead

/-- How many records may stand on each side of a link. -/
inductive Cardinality where
  | oneToOne
  | oneToMany
  | manyToOne
  deriving DecidableEq, Repr

/-- Whether a link leads to a list of records. -/
def Cardinality.isMany : Cardinality → Bool
  | .oneToMany => true
  | _ => false

/-- A link to an object type or an interface. A local value that is null leads nowhere. -/
structure Association where
  name : String
  cardinality : Cardinality
  target : String
  localColumn : String
  remoteColumn : String
  /-- Whether a to-one link may lead to nothing. -/
  nullable : Bool
  /-- The order of the children of a to-many link. -/
  order : Option Order
  filters : List DeclaredFilter

namespace Association

/-- Whether a link leads to a list of records. -/
def isMany (association : Association) : Bool := association.cardinality.isMany

/-- What is wrong with the order of a link: a list has to have one, with at least one column, and
a single record none. -/
def orderFault? (association : Association) : Option String :=
  match association.isMany, association.order with
  | true, none => some "one-to-many associations require a default order"
  | true, some [] => some "one-to-many associations require a non-empty default order"
  | true, some _ => none
  | false, none => none
  | false, some _ => some "only one-to-many associations may declare an order"

/-- Checks that cardinality and order of a link of a type go together. -/
def validate (association : Association) (type : String) : Except DomainError Unit :=
  match association.orderFault? with
  | some reason => .error (.invalidAssociation type association.name reason)
  | none => .ok ()

end Association

end GraphRead
