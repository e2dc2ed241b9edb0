import GraphRead.Decimal.Binary64
import GraphRead.Document.Basic
import GraphRead.Document.Path
/-!
GraphQL documents as they are read from a text: operations and fragments whose arguments may hold
variables.
-/

namespace GraphRead.Graphql

/-- A written value. Variables have names of the type `ν`, so that a value of the type
`Input Empty` is one without variables. The members of an object are sorted by key. -/
inductive Input (ν : Type) where
  | var (name : ν)
  | int (i : Int64)
  | float (x : Binary64)
  | string (s : String)
  | boolean (b : Bool)
  | null
  | enum (s : String)
  | list (items : List (Input ν))
  | object (members : List (String × Input ν))
  deriving Repr, Inhabited

/-- The type of a variable. -/
inductive TypeRef where
  | named (name : String)
  | list (item : TypeRef)
  | nonNull (type : TypeRef)
  deriving DecidableEq, Repr

/-- Whether a variable of a type has to have a value. -/
def TypeRef.isRequired : TypeRef → Bool
  | nonNull _ => true
  | _ => false

/-- The declaration of a variable. -/
structure VariableDefinition where
  name : String
  type : TypeRef
  default : Option (Input Empty)
  deriving Repr

/-- What an operation does. -/
inductive OperationKind where
  | query
  | mutation
  | subscription
  deriving DecidableEq, Repr

/-- The items of a selection set as written. -/
abbrev Items := List (Item (Input String))

/-- An operation, and where it is written. -/
structure Operation where
  kind : OperationKind
  position : Position
  name : Option String
  declared : List VariableDefinition
  items : Items
  deriving Repr

/-- The definition of a fragment. -/
structure FragmentDefinition where
  name : String
  condition : String
  items : Items
  deriving Repr

/-- A definition of a document. -/
inductive Definition where
  | operation (o : Operation)
  | fragment (f : FragmentDefinition)
  deriving Repr

/-- A document: its definitions in order. -/
abbrev Source := List Definition

/-- The operations of a document. -/
def operations (source : Source) : List Operation :=
  source.filterMap fun
    | .operation o => some o
    | .fragment _ => none

/-- The fragments of a document. -/
def fragments (source : Source) : List FragmentDefinition :=
  source.filterMap fun
    | .operation _ => none
    | .fragment f => some f

end GraphRead.Graphql
