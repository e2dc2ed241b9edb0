import GraphRead.Value.Basic
/-!
Paths in a query, and the faults that a query can have before it is held against a schema.
-/

namespace GraphRead

/-- The output keys that lead to a selection, from the query type down. -/
abbrev Path := List String

namespace Path

/-- The path one step further down. -/
def add (path : Path) (key : String) : Path := path ++ [key]

/-- A path with points between its steps. -/
def text (path : Path) : String := Text.join "." path

end Path

/-- A place in a text: line and column, both counted from one. -/
structure Position where
  line : Nat
  column : Nat
  deriving DecidableEq, Repr

/-- A position as it is shown. -/
def Position.text (p : Position) : String := toString p.line ++ ":" ++ toString p.column

/-- A fault of a query. -/
inductive QueryFault where
  | duplicateField (field : String)
  | duplicateArgument (argument : String)
  | unknownFragment (name : String)
  | fragmentCycle (name : String)
  | missingVariable (name : String)
  | unknownOperation (name : String)
  | operationNameRequired
  | noOperations
  | mutationUnsupported (position : Position)
  | subscriptionUnsupported (position : Position)
  | unreadableVariable (failure : ConversionFailure)
  | infiniteNumber (negative : Bool)
  /-- The text is no document. -/
  | unparsable
  deriving DecidableEq, Repr

/-- A fault in words. -/
def QueryFault.message : QueryFault → String
  | duplicateField field =>
    "Field `" ++ field ++ "` is selected more than once with incompatible arguments."
  | duplicateArgument argument => "Argument `" ++ argument ++ "` is supplied more than once."
  | unknownFragment name => "Fragment `" ++ name ++ "` is not defined."
  | fragmentCycle name => "Fragment `" ++ name ++ "` spreads itself."
  | missingVariable name => "Variable `$" ++ name ++ "` is not defined."
  | unknownOperation name => "Operation `" ++ name ++ "` is not defined."
  | operationNameRequired =>
    "An operation name is required when the document contains several operations."
  | noOperations => "Document contained no operations."
  | mutationUnsupported p => "Mutations are not supported (at position " ++ p.text ++ ")."
  | subscriptionUnsupported p => "Subscriptions are not supported (at position " ++ p.text ++ ")."
  | unreadableVariable failure => "Value conversion error: " ++ failure.message
  | infiniteNumber negative =>
    "Value conversion error: invalid 64-bit float: " ++ if negative then "-inf" else "inf"
  | unparsable => "Syntax error."

/-- A fault, and where in the query it is. -/
structure QueryError where
  path : Path
  fault : QueryFault
  deriving DecidableEq, Repr

/-- The fault and its place in words. -/
def QueryError.message (error : QueryError) : String :=
  "Query parsing/validation error at `" ++ error.path.text ++ "`: " ++ error.fault.message

/-- The name of the query type, at which every path begins. -/
def rootName : String := "Query"

end GraphRead
