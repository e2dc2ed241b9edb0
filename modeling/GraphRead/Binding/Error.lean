import GraphRead.Document.Path
import GraphRead.Error
/-!
Errors of binding: what in a query does not fit the schema, and where.
-/

namespace GraphRead

/-- Why a selection cannot be bound. All but the first and the last are faults of the query. -/
inductive BindError where
  | schema (reason : String)
  | typeNotFound (name : String) (path : Path)
  | unsupportedField (field type : String) (path : Path)
  | unknownArgument (argument field : String) (path : Path)
  | missingPagination (field : String) (path : Path)
  | invalidPagination (field reason : String) (path : Path)
  | invalidCursor (field reason : String) (path : Path)
  | invalidArgument (argument reason : String) (path : Path)
  | query (error : QueryError)
  | domain (error : DomainError)
  deriving DecidableEq, Repr

namespace BindError

/-- A path in parentheses. -/
def place (path : Path) : String := "(at `" ++ path.text ++ "`)"

/-- The error in words. -/
def message : BindError → String
  | schema reason => "Schema error: " ++ reason
  | typeNotFound name path => "Type `" ++ name ++ "` not found " ++ place path ++ "."
  | unsupportedField field type path =>
    "Field `" ++ field ++ "` is not supported on type `" ++ type ++ "` " ++ place path ++ "."
  | unknownArgument argument field path =>
    "Argument `" ++ argument ++ "` is not supported on field `" ++ field ++ "` " ++ place path ++
      "."
  | missingPagination field path =>
    "Connection field `" ++ field ++ "` requires a `first` or `last` argument " ++ place path ++ "."
  | invalidPagination field reason path =>
    "Invalid pagination arguments on `" ++ field ++ "`: " ++ reason ++ " " ++ place path ++ "."
  | invalidCursor field reason path =>
    "Invalid cursor on `" ++ field ++ "`: " ++ reason ++ " " ++ place path ++ "."
  | invalidArgument argument reason path =>
    "Invalid value for argument `" ++ argument ++ "` " ++ place path ++ ": " ++ reason
  | query error => error.message
  | domain error => error.message

/-- Whether the query is at fault. -/
def isUserError : BindError → Bool
  | schema _ => false
  | domain _ => false
  | _ => true

end BindError

end GraphRead
