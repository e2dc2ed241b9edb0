import GraphRead.Binding.Error
import GraphRead.Resolve.Error
/-!
Errors of execution: everything that can keep a query from having a response, and what of it the
sender of the query is told.

Faults of the query are reported in full. Of everything else only the category is told, so that
nothing of the data or of the schema comes out in an error.
-/

namespace GraphRead

/-- Why a query has no response. -/
inductive ExecutionError where
  | query (error : QueryError)
  | bind (error : BindError)
  | resolve (error : ResolveError)
  | store (error : StoreError)
  | domain (error : DomainError)
  | cancelled
  | timedOut (milliseconds : Nat)
  deriving DecidableEq, Repr

/-- The categories of errors that the sender of a query can tell apart. -/
inductive ErrorCategory where
  | queryValidation
  | dataAccess
  | cancelled
  | internal
  deriving DecidableEq, Repr

/-- What the sender of a query is told. -/
structure UserError where
  category : ErrorCategory
  message : String
  deriving DecidableEq, Repr

namespace ExecutionError

/-- An error of binding. A fault that the query had before is taken out. -/
def ofBind : BindError → ExecutionError
  | .query error => .query error
  | error => .bind error

/-- An error of resolving. An error of the data store is taken out. -/
def ofResolve : ResolveError → ExecutionError
  | .store error => .store error
  | error => .resolve error

/-- The error in words. -/
def message : ExecutionError → String
  | query error => error.message
  | bind error => "Error in query graph construction: " ++ error.message
  | resolve error => error.message
  | store error => "Error in connector: " ++ error.message
  | domain error => "Error in domain logic: " ++ error.message
  | cancelled => "Query resolution was cancelled."
  | timedOut milliseconds =>
    "Query resolution timed out after " ++ toString milliseconds ++ " ms."

/-- Whether the query is at fault. -/
def isMalformedQuery : ExecutionError → Bool
  | query _ => true
  | bind error => error.isUserError
  | _ => false

/-- The category of an error. -/
def category (error : ExecutionError) : ErrorCategory :=
  if error.isMalformedQuery then .queryValidation
  else
    match error with
    | store _ => .dataAccess
    | resolve (.store _) => .dataAccess
    | cancelled => .cancelled
    | timedOut _ => .cancelled
    | _ => .internal

/-- What the sender of the query is told about an error. -/
def userFacing (error : ExecutionError) : UserError :=
  let told := match error.category with
    | .queryValidation => error.message
    | .dataAccess => "The data store failed to answer the query."
    | .cancelled => error.message
    | .internal => "An internal error occurred while resolving the query."
  ⟨error.category, told⟩

end ExecutionError

end GraphRead
