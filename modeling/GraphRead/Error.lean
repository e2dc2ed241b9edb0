import GraphRead.Value.Basic
/-!
Errors of the domain: faults of schemas, cursors, arguments and fetched records.
-/

namespace GraphRead

/-- A fault of the domain. -/
inductive DomainError where
  | typeNotFound (name : String)
  | fieldNotFound (type field : String)
  | columnNotFound (type column : String)
  | invalidAssociation (type association reason : String)
  | invalidSchema (reason : String)
  | invalidCursor (reason : String)
  | invalidArgumentValue (argument expected got : String)
  | conversion (failure : ConversionFailure)
  deriving DecidableEq, Repr

namespace DomainError

/-- The fault in words. -/
def message : DomainError → String
  | typeNotFound name => "Type `" ++ name ++ "` not found."
  | fieldNotFound type field => "Field `" ++ field ++ "` not found on type `" ++ type ++ "`."
  | columnNotFound type column =>
    "Column `" ++ column ++ "` is missing from a fetched `" ++ type ++ "` record."
  | invalidAssociation type association reason =>
    "Association `" ++ type ++ "." ++ association ++ "` is invalid: " ++ reason
  | invalidSchema reason => "Invalid schema: " ++ reason
  | invalidCursor reason => "Invalid cursor: " ++ reason
  | invalidArgumentValue argument expected got =>
    "Argument `" ++ argument ++ "` expects " ++ expected ++ ", got `" ++ got ++ "`."
  | conversion failure => failure.message

end DomainError

end GraphRead
