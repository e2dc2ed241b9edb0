import GraphRead.Document.Path
import GraphRead.Store.Read
/-!
Errors of resolving: what can go wrong while the reads of a query are made and put together. None
of them is a fault of the query.
-/

namespace GraphRead

/-- Why bound reads have no response. -/
inductive ResolveError where
  /-- The types behind one position are sorted differently, so their records cannot be merged. -/
  | divergentOrder (position : Path) (details : String)
  | tooManyRecords (position : Path) (found : Nat)
  | missingRecord (position : Path) (key : String)
  | store (error : StoreError)
  | domain (error : DomainError)
  deriving DecidableEq, Repr

/-- The error in words. -/
def ResolveError.message : ResolveError → String
  | divergentOrder position details =>
    "Order expressions diverge across the concrete types of `" ++ position.text ++ "`: " ++ details
  | tooManyRecords position found =>
    "Expected at most one record for `" ++ position.text ++ "`, found " ++ toString found ++ "."
  | missingRecord position key =>
    "Required association `" ++ position.text ++ "` resolved to no record for join key " ++ key ++
      "."
  | store error => "Error in connector: " ++ error.message
  | domain error => "Error in domain logic: " ++ error.message

end GraphRead
