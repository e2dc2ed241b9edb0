import GraphRead.Value.Order
import GraphRead.Keyed
/-!
Documents: queries as they are written, before repeated fields are merged and fragments resolved.

The items of a selection set are the same whether the arguments of fields are values already or
still hold variables, so their type leaves open what an argument is.
-/

namespace GraphRead

/-- A field without its selection set. -/
structure FieldHead (α : Type) where
  name : String
  aliasName : Option String
  arguments : List (String × α)
  deriving Repr

/-- The key under which a field is answered: its alias if it has one, else its name. -/
def FieldHead.outputKey {α : Type} (head : FieldHead α) : String := head.aliasName.getD head.name

/-- An item of a selection set. An inline fragment without a condition applies to the type around
it. -/
inductive Item (α : Type) where
  | field (head : FieldHead α) (items : List (Item α))
  | spread (fragment : String)
  | inline (condition : Option String) (items : List (Item α))
  deriving Repr

/-- A field with its selection set. -/
structure WrittenField where
  head : FieldHead Value
  items : List (Item Value)
  deriving Repr

/-- A fragment: the type it applies to and its selection set. -/
structure Fragment where
  condition : String
  items : List (Item Value)
  deriving Repr

/-- The fields that are asked of the query type, and the fragments by name. -/
structure Document where
  root : WrittenField
  fragments : Keyed Fragment
  deriving Repr

end GraphRead
