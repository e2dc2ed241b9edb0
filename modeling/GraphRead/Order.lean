import GraphRead.Value.Order
/-!
Orders: columns with a direction each, the first of which that tells two rows apart decides.
-/

namespace GraphRead

/-- A direction of sorting. -/
inductive Direction where
  | ascending
  | descending
  deriving DecidableEq, Repr

namespace Direction

/-- The other direction. -/
def reverse : Direction → Direction
  | ascending => descending
  | descending => ascending

/-- An ascending comparison as this direction sees it. -/
def apply : Direction → Ordering → Ordering
  | ascending, ordering => ordering
  | descending, ordering => ordering.swap

/-- The word for a direction. -/
def text : Direction → String
  | ascending => "ASC"
  | descending => "DESC"

end Direction

/-- A column to sort by. -/
structure SortColumn where
  column : String
  direction : Direction
  deriving DecidableEq, Repr

/-- The columns to sort by, the most important first. -/
abbrev Order := List SortColumn

namespace Order

/-- The names of the columns. -/
def columns (order : Order) : List String := order.map SortColumn.column

/-- Sorts by the primary key at last, unless the order has the primary key among its columns. -/
def withTiebreaker (order : Order) (primaryKey : String) : Order :=
  if order.any fun part => part.column = primaryKey then order
  else order ++ [⟨primaryKey, .ascending⟩]

/-- The same columns in the other direction. -/
def reversed (order : Order) : Order :=
  order.map fun part => ⟨part.column, part.direction.reverse⟩

/-- Compares two rows given as the values of the columns, in the order of the columns. Columns
for which either row has no value do not count. -/
def compareKeys : Order → List Value → List Value → Ordering
  | part :: parts, l :: ls, r :: rs =>
    (part.direction.apply (compare l r)).then (compareKeys parts ls rs)
  | _, _, _ => .eq

/-- An order in words. -/
def text (order : Order) : String :=
  Text.join ", " (order.map fun part => part.column ++ " " ++ part.direction.text)

end Order

end GraphRead
