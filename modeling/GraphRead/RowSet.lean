import GraphRead.Error
/-!
Row sets: what a data store answers to a read. The values of a row stand under the columns of the
set by their position.
-/

namespace GraphRead

/-- Rows of values, and the names of their columns. -/
structure RowSet where
  columns : List String
  rows : List (List Value)
  deriving Repr

namespace RowSet

/-- No rows, under some columns. -/
def empty (columns : List String) : RowSet := ⟨columns, []⟩

/-- The first position of a column. -/
def index? (set : RowSet) (column : String) : Option Nat := set.columns.idxOf? column

/-- The first position of a column that has to be there. -/
def require (set : RowSet) (type column : String) : Except DomainError Nat :=
  match set.index? column with
  | some i => .ok i
  | none => .error (.columnNotFound type column)

/-- Adds a row at the end. -/
def push (set : RowSet) (row : List Value) : RowSet := { set with rows := set.rows ++ [row] }

/-- Adds the rows of another set at the end. They count under the columns of the first set. -/
def extend (set other : RowSet) : RowSet := { set with rows := set.rows ++ other.rows }

/-- The rows in the opposite order. -/
def reverse (set : RowSet) : RowSet := { set with rows := set.rows.reverse }

/-- The value at a row and a position. -/
def get? (set : RowSet) (row index : Nat) : Option Value := set.rows[row]?.bind fun vs => vs[index]?

end RowSet

end GraphRead
