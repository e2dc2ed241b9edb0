import GraphRead.Binding.Bound
/-!
Seeking: the rows that lie beyond a cursor.

A row lies beyond a cursor if it comes strictly later, or strictly earlier, in the order of the
columns. As a filter that is a disjunction: the first column is past its value, or it equals its
value and the second column is past, and so on. Where records of several types are merged, rows
that equal the cursor in every column are ordered by the names of their types, so a type whose
name lies beyond that of the cursor takes them too.
-/

namespace GraphRead

/-- The side of a cursor on which rows are sought, in the declared order. -/
inductive Side where
  | after
  | before
  deriving DecidableEq, Repr

namespace Side

/-- What puts something on this side of a cursor: how it compares with it. -/
def ordering : Side → Ordering
  | after => .gt
  | before => .lt

/-- The column is past the value, in its direction. -/
def past (side : Side) (part : SortColumn) (v : Value) : Filter :=
  match part.direction.apply side.ordering with
  | .gt => .scalar part.column (.gt v)
  | _ => .scalar part.column (.lt v)

/-- For every column in turn, that it is past its value and the earlier columns equal theirs. -/
def alternatives (side : Side) (earlier : List Filter) : Order → List Value → List Filter
  | part :: parts, v :: vs =>
    .allOf (earlier ++ [side.past part v]) ::
      alternatives side (earlier ++ [.equals part.column v]) parts vs
  | _, _ => []

end Side

/-- Every column equals its value. -/
def tied (order : Order) (values : List Value) : List Filter :=
  List.zipWith (fun part v => .equals part.column v) order values

/-- Whether the rows of a type that equal the cursor in every column lie beyond it, as the last
value of the cursor names another type. -/
def Side.takesTies (side : Side) (order : Order) (cursor : Cursor) : Option String → Bool
  | none => false
  | some own =>
    match cursor.values[order.length]? with
    | some (.string other) => compare own other == side.ordering
    | _ => false

/-- The rows that lie on a side of a cursor. The type is named where several types are merged. -/
def seekFilter (order : Order) (cursor : Cursor) (side : Side) (type : Option String) : Filter :=
  .anyOf (side.alternatives [] order cursor.values ++
    if side.takesTies order cursor type then [.allOf (tied order cursor.values)] else [])

namespace Pagination

/-- The side of its cursor on which a page lies. -/
def side : Pagination → Side
  | forward .. => .after
  | backward .. => .before

end Pagination

end GraphRead
