import GraphRead.Value.Order
/-!
Conditions on the value of one column.

A comparison with null on either side never holds; only `isNull` looks at null. `invert` turns a
condition into the one that holds of the other values.
-/

namespace GraphRead

/-- A condition on a value. -/
inductive Condition where
  | eq (operand : Value)
  | ne (operand : Value)
  | lt (operand : Value)
  | le (operand : Value)
  | gt (operand : Value)
  | ge (operand : Value)
  | oneOf (operands : List Value)
  | noneOf (operands : List Value)
  | isNull (expected : Bool)
  deriving Repr

namespace Condition

/-- The opposite condition, if it is asked for. -/
def invert (condition : Condition) (asked : Bool) : Condition :=
  if asked then
    match condition with
    | eq v => ne v
    | ne v => eq v
    | lt v => ge v
    | le v => gt v
    | gt v => le v
    | ge v => lt v
    | oneOf vs => noneOf vs
    | noneOf vs => oneOf vs
    | isNull b => isNull !b
  else condition

/-- The order of two values, neither of which is null. -/
def compareNonNull (left right : Value) : Option Ordering :=
  if left.isNull || right.isNull then none else some (compare left right)

/-- Whether the order of two values is known and passes the test. -/
def ordered (left right : Value) (test : Ordering → Bool) : Bool :=
  (compareNonNull left right).any test

/-- Whether a value meets a condition. -/
def holds (condition : Condition) (value : Value) : Bool :=
  match condition with
  | isNull expected => value.isNull == expected
  | eq operand => ordered value operand (· == .eq)
  | ne operand => ordered value operand (· != .eq)
  | lt operand => ordered value operand (· == .lt)
  | le operand => ordered value operand (· != .gt)
  | gt operand => ordered value operand (· == .gt)
  | ge operand => ordered value operand (· != .lt)
  | oneOf operands => !value.isNull && operands.any fun v => v == value
  | noneOf operands => !value.isNull && operands.all fun v => !v.isNull && !(v == value)

/-- A condition on a column in words. -/
def text (condition : Condition) (column : String) : String :=
  match condition with
  | eq v => column ++ " = " ++ v.text
  | ne v => column ++ " <> " ++ v.text
  | lt v => column ++ " < " ++ v.text
  | le v => column ++ " <= " ++ v.text
  | gt v => column ++ " > " ++ v.text
  | ge v => column ++ " >= " ++ v.text
  | oneOf vs => column ++ " IN " ++ (Value.list vs).text
  | noneOf vs => column ++ " NOT IN " ++ (Value.list vs).text
  | isNull true => column ++ " IS NULL"
  | isNull false => column ++ " IS NOT NULL"

end Condition

end GraphRead
