import GraphRead.Decimal.Basic
/-!
JSON values, with the members of objects in order.
-/

namespace GraphRead

/-- A number as written: an integer without a point, an exponent or a minus before zero, or a real
number, of which the written decimal is kept. -/
inductive Json.Number where
  | integer (i : Int)
  | real (d : Decimal)
  deriving DecidableEq, Repr

/-- A JSON value. -/
inductive Json where
  | null
  | boolean (b : Bool)
  | number (n : Json.Number)
  | string (s : String)
  | array (items : List Json)
  | object (members : List (String × Json))
  deriving Repr, Inhabited

namespace Json

/-- The text of a JSON string. -/
def string? : Json → Option String
  | string s => some s
  | _ => none

/-- The items of a JSON array. -/
def array? : Json → Option (List Json)
  | array items => some items
  | _ => none

/-- The members of a JSON object. -/
def object? : Json → Option (List (String × Json))
  | object members => some members
  | _ => none

end Json

end GraphRead
