import GraphRead.Value.Basic
import GraphRead.Decimal.Binary64
import GraphRead.Decimal.Read
import GraphRead.Json.Basic
import GraphRead.Keyed
/-!
Values and JSON, in two forms.

The plain form is what clients send and get: strings, enumeration values, date-times, identifiers
and bytes are all strings in it. The tagged form keeps the kinds apart: a kind that plain JSON has
no word for is an object with the keys `graph__type` and `graph__value`, and `ofTagged` reads back
what `tagged` wrote.
-/

namespace GraphRead.Value

/-- A decimal from a real number of JSON, by way of binary floating point. -/
def decimalOf? : Json.Number → Option Decimal
  | .integer i => (Binary64.ofDecimal (decide (i < 0)) ⟨i, 0⟩).toDecimal
  | .real d => (Binary64.ofDecimal (decide (d.unscaled < 0)) d).toDecimal

/-- The value of a binary floating point number, if it is finite. -/
def ofBinary64 (x : Binary64) : Except ConversionFailure Value :=
  match x.toDecimal with
  | some d => .ok (float d)
  | none => .error ⟨"f64", "Decimal"⟩

/-! ### The plain form -/

/-- A number of plain JSON: an integer if it is in range, else a decimal without zeros at its
end. -/
def ofNumber (n : Json.Number) : Except ConversionFailure Value :=
  match n with
  | .integer i =>
    if fits64 i then .ok (int (Int64.ofInt i)) else rounded
  | .real _ => rounded
where
  rounded : Except ConversionFailure Value :=
    match decimalOf? n with
    | some d => .ok (float d.normalized)
    | none => .error ⟨"JSON number", "GraphValue::Float"⟩

mutual

/-- The value of plain JSON. -/
def ofPlain : Json → Except ConversionFailure Value
  | .null => .ok null
  | .boolean b => .ok (boolean b)
  | .number n => ofNumber n
  | .string s => .ok (string s)
  | .array items => do return list (← ofPlainItems items)
  | .object members => do return object (← ofPlainMembers members)

/-- The values of the items of an array, up to the first that has none. -/
def ofPlainItems : List Json → Except ConversionFailure (List Value)
  | [] => .ok []
  | item :: rest => do
    let first ← ofPlain item
    return first :: (← ofPlainItems rest)

/-- The values of the members of an object, up to the first that has none. -/
def ofPlainMembers : List (String × Json) → Except ConversionFailure (List (String × Value))
  | [] => .ok []
  | (key, item) :: rest => do
    let first ← ofPlain item
    return (key, first) :: (← ofPlainMembers rest)

end

mutual

/-- The plain form of a value. Decimals become binary floating point numbers, which the given
function spells; where that number is not finite, null stands for it. -/
def plain (spell : Binary64 → Json) : Value → Json
  | null => .null
  | boolean b => .boolean b
  | int i => .number (.integer i.toInt)
  | float d =>
    let x := Binary64.approximate d
    if x.isFinite then spell x else .null
  | list items => .array (plainItems spell items)
  | object members => .object (plainMembers spell members)
  | scalar => .string scalar.text

/-- The plain forms of the items of a list. -/
def plainItems (spell : Binary64 → Json) : List Value → List Json
  | [] => []
  | item :: rest => plain spell item :: plainItems spell rest

/-- The plain forms of the members of an object. -/
def plainMembers (spell : Binary64 → Json) : List (String × Value) → List (String × Json)
  | [] => []
  | (key, item) :: rest => (key, plain spell item) :: plainMembers spell rest

end

/-! ### The tagged form -/

/-- The key that names the kind of a tagged value. -/
def typeKey : String := "graph__type"

/-- The key of the text of a tagged value. -/
def valueKey : String := "graph__value"

/-- A text under the name of its kind. -/
def tag (name text : String) : Json := .object [(typeKey, .string name), (valueKey, .string text)]

mutual

/-- The tagged form of a value. -/
def tagged : Value → Json
  | null => .null
  | boolean b => .boolean b
  | int i => .number (.integer i.toInt)
  | float d => tag "decimal" (String.ofList d.text)
  | string s => .string s
  | enum s => tag "enum" s
  | dateTime t => tag "datetime" (String.ofList t.text)
  | uuid u => tag "uuid" (String.ofList u.text)
  | bytes bs => tag "bytes" (String.ofList (Base64.encode Base64.standard bs))
  | list items => .array (taggedItems items)
  | object members => .object (taggedMembers members)

/-- The tagged forms of the items of a list. -/
def taggedItems : List Value → List Json
  | [] => []
  | item :: rest => tagged item :: taggedItems rest

/-- The tagged forms of the members of an object. -/
def taggedMembers : List (String × Value) → List (String × Json)
  | [] => []
  | (key, item) :: rest => (key, tagged item) :: taggedMembers rest

end

/-- The value of a text under the name of its kind. -/
def ofTag (name text : String) : Except ConversionFailure Value :=
  if name = "decimal" then
    match Decimal.read text.toList with
    | some d => .ok (float d)
    | none => .error ⟨"tagged decimal", "GraphValue::Float"⟩
  else if name = "enum" then .ok (enum text)
  else if name = "datetime" then
    match DateTime.read text.toList with
    | some t => .ok (dateTime t)
    | none => .error ⟨"tagged datetime", "GraphValue::DateTime"⟩
  else if name = "uuid" then
    match Uuid.read text.toList with
    | some u => .ok (uuid u)
    | none => .error ⟨"tagged uuid", "GraphValue::Uuid"⟩
  else if name = "bytes" then (readBytes text).map bytes
  else .error ⟨"tagged `" ++ name ++ "`", "GraphValue"⟩

/-- A number of tagged JSON: an integer if it is in range, else a decimal. -/
def ofTaggedNumber (n : Json.Number) : Except ConversionFailure Value :=
  match n with
  | .integer i => if fits64 i then .ok (int (Int64.ofInt i)) else rounded
  | .real _ => rounded
where
  rounded : Except ConversionFailure Value :=
    match decimalOf? n with
    | some d => .ok (float d)
    | none => .error ⟨"tagged number", "GraphValue"⟩

/-- The name of the kind that the members of an object declare, if they do. -/
def declaredTag? (members : List (String × Json)) : Option String :=
  (Keyed.get? members typeKey).bind Json.string?

/-- The text of a tagged value; without one the text is empty. -/
def taggedText (members : List (String × Json)) : String :=
  ((Keyed.get? members valueKey).bind Json.string?).getD ""

mutual

/-- The value of tagged JSON. An object that names a kind stands for a value of that kind, any
other for an object. -/
def ofTagged : Json → Except ConversionFailure Value
  | .null => .ok null
  | .boolean b => .ok (boolean b)
  | .number n => ofTaggedNumber n
  | .string s => .ok (string s)
  | .array items => do return list (← ofTaggedItems items)
  | .object members =>
    match declaredTag? members with
    | some name => ofTag name (taggedText members)
    | none => do return object (← ofTaggedMembers members)

/-- The values of the items of an array, up to the first that has none. -/
def ofTaggedItems : List Json → Except ConversionFailure (List Value)
  | [] => .ok []
  | item :: rest => do
    let first ← ofTagged item
    return first :: (← ofTaggedItems rest)

/-- The values of the members of an object, up to the first that has none. -/
def ofTaggedMembers : List (String × Json) → Except ConversionFailure (List (String × Value))
  | [] => .ok []
  | (key, item) :: rest => do
    let first ← ofTagged item
    return (key, first) :: (← ofTaggedMembers rest)

end

end GraphRead.Value
