import GraphRead.Decimal.Basic
import GraphRead.DateTime.Text
import GraphRead.Text.Base64
import GraphRead.Text.Blank
import GraphRead.Uuid
/-!
Values: what arguments, columns of records and parts of cursors hold.

A value has one of eleven kinds. Lists and objects hold values of any kinds, and an object keeps
its members in order. `Value.text` shows a value in messages and filters.
-/

namespace GraphRead

/-- A value. -/
inductive Value where
  | null
  | boolean (b : Bool)
  | int (i : Int64)
  | float (d : Decimal)
  | string (s : String)
  | enum (s : String)
  | dateTime (t : DateTime)
  | uuid (u : Uuid)
  | bytes (bs : List UInt8)
  | list (items : List Value)
  | object (members : List (String × Value))
  deriving Repr, Inhabited

namespace Value

/-- The name of a value's kind. -/
def kind : Value → String
  | null => "Null"
  | boolean _ => "Boolean"
  | int _ => "Int"
  | float _ => "Float"
  | string _ => "String"
  | enum _ => "Enum"
  | dateTime _ => "DateTime"
  | uuid _ => "Uuid"
  | bytes _ => "Bytes"
  | list _ => "List"
  | object _ => "Object"

/-- Whether a value is null. -/
def isNull : Value → Bool
  | null => true
  | _ => false

/-- The truth value of a boolean. -/
def boolean? : Value → Option Bool
  | boolean b => some b
  | _ => none

/-- The number of an integer. -/
def int? : Value → Option Int64
  | int i => some i
  | _ => none

/-- The text of a string. -/
def string? : Value → Option String
  | string s => some s
  | _ => none

/-- The name of an enumeration value. -/
def enum? : Value → Option String
  | enum s => some s
  | _ => none

/-- The text of a string or the name of an enumeration value. -/
def name? : Value → Option String
  | string s => some s
  | enum s => some s
  | _ => none

/-- The items of a list. -/
def list? : Value → Option (List Value)
  | list items => some items
  | _ => none

mutual

/-- A value as it is shown in texts. Strings are shown without quotes. -/
def text : Value → String
  | null => "null"
  | boolean b => if b then "true" else "false"
  | int i => String.ofList (Digits.ofInt i.toInt)
  | float d => String.ofList d.text
  | string s => s
  | enum s => s
  | dateTime t => String.ofList t.text
  | uuid u => String.ofList u.text
  | bytes bs => String.ofList (Base64.encode Base64.standard bs)
  | list items => "[" ++ Text.join ", " (itemTexts items) ++ "]"
  | object members => "\x7b " ++ Text.join ", " (memberTexts members) ++ " \x7d"

/-- The texts of the items of a list. -/
def itemTexts : List Value → List String
  | [] => []
  | item :: rest => text item :: itemTexts rest

/-- The texts of the members of an object: the key in quotes, and the value. -/
def memberTexts : List (String × Value) → List String
  | [] => []
  | (key, item) :: rest => ("\"" ++ key ++ "\": " ++ text item) :: memberTexts rest

end

end Value

/-- A value that has no counterpart of another kind: what it was, and what was wanted. -/
structure ConversionFailure where
  source : String
  target : String
  deriving DecidableEq, Repr

namespace ConversionFailure

/-- The failure in words. -/
def message (failure : ConversionFailure) : String :=
  "Unable to convert value from `" ++ failure.source ++ "` to `" ++ failure.target ++ "`."

end ConversionFailure

namespace Value

/-- The number of an integer, or why there is none. -/
def toInt64 (v : Value) : Except ConversionFailure Int64 :=
  match v.int? with
  | some i => .ok i
  | none => .error ⟨v.kind, "i64"⟩

/-- The text of a string, or why there is none. -/
def toText (v : Value) : Except ConversionFailure String :=
  match v.string? with
  | some s => .ok s
  | none => .error ⟨v.kind, "String"⟩

/-- Reads bytes from padded base64. -/
def readBytes (s : String) : Except ConversionFailure (List UInt8) :=
  match Base64.decode Base64.standard s.toList with
  | some bs => .ok bs
  | none => .error ⟨"base64 encoded bytes", "GraphValue::Bytes"⟩

/-- Reads a date-time. -/
def readDateTime (s : String) : Except ConversionFailure Value :=
  match DateTime.read s.toList with
  | some t => .ok (dateTime t)
  | none => .error ⟨"RFC 3339 string", "GraphValue::DateTime"⟩

end Value

end GraphRead
