import GraphRead.Json.Basic
import GraphRead.Uuid
/-!
Writing JSON in its compact form: no blanks, and escapes only where they are needed.
-/

namespace GraphRead.Json

/-- A character of a string: quotes, backslashes and control characters are escaped. -/
def characterText (c : Char) : List Char :=
  if c = '"' then ['\\', '"']
  else if c = '\\' then ['\\', '\\']
  else if c = '\n' then ['\\', 'n']
  else if c = '\r' then ['\\', 'r']
  else if c = '\t' then ['\\', 't']
  else if c.toNat = 8 then ['\\', 'b']
  else if c.toNat = 12 then ['\\', 'f']
  else if c.toNat < 32 then '\\' :: 'u' :: Uuid.hexText 4 c.toNat
  else [c]

/-- A string in quotes. -/
def stringText (s : String) : List Char :=
  '"' :: (s.toList.flatMap characterText ++ ['"'])

/-- A number. A real number gets an exponent, so that it does not read as an integer. -/
def Number.text : Number → List Char
  | integer i => Digits.ofInt i
  | real d => Digits.ofInt d.unscaled ++ 'e' :: Digits.ofInt (-d.scale)

mutual

/-- The compact text of a JSON value. -/
def text : Json → List Char
  | null => "null".toList
  | boolean b => if b then "true".toList else "false".toList
  | number n => n.text
  | string s => stringText s
  | array items => '[' :: (itemsText items ++ [']'])
  | object members => '\x7b' :: (membersText members ++ ['\x7d'])

/-- Items with commas between them. -/
def itemsText : List Json → List Char
  | [] => []
  | [item] => text item
  | item :: rest => text item ++ ',' :: itemsText rest

/-- Members with commas between them. -/
def membersText : List (String × Json) → List Char
  | [] => []
  | [(key, item)] => stringText key ++ ':' :: text item
  | (key, item) :: rest => stringText key ++ ':' :: (text item ++ ',' :: membersText rest)

end

end GraphRead.Json
