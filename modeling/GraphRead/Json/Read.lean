import GraphRead.Json.Text
import GraphRead.Keyed
import GraphRead.Decimal.Binary64
import GraphRead.Text.Reader
/-!
Reading JSON strictly.

A value may stand at most 127 arrays and objects deep, which is the number that the recursion
counts down. Of members with one key the last value stays, in the place of the first. A number
whose size is beyond binary floating point is refused.
-/

namespace GraphRead.Json

open Reader

/-- Passes over blanks. -/
def blanks : Reader Char Unit := fun input =>
  some ((), input.dropWhile fun c => c = ' ' || c = '\n' || c = '\r' || c = '\t')

/-- One symbol with blanks around it. -/
def mark (c : Char) : Reader Char Unit := do
  blanks
  word [c]
  blanks

/-! ### Numbers -/

/-- A run of at least one digit. -/
def digits1 : Reader Char (List Char) := many1 (satisfy Digits.isDigit)

/-- The digits before the point: a zero, or digits that do not start with one. -/
def wholeDigits : Reader Char (List Char)
  | '0' :: rest => some (['0'], rest)
  | input => digits1 input

/-- An exponent behind its letter. -/
def exponent : Reader Char Int := do
  let _ ← satisfy fun c => c = 'e' || c = 'E'
  let sign ← opt (satisfy fun c => c = '+' || c = '-')
  let digits ← digits1
  return if sign = some '-' then -(Digits.value digits : Int) else Digits.value digits

/-- A number whose size binary floating point can hold. -/
def numeral : Reader Char Number := do
  let minus ← opt (satisfy (· = '-'))
  let lead ← wholeDigits
  let trail ← opt (do word ['.']; digits1)
  let power ← opt exponent
  let magnitude := Digits.value (lead ++ trail.getD [])
  let signed : Int := if minus.isSome then -(magnitude : Int) else magnitude
  let decimal : Decimal := ⟨signed, ((trail.getD []).length : Int) - power.getD 0⟩
  if (Binary64.ofDecimal false decimal).isFinite then
    if trail.isNone ∧ power.isNone ∧ ¬(minus.isSome ∧ magnitude = 0) then
      return .integer signed
    else return .real decimal
  else refuse

/-! ### Strings -/

/-- Four hexadecimal digits. -/
def unit : Reader Char Nat := fun input =>
  let digits := input.take 4
  if digits.length = 4 then (Uuid.hexNumber? digits).map fun n => (n, input.drop 4) else none

/-- The character of an escape by number. A number from the upper half of the surrogates has to be
followed by an escape from the lower half, and the two make one character. -/
def escapedUnit : Reader Char Char := do
  let first ← unit
  if 0xD800 ≤ first ∧ first < 0xDC00 then
    word ['\\', 'u']
    let second ← unit
    if 0xDC00 ≤ second ∧ second < 0xE000 then
      return Char.ofNat (0x10000 + (first - 0xD800) * 0x400 + (second - 0xDC00))
    else refuse
  else if 0xDC00 ≤ first ∧ first < 0xE000 then refuse
  else return Char.ofNat first

/-- The character that a letter behind a backslash stands for. -/
def shortEscape? (c : Char) : Option Char :=
  if c = '"' ∨ c = '\\' ∨ c = '/' then some c
  else if c = 'b' then some (Char.ofNat 8)
  else if c = 'f' then some (Char.ofNat 12)
  else if c = 'n' then some '\n'
  else if c = 'r' then some '\r'
  else if c = 't' then some '\t'
  else none

/-- One character of a string. -/
def character : Reader Char Char
  | '\\' :: 'u' :: rest => escapedUnit rest
  | '\\' :: c :: rest => (shortEscape? c).map fun d => (d, rest)
  | c :: rest => if c = '"' ∨ c = '\\' ∨ c.toNat < 32 then none else some (c, rest)
  | [] => none

/-- A string in quotes. -/
def quoted : Reader Char String := do
  word ['"']
  let characters ← many character
  word ['"']
  return String.ofList characters

/-! ### Values -/

/-- Items with commas between them, in brackets. -/
def bracketed {α : Type} (opening closing : Char) (item : Reader Char α) :
    Reader Char (List α) := do
  mark opening
  let items ← either
    (do
      let first ← item
      let more ← many (do mark ','; item)
      return first :: more)
    (pure [])
  blanks
  word [closing]
  return items

/-- A member of an object. -/
def member (item : Reader Char Json) : Reader Char (String × Json) := do
  let key ← quoted
  mark ':'
  return (key, ← item)

/-- A value without parts. -/
def scalar : Reader Char Json :=
  either (do word "null".toList; return null) <|
  either (do word "true".toList; return boolean true) <|
  either (do word "false".toList; return boolean false) <|
  either (do return string (← quoted)) (do return number (← numeral))

/-- A value with at most so many arrays and objects around any of its parts. -/
def nested : Nat → Reader Char Json
  | 0 => scalar
  | depth + 1 =>
    either scalar <|
    either (do return array (← bracketed '[' ']' (nested depth)))
      (do return object (Keyed.ofList (← bracketed '\x7b' '\x7d' (member (nested depth)))))

/-- The most arrays and objects that may stand around a value. -/
def maxDepth : Nat := 127

/-- A text that holds one value and blanks. -/
def document : Reader Char Json := do
  blanks
  let value ← nested maxDepth
  blanks
  return value

/-- Reads the value that the whole of a text is. -/
def read (text : List Char) : Option Json := document.whole text

end GraphRead.Json
