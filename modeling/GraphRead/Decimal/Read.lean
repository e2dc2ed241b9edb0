import GraphRead.Decimal.Basic
/-!
Reading decimals: an optional sign, digits with at most one point among them, and an optional
exponent.

The places of the decimal are the characters behind the point, less the exponent. An underscore
between digits is passed over, but behind the point it still counts as a place. The digits before
and behind the point are read together as one signed integer, which is why the sign is looked for
after the point has been taken out.
-/

namespace GraphRead.Decimal

/-- The digits of a run with underscores in it. Other characters are refused. -/
def plainDigits (run : List Char) : Option (List Char) :=
  let digits := run.filter (· ≠ '_')
  if digits.all Digits.isDigit then some digits else none

/-- A natural number in digits and underscores, the first of which is a digit. -/
def magnitude? (run : List Char) : Option Nat :=
  match run with
  | [] => none
  | '_' :: _ => none
  | run => (plainDigits run).map Digits.value

/-- A signed integer in digits and underscores. A plus may stand behind nothing, a minus in front
of the digits alone. -/
def integer? (run : List Char) : Option Int :=
  match run with
  | '-' :: rest => (magnitude? rest).map fun n => -(n : Int)
  | '+' :: rest => (magnitude? rest).map Int.ofNat
  | rest => (magnitude? rest).map Int.ofNat

/-- An exponent: an integer of 64 bits with a sign, in front of which one more plus may stand. -/
def exponent? (text : List Char) : Option Int := do
  let body := match text with
    | '+' :: rest => rest
    | rest => rest
  let e ← Digits.toInt? body
  if fits64 e then some e else none

/-- Cuts a text at the first character that passes the test, which is dropped. -/
def cutAt (test : Char → Bool) (text : List Char) : List Char × Option (List Char) :=
  match text.dropWhile (fun c => !test c) with
  | [] => (text, none)
  | _ :: rest => (text.takeWhile (fun c => !test c), some rest)

/-- Reads a decimal. -/
def read (text : List Char) : Option Decimal := do
  let (base, power) := cutAt (fun c => c = 'e' || c = 'E') text
  let exponent ← match power with
    | some digits => exponent? digits
    | none => some 0
  match cutAt (· = '.') base with
  | (lead, some trail) => return ⟨← integer? (lead ++ trail), (trail.length : Int) - exponent⟩
  | (digits, none) => return ⟨← integer? digits, -exponent⟩

end GraphRead.Decimal
