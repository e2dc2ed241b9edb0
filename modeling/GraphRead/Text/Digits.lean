/-!
Decimal digits: how natural numbers and integers are written, and how runs of digits are read.

Numbers are written with `Nat.toDigits`, without leading zeros. Reading takes any run of the ten
digits, with as many leading zeros as there are.
-/

namespace GraphRead.Digits

/-- The ten digits. -/
def isDigit (c : Char) : Bool := '0' ≤ c && c ≤ '9'

/-- A natural number in decimal digits. -/
def ofNat (n : Nat) : List Char := Nat.toDigits 10 n

/-- An integer in decimal digits, after a minus sign if it is negative. -/
def ofInt (i : Int) : List Char := if i < 0 then '-' :: ofNat i.natAbs else ofNat i.natAbs

/-- The number that a run of digits stands for. -/
def value (digits : List Char) : Nat := Nat.ofDigitChars 10 digits 0

/-- The number that a text of digits alone stands for. -/
def toNat? (text : List Char) : Option Nat :=
  if !text.isEmpty && text.all isDigit then some (value text) else none

/-- A number filled up with zeros on the left to a width. -/
def padded (width n : Nat) : List Char :=
  List.replicate (width - (ofNat n).length) '0' ++ ofNat n

/-- Reads an integer with an optional sign of either kind. -/
def toInt? (text : List Char) : Option Int :=
  match text with
  | '-' :: rest => (toNat? rest).map fun n => -(n : Int)
  | '+' :: rest => (toNat? rest).map Int.ofNat
  | rest => (toNat? rest).map Int.ofNat

/-- Reading undoes writing. -/
theorem value_ofNat (n : Nat) : value (ofNat n) = n :=
  Nat.ofDigitChars_toDigits (by decide) (by decide)

end GraphRead.Digits
