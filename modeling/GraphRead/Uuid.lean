/-!
Universally unique identifiers: 128 bits, written as 32 hexadecimal digits.

Writing gives lower-case digits in groups of 8, 4, 4, 4 and 12. Reading takes digits of either
case, in the written form, without hyphens, in braces, or behind `urn:uuid:`.
-/

namespace GraphRead

/-- An identifier of 128 bits. -/
structure Uuid where
  bits : BitVec 128
  deriving DecidableEq, Repr

namespace Uuid

/-- The order of the bits read as one number. -/
def compare (left right : Uuid) : Ordering := Ord.compare left.bits right.bits

/-- A hexadecimal digit below 16, in lower case. -/
def hexDigit (n : Nat) : Char := if n < 10 then Char.ofNat (48 + n) else Char.ofNat (87 + n)

/-- The value of a hexadecimal digit of either case. -/
def hexValue? (c : Char) : Option Nat :=
  if '0' ≤ c ∧ c ≤ '9' then some (c.toNat - 48)
  else if 'a' ≤ c ∧ c ≤ 'f' then some (c.toNat - 87)
  else if 'A' ≤ c ∧ c ≤ 'F' then some (c.toNat - 55)
  else none

/-- The last `count` hexadecimal digits of a number. -/
def hexText (count n : Nat) : List Char :=
  match count with
  | 0 => []
  | k + 1 => hexText k (n / 16) ++ [hexDigit (n % 16)]

/-- The number that hexadecimal digits stand for. -/
def hexNumber? (digits : List Char) : Option Nat :=
  digits.foldlM (fun n c => (hexValue? c).map fun d => n * 16 + d) 0

/-- Puts hyphens behind the 8th, 12th, 16th and 20th digit. -/
def hyphenated (digits : List Char) : List Char :=
  digits.take 8 ++ '-' :: ((digits.drop 8).take 4 ++ '-' :: ((digits.drop 12).take 4 ++
    '-' :: ((digits.drop 16).take 4 ++ '-' :: digits.drop 20)))

/-- An identifier as text. -/
def text (u : Uuid) : List Char := hyphenated (hexText 32 u.bits.toNat)

/-- Reads 32 digits without hyphens. -/
def readPlain (digits : List Char) : Option Uuid :=
  if digits.length = 32 then (hexNumber? digits).map fun n => ⟨BitVec.ofNat 128 n⟩ else none

/-- Reads digits in hyphenated groups. -/
def readHyphenated (input : List Char) : Option Uuid :=
  let digits := input.filter (· ≠ '-')
  if hyphenated digits = input then readPlain digits else none

/-- The mark before an identifier that is used as a name. -/
def nameMark : List Char := "urn:uuid:".toList

/-- Whether a text starts with the name mark, in letters of either case. -/
def hasNameMark (input : List Char) : Bool :=
  (input.take nameMark.length).map Char.toLower = nameMark

/-- What the wrapping of an identifier holds: braces and the name mark are taken off. -/
def unwrapped (input : List Char) : List Char :=
  if hasNameMark input then input.drop nameMark.length
  else
    match input with
    | '\x7b' :: rest => if rest.getLast? = some '\x7d' then rest.dropLast else input
    | _ => input

/-- Reads an identifier in any of its forms. -/
def read (input : List Char) : Option Uuid :=
  if input.length = 32 then readPlain input else readHyphenated (unwrapped input)

end Uuid

end GraphRead
