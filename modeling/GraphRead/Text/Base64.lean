/-!
Base64: bytes as digits of six bits, in the two alphabets that the library uses.

Three bytes make four digits. One or two bytes that are left over make two or three digits, whose
unused low bits are zero, and the padded form fills the last group with `=`. Reading is strict: it
accepts what writing produces and nothing else.
-/

namespace GraphRead.Base64

/-- A way of writing digits of six bits. -/
structure Alphabet where
  /-- The characters of the two digits above letters and numbers. -/
  digit62 : Char
  digit63 : Char
  /-- Whether the last group is filled up with `=`. -/
  padded : Bool

/-- Letters, numbers, `+` and `/`, padded. -/
def standard : Alphabet := ⟨'+', '/', true⟩

/-- Letters, numbers, `-` and `_`, which need no escaping in an address, without padding. -/
def urlSafe : Alphabet := ⟨'-', '_', false⟩

/-- The character of a digit below 64. -/
def Alphabet.digit (alphabet : Alphabet) (n : Nat) : Char :=
  if n < 26 then Char.ofNat (65 + n)
  else if n < 52 then Char.ofNat (97 + (n - 26))
  else if n < 62 then Char.ofNat (48 + (n - 52))
  else if n = 62 then alphabet.digit62
  else alphabet.digit63

/-- The digit that a character stands for. -/
def Alphabet.value? (alphabet : Alphabet) (c : Char) : Option Nat :=
  if 'A' ≤ c ∧ c ≤ 'Z' then some (c.toNat - 65)
  else if 'a' ≤ c ∧ c ≤ 'z' then some (c.toNat - 97 + 26)
  else if '0' ≤ c ∧ c ≤ '9' then some (c.toNat - 48 + 52)
  else if c = alphabet.digit62 then some 62
  else if c = alphabet.digit63 then some 63
  else none

/-- The digits of six bits that bytes are cut into. -/
def sextets : List UInt8 → List Nat
  | a :: b :: c :: rest =>
    a.toNat / 4 :: (a.toNat % 4 * 16 + b.toNat / 16) :: (b.toNat % 16 * 4 + c.toNat / 64) ::
      c.toNat % 64 :: sextets rest
  | [a, b] => [a.toNat / 4, a.toNat % 4 * 16 + b.toNat / 16, b.toNat % 16 * 4]
  | [a] => [a.toNat / 4, a.toNat % 4 * 16]
  | [] => []

/-- The bytes that digits of six bits make up. A digit that stands alone and bits that belong to
no byte are refused. -/
def octets? : List Nat → Option (List UInt8)
  | p :: q :: r :: s :: rest => do
    let more ← octets? rest
    return UInt8.ofNat (p * 4 + q / 16) :: UInt8.ofNat (q % 16 * 16 + r / 4) ::
      UInt8.ofNat (r % 4 * 64 + s) :: more
  | [p, q, r] =>
    if r % 4 = 0 then some [UInt8.ofNat (p * 4 + q / 16), UInt8.ofNat (q % 16 * 16 + r / 4)]
    else none
  | [p, q] => if q % 16 = 0 then some [UInt8.ofNat (p * 4 + q / 16)] else none
  | [_] => none
  | [] => some []

/-- The padding after a number of digits. -/
def padding (alphabet : Alphabet) (digits : Nat) : List Char :=
  if alphabet.padded then List.replicate ((4 - digits % 4) % 4) '=' else []

/-- Writes bytes. -/
def encode (alphabet : Alphabet) (bytes : List UInt8) : List Char :=
  let digits := sextets bytes
  digits.map alphabet.digit ++ padding alphabet digits.length

/-- Reads bytes back. The padding has to be there exactly where the alphabet wants it. -/
def decode (alphabet : Alphabet) (text : List Char) : Option (List UInt8) := do
  let digits := text.takeWhile (· ≠ '=')
  if text.dropWhile (· ≠ '=') = padding alphabet digits.length then
    octets? (← digits.mapM alphabet.value?)
  else none

end GraphRead.Base64
