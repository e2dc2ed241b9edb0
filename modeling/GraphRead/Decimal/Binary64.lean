import GraphRead.Decimal.Basic
/-!
Binary floating point of 64 bits, as far as decimals need it.

A finite number is a mantissa below `2 ^ 53` times a power of two. All arithmetic is exact on
natural numbers and rounds once at the end, to the nearest number and to the even mantissa at a
tie. `toDecimal` gives the sixteen significant digits that are nearest to a number, and `ofDecimal`
the number that is nearest to a decimal.
-/

namespace GraphRead

/-- A binary floating point number of 64 bits. -/
inductive Binary64 where
  /-- The number `mantissa * 2 ^ exponent`, with its sign. -/
  | finite (negative : Bool) (mantissa : Nat) (exponent : Int)
  | infinite (negative : Bool)
  | nan
  deriving DecidableEq, Repr

namespace Binary64

/-- The quotient rounded to the nearest natural number, a half going to the even neighbour. -/
def roundQuotient (n d : Nat) : Nat :=
  let q := n / d
  let twice := 2 * (n % d)
  if twice < d then q
  else if d < twice then q + 1
  else if q % 2 = 0 then q else q + 1

/-- The exponent of the last mantissa bit of a number with value `n / d`: the mantissa gets 53
bits, or fewer at the lower end of the range. -/
def lastBit (n d : Nat) : Int :=
  let guess : Int := (n.log2 : Int) - (d.log2 : Int)
  -- The binary logarithm of the quotient is the guess or one less.
  let top := if n * pow2 (-guess).toNat < d * pow2 guess.toNat then guess - 1 else guess
  max (top - 52) (-1074)

/-- The number nearest to `n / d`. -/
def ofRatio (negative : Bool) (n d : Nat) : Binary64 :=
  if n = 0 then finite negative 0 (-1074)
  else
    let e := lastBit n d
    let m := roundQuotient (n * pow2 (-e).toNat) (d * pow2 e.toNat)
    let (m, e) := if m = pow2 53 then (pow2 52, e + 1) else (m, e)
    if e > 971 then infinite negative else finite negative m e

/-- Reads the fields of the interchange format. -/
def ofBits (bits : Nat) : Binary64 :=
  let negative := bits / pow2 63 % 2 = 1
  let biased : Nat := bits / pow2 52 % 2048
  let fraction : Nat := bits % pow2 52
  if biased = 2047 then
    if fraction = 0 then infinite negative else nan
  else if biased = 0 then finite negative fraction (-1074)
  else finite negative (pow2 52 + fraction) ((biased : Int) - 1075)

/-- Writes the fields of the interchange format. -/
def toBits : Binary64 → Nat
  | finite negative m e =>
    (if negative then pow2 63 else 0) +
      if m < pow2 52 then m else (e + 1075).toNat * pow2 52 + (m - pow2 52)
  | infinite negative => (if negative then pow2 63 else 0) + 2047 * pow2 52
  | nan => pow2 63 + 2047 * pow2 52 + pow2 51

/-- The number nearest to an integer. -/
def ofInt (i : Int) : Binary64 := ofRatio (decide (i < 0)) i.natAbs 1

/-- The number nearest to a decimal. A decimal far outside the range is not expanded. -/
def ofDecimal (negative : Bool) (d : Decimal) : Binary64 :=
  let digits : Int := (Digits.ofNat d.unscaled.natAbs).length
  if d.unscaled = 0 then finite negative 0 (-1074)
  else if digits - d.scale > 400 then infinite negative
  else if digits - d.scale < -400 then finite negative 0 (-1074)
  else ofRatio negative (d.unscaled.natAbs * pow10 (-d.scale).toNat) (pow10 d.scale.toNat)

/-- The product, rounded once. -/
def mul : Binary64 → Binary64 → Binary64
  | finite s m e, finite t k f =>
    ofRatio (s != t) (m * k * pow2 (e + f).toNat) (pow2 (-(e + f)).toNat)
  | finite s m _, infinite t => if m = 0 then nan else infinite (s != t)
  | infinite s, finite t m _ => if m = 0 then nan else infinite (s != t)
  | infinite s, infinite t => infinite (s != t)
  | _, _ => nan

/-- One divided by a number, rounded once. -/
def inv : Binary64 → Binary64
  | finite s m e => if m = 0 then infinite s else ofRatio s (pow2 (-e).toNat) (m * pow2 e.toNat)
  | infinite s => finite s 0 (-1074)
  | nan => nan

/-- Multiplies `result` by a power of `base` by squaring, rounding every product. -/
def powerFrom (result base : Binary64) (n : Nat) : Binary64 :=
  if n = 0 then result
  else powerFrom (if n % 2 = 1 then mul result base else result) (mul base base) (n / 2)
termination_by n

/-- An integer power of ten by squaring. A negative power is the inverse of the positive one. -/
def powerOfTen (i : Int) : Binary64 :=
  let power := powerFrom (ofInt 1) (ofInt 10) i.natAbs
  if i < 0 then inv power else power

/-- Whether one of the lowest `count` bits is set in any of the lowest `words` words of 64 bits. -/
def hasLowBit (count : Nat) : Nat → Nat → Bool
  | 0, _ => false
  | words + 1, n => n % pow2 count ≠ 0 || hasLowBit count words (n / pow2 64)

/-- The 64 leading bits of an integer that has more of them. The last one is also set if a bit
below is found to be set. The search looks at as many low bits of each lower word as the highest
word has bits, so it misses the others. -/
def leadingBits (n : Nat) : Nat :=
  let lead := n / pow2 (n.log2 - 63)
  if lead % 2 = 0 && hasLowBit (n.log2 % 64 + 1) (n.log2 / 64) n then lead + 1 else lead

/-- A number for an integer, by way of its 64 leading bits. It is the nearest one if the integer has
no more bits than that, and mostly if it has. -/
def ofLeadingBits (i : Int) : Binary64 :=
  let n := i.natAbs
  if n.log2 < 64 then ofInt i
  else ofRatio (decide (i < 0)) (leadingBits n * pow2 (n.log2 - 63)) 1

/-- A decimal as the rounded integer of its digits times a rounded power of ten. The last bit can
differ from that of the nearest number. -/
def approximate (d : Decimal) : Binary64 :=
  mul (ofLeadingBits d.unscaled) (powerOfTen (-d.scale))

/-- The exponent of the first decimal digit of a positive number `n / d`. -/
def firstDigit (n d : Nat) : Int :=
  let guess : Int := ((Digits.ofNat n).length : Int) - (Digits.ofNat d).length
  if n * pow10 (-guess).toNat < d * pow10 guess.toNat then guess - 1 else guess

/-- The sixteen significant digits nearest to a finite number, a tie going to the even digit. -/
def toDecimal : Binary64 → Option Decimal
  | finite negative m e =>
    if m = 0 then some ⟨0, 15⟩
    else
      let n := m * pow2 e.toNat
      let d := pow2 (-e).toNat
      let k := firstDigit n d
      let digits := roundQuotient (n * pow10 (15 - k).toNat) (d * pow10 (k - 15).toNat)
      let (digits, k) := if digits = pow10 16 then (pow10 15, k + 1) else (digits, k)
      some ⟨if negative then -(digits : Int) else digits, 15 - k⟩
  | infinite _ => none
  | nan => none

/-- Whether a number is finite. -/
def isFinite : Binary64 → Bool
  | finite .. => true
  | _ => false

end Binary64

end GraphRead
