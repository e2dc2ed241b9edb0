import GraphRead.Power
import GraphRead.Text.Digits
/-!
Decimals: an integer and the place of its decimal point.

A decimal keeps the digits it was written with, so `1.50` and `1.5` are two decimals. Comparison
looks at the number alone: the two are equal, and both lie between `1.49` and `2`.
-/

namespace GraphRead

/-- The number `unscaled / 10 ^ scale`. A negative scale puts zeros behind the digits. -/
structure Decimal where
  unscaled : Int
  scale : Int
  deriving DecidableEq, Repr

namespace Decimal

/-- The digits of the first decimal when both are written with the places of the one that has
more of them. -/
def aligned (left right : Decimal) : Int :=
  left.unscaled * pow10 (right.scale - left.scale).toNat

/-- The order of the numbers. -/
def compare (left right : Decimal) : Ordering :=
  Ord.compare (aligned left right) (aligned right left)

/-- Equality of the numbers, whatever zeros end them. -/
def same (left right : Decimal) : Bool := aligned left right == aligned right left

/-- Moves factors of ten from the digits to the scale, at most as many as the fuel that
`normalized` hands in. -/
def strip (steps : Nat) (d : Decimal) : Decimal :=
  match steps with
  | 0 => d
  | n + 1 =>
    if d.unscaled % 10 = 0 then strip n ⟨d.unscaled / 10, d.scale - 1⟩ else d

/-- The same number without zeros at the end of its digits. Zero has no places. -/
def normalized (d : Decimal) : Decimal :=
  if d.unscaled = 0 then ⟨0, 0⟩ else strip (Digits.ofNat d.unscaled.natAbs).length d

/-- The digits without a sign: a point before the last `scale` of them, zeros in front where they
are too few, and zeros behind where the scale is negative. -/
def magnitudeText (digits : List Char) (scale : Int) : List Char :=
  if scale ≤ 0 then digits ++ List.replicate scale.natAbs '0'
  else
    let places := scale.toNat
    if digits.length ≤ places then
      '0' :: '.' :: (List.replicate (places - digits.length) '0' ++ digits)
    else digits.take (digits.length - places) ++ '.' :: digits.drop (digits.length - places)

/-- A decimal as text, with exactly the places it has. -/
def text (d : Decimal) : List Char :=
  let magnitude := magnitudeText (Digits.ofNat d.unscaled.natAbs) d.scale
  if d.unscaled < 0 then '-' :: magnitude else magnitude

end Decimal

end GraphRead
