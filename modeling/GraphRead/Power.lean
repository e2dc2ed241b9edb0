/-!
Powers of two and of ten, the bases in which numbers are held and written, and the range of
integers of 64 bits.
-/

namespace GraphRead

/-- Two to a power. -/
def pow2 (n : Nat) : Nat := Nat.pow 2 n

/-- Ten to a power. -/
def pow10 (n : Nat) : Nat := Nat.pow 10 n

/-- Whether an integer fits 64 bits with a sign. -/
def fits64 (i : Int) : Bool := -(pow2 63 : Int) ≤ i && i < pow2 63

end GraphRead
