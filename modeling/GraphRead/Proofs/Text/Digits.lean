import GraphRead.Power
import GraphRead.Text.Digits
import Mathlib.Data.List.Basic
/-!
Digits that are written are read back.

Zeros in front of a run of digits do not change the number it stands for, and zeros behind it
multiply the number (`value_zeros_append`, `value_append_zeros`), so a number that is filled up to a
width still reads as itself (`value_padded`).
-/

namespace GraphRead.Digits

theorem isDigit_of_mem_ofNat {n : Nat} {c : Char} (present : c ∈ ofNat n) : isDigit c = true :=
  Nat.isDigit_of_mem_toDigits (by decide) (by decide) present

theorem ofNat_ne_nil (n : Nat) : ofNat n ≠ [] := Nat.toDigits_ne_nil

/-- Only zero is written with a zero in front. -/
theorem head?_ofNat_ne {n : Nat} (positive : 0 < n) : (ofNat n).head? ≠ some '0' := by
  induction n using Nat.strongRecOn with
  | ind n ih =>
    by_cases small : n < 10
    · rw [ofNat, Nat.toDigits_of_lt_base small, List.head?_cons]
      intro same
      have digit : ∀ d < 10, Nat.digitChar d = '0' → d = 0 := by decide
      exact absurd (digit n small (Option.some.inj same)) (by omega)
    · rw [ofNat, Nat.toDigits_of_base_le (by decide) (Nat.le_of_not_lt small),
        List.head?_append_of_ne_nil _ Nat.toDigits_ne_nil]
      exact ih (n / 10) (by omega) (by omega)

theorem value_zeros_append (count : Nat) (digits : List Char) :
    value (List.replicate count '0' ++ digits) = value digits := by
  rw [value, Nat.ofDigitChars_append, Nat.ofDigitChars_replicate_zero, Nat.mul_zero, value]

theorem value_append_zeros (digits : List Char) (count : Nat) :
    value (digits ++ List.replicate count '0') = value digits * pow10 count := by
  rw [value, Nat.ofDigitChars_append, Nat.ofDigitChars_replicate_zero, Nat.mul_comm]
  rfl

theorem value_padded (width n : Nat) : value (padded width n) = n := by
  rw [padded, value_zeros_append, value_ofNat]

/-- A digit stands for a number below ten. -/
theorem toNat_sub_lt {c : Char} (digit : isDigit c = true) : c.toNat - '0'.toNat < 10 := by
  have high : c ≤ '9' := of_decide_eq_true (Bool.and_eq_true_iff.mp digit).2
  have bound : c.toNat ≤ '9'.toNat := high
  have nine : '9'.toNat = 57 := rfl
  have zero : '0'.toNat = 48 := rfl
  omega

theorem value_lt {digits : List Char} (all : ∀ c ∈ digits, isDigit c = true) :
    value digits < pow10 digits.length := by
  induction digits with
  | nil => exact Nat.one_pos
  | cons c rest ih =>
    obtain ⟨here, later⟩ := List.forall_mem_cons.mp all
    have digit := toNat_sub_lt here
    have below : value rest < 10 ^ rest.length := ih later
    have split : value (c :: rest) = 10 ^ rest.length * (c.toNat - '0'.toNat) + value rest := by
      rw [value, Nat.ofDigitChars_cons, Nat.ofDigitChars_eq_ofDigitChars_zero, Nat.mul_zero,
        Nat.zero_add, value]
    have whole : pow10 (c :: rest).length = 10 ^ rest.length * 10 := rfl
    have most : 10 ^ rest.length * (c.toNat - '0'.toNat) ≤ 10 ^ rest.length * 9 :=
      Nat.mul_le_mul_left _ (by omega)
    rw [split, whole]
    omega

theorem isDigit_of_mem_padded {width n : Nat} {c : Char} (present : c ∈ padded width n) :
    isDigit c = true := by
  rcases List.mem_append.mp present with zero | digit
  · rw [List.eq_of_mem_replicate zero]
    rfl
  · exact isDigit_of_mem_ofNat digit

/-- A number that fits a width is filled up to exactly that width. -/
theorem length_padded {width n : Nat} (positive : 0 < width) (fits : n < pow10 width) :
    (padded width n).length = width := by
  have short : (ofNat n).length ≤ width :=
    (Nat.length_toDigits_le_iff (by decide) positive).mpr fits
  rw [padded, List.length_append, List.length_replicate]
  omega

end GraphRead.Digits
