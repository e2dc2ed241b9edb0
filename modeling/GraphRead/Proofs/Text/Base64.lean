import GraphRead.Text.Base64
import GraphRead.Proofs.Success
import Mathlib.Data.List.Basic
/-!
Bytes that are written in base64 are read back.

The digits that bytes are cut into make up the same bytes (`octets?_sextets`), each digit is read
from its character, and no character of a digit is taken for padding (`Alphabet.Lawful`, which both
alphabets are).
-/

namespace GraphRead.Base64

/-- Every digit is read from its character, which is not the one that fills up the last group. -/
def Alphabet.Lawful (alphabet : Alphabet) : Prop :=
  ∀ n < 64, alphabet.value? (alphabet.digit n) = some n ∧ alphabet.digit n ≠ '='

theorem standard_lawful : standard.Lawful := by
  unfold Alphabet.Lawful
  decide

theorem urlSafe_lawful : urlSafe.Lawful := by
  unfold Alphabet.Lawful
  decide

theorem lt_of_mem_sextets {bytes : List UInt8} {n : Nat} (present : n ∈ sextets bytes) :
    n < 64 := by
  fun_induction sextets bytes with
  | case1 a b c rest ih =>
    have := a.toNat_lt
    have := b.toNat_lt
    have := c.toNat_lt
    simp only [List.mem_cons] at present
    rcases present with rfl | rfl | rfl | rfl | later
    · omega
    · omega
    · omega
    · omega
    · exact ih later
  | case2 a b =>
    have := a.toNat_lt
    have := b.toNat_lt
    simp only [List.mem_cons, List.not_mem_nil, or_false] at present
    omega
  | case3 a =>
    have := a.toNat_lt
    simp only [List.mem_cons, List.not_mem_nil, or_false] at present
    omega
  | case4 => cases present

theorem ofNat_eq_of_toNat {a : UInt8} {n : Nat} (same : n = a.toNat) : UInt8.ofNat n = a := by
  rw [same, UInt8.ofNat_toNat]

/-- The digits that bytes are cut into make up the bytes. -/
theorem octets?_sextets (bytes : List UInt8) : octets? (sextets bytes) = some bytes := by
  fun_induction sextets bytes with
  | case1 a b c rest ih =>
    have := a.toNat_lt
    have := b.toNat_lt
    have := c.toNat_lt
    rw [octets?, ih]
    have first : UInt8.ofNat (a.toNat / 4 * 4 + (a.toNat % 4 * 16 + b.toNat / 16) / 16) = a :=
      ofNat_eq_of_toNat (by omega)
    have second : UInt8.ofNat ((a.toNat % 4 * 16 + b.toNat / 16) % 16 * 16 +
        (b.toNat % 16 * 4 + c.toNat / 64) / 4) = b := ofNat_eq_of_toNat (by omega)
    have third : UInt8.ofNat ((b.toNat % 16 * 4 + c.toNat / 64) % 4 * 64 + c.toNat % 64) = c :=
      ofNat_eq_of_toNat (by omega)
    rw [first, second, third]
    rfl
  | case2 a b =>
    have := a.toNat_lt
    have := b.toNat_lt
    have first : UInt8.ofNat (a.toNat / 4 * 4 + (a.toNat % 4 * 16 + b.toNat / 16) / 16) = a :=
      ofNat_eq_of_toNat (by omega)
    have second : UInt8.ofNat ((a.toNat % 4 * 16 + b.toNat / 16) % 16 * 16 +
        b.toNat % 16 * 4 / 4) = b := ofNat_eq_of_toNat (by omega)
    rw [octets?, if_pos (by omega), first, second]
  | case3 a =>
    have := a.toNat_lt
    have first : UInt8.ofNat (a.toNat / 4 * 4 + a.toNat % 4 * 16 / 16) = a :=
      ofNat_eq_of_toNat (by omega)
    rw [octets?, if_pos (by omega), first]
  | case4 => rfl

/-- Padding consists of the padding character alone. -/
theorem eq_of_mem_padding {alphabet : Alphabet} {digits : Nat} {c : Char}
    (present : c ∈ padding alphabet digits) : c = '=' := by
  unfold padding at present
  split at present
  · exact List.eq_of_mem_replicate present
  · cases present

/-- Reading undoes writing. -/
theorem decode_encode {alphabet : Alphabet} (lawful : alphabet.Lawful) (bytes : List UInt8) :
    decode alphabet (encode alphabet bytes) = some bytes := by
  have digits : ∀ c ∈ (sextets bytes).map alphabet.digit, decide (c ≠ '=') = true := by
    refine List.forall_mem_map.mpr fun n present => decide_eq_true ?_
    exact (lawful n (lt_of_mem_sextets present)).2
  have padded : (padding alphabet (sextets bytes).length).takeWhile (· ≠ '=') = [] := by
    cases fill : padding alphabet (sextets bytes).length with
    | nil => rfl
    | cons c rest =>
      have same : c = '=' := eq_of_mem_padding (fill ▸ List.mem_cons_self)
      rw [same]
      rfl
  have taken : (encode alphabet bytes).takeWhile (· ≠ '=') =
      (sextets bytes).map alphabet.digit := by
    rw [encode, List.takeWhile_append_of_pos digits, padded, List.append_nil]
  have left : (encode alphabet bytes).dropWhile (· ≠ '=') =
      padding alphabet (sextets bytes).length := by
    have whole := List.takeWhile_append_dropWhile (p := (· ≠ '=')) (l := encode alphabet bytes)
    rw [taken] at whole
    exact List.append_cancel_left whole
  have read : ((sextets bytes).map alphabet.digit).mapM alphabet.value? = some (sextets bytes) := by
    rw [Success.mapM_eq_some, List.map_map]
    exact List.map_congr_left fun n present => (lawful n (lt_of_mem_sextets present)).1
  rw [decode, taken, left, List.length_map, if_pos rfl, read]
  exact octets?_sextets bytes

end GraphRead.Base64
