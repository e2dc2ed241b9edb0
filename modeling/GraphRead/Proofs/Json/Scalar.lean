import GraphRead.Json.Read
import GraphRead.Proofs.Keyed
import GraphRead.Proofs.Text.Digits
import GraphRead.Proofs.Text.Reader
import GraphRead.Proofs.Text.Uuid
/-!
The numbers and strings of JSON, as they are read.

A number ends where nothing follows that could belong to it (`Ends`), and an integer of 64 bits is
read from its digits (`numeral_ofInt`). A string is read from its text character by character,
whether a character is escaped or not (`quoted_stringText`).
-/

namespace GraphRead.Json

open Reader

/-! ### Numbers -/

/-- The exponent of the last mantissa bit of a natural number lies at most at its highest bit. -/
theorem lastBit_le {n d : Nat} {bound : Nat} (small : n.log2 ≤ bound) :
    Binary64.lastBit n d ≤ bound := by
  unfold Binary64.lastBit
  dsimp only
  split <;> omega

/-- A natural number with few enough bits is finite. -/
theorem isFinite_ofRatio {negative : Bool} {n d : Nat} (small : n.log2 ≤ 970) :
    (Binary64.ofRatio negative n d).isFinite = true := by
  have last := lastBit_le (d := d) small
  unfold Binary64.ofRatio
  split
  · rfl
  · dsimp only
    split
    · rw [if_neg (by dsimp only; omega)]
      rfl
    · rw [if_neg (by dsimp only; omega)]
      rfl

theorem natAbs_of_fits64 {i : Int} (fits : fits64 i = true) : i.natAbs ≤ pow2 63 := by
  unfold fits64 at fits
  rw [Bool.and_eq_true, decide_eq_true_eq, decide_eq_true_eq] at fits
  omega

/-- An integer of 64 bits is a finite number. -/
theorem isFinite_of_fits64 {i : Int} (fits : fits64 i = true) :
    (Binary64.ofDecimal false ⟨i, 0⟩).isFinite = true := by
  have small := natAbs_of_fits64 fits
  have short : (Digits.ofNat i.natAbs).length ≤ 19 :=
    (Nat.length_toDigits_le_iff (by decide) (by decide)).mpr
      (Nat.lt_of_le_of_lt small (by decide))
  unfold Binary64.ofDecimal
  dsimp only
  split
  · rfl
  rw [if_neg (by omega), if_neg (by omega)]
  refine isFinite_ofRatio ?_
  have same : i.natAbs * pow10 (-(0 : Int)).toNat = i.natAbs := Nat.mul_one _
  rw [same]
  have bits : i.natAbs < 2 ^ 64 := Nat.lt_of_le_of_lt small (by decide)
  by_cases zero : i.natAbs = 0
  · rw [zero]
    decide
  · have := (Nat.log2_lt zero).mpr bits
    omega

/-- Whether a character behind a number would belong to it. -/
def continues (c : Char) : Bool := Digits.isDigit c || c = '.' || c = 'e' || c = 'E'

/-- A number ends in front of a text. -/
def Ends (rest : List Char) : Prop := ∀ c ∈ rest.head?, continues c = false

theorem Ends.digit {rest : List Char} (ended : Ends rest) :
    ∀ c ∈ rest.head?, Digits.isDigit c = false := by
  intro c here
  have stop := ended c here
  simp only [continues, Bool.or_eq_false_iff] at stop
  exact stop.1.1.1

theorem wholeDigits_ofNat (n : Nat) {rest : List Char} (ended : Ends rest) :
    wholeDigits (Digits.ofNat n ++ rest) = some (Digits.ofNat n, rest) := by
  by_cases zero : n = 0
  · rw [zero]
    rfl
  · have digits : digits1 (Digits.ofNat n ++ rest) = some (Digits.ofNat n, rest) :=
      many1_satisfy (Digits.ofNat_ne_nil n)
        (fun c present => Digits.isDigit_of_mem_ofNat present) ended.digit
    unfold wholeDigits
    split
    · rename_i rest' leading
      have first := Digits.head?_ofNat_ne (Nat.pos_of_ne_zero zero)
      rw [← List.head?_append_of_ne_nil _ (Digits.ofNat_ne_nil n), leading] at first
      exact absurd rfl first
    · exact digits

theorem minus_ofInt (i : Int) (rest : List Char) :
    opt (satisfy (· = '-')) (Digits.ofInt i ++ rest) =
      some (if i < 0 then some '-' else none, Digits.ofNat i.natAbs ++ rest) := by
  unfold Digits.ofInt
  split
  · exact opt_of_some (satisfy_cons (by decide) _)
  · refine opt_of_none (satisfy_of_head fun c here => ?_)
    rw [List.head?_append_of_ne_nil _ (Digits.ofNat_ne_nil _)] at here
    have digit := Digits.isDigit_of_mem_ofNat (List.mem_of_mem_head? here)
    rw [decide_eq_false_iff_not]
    rintro rfl
    exact absurd digit (by decide)

/-- An integer of 64 bits is read, whatever does not belong to a number behind it. -/
theorem numeral_ofInt {i : Int} (fits : fits64 i = true) {rest : List Char} (ended : Ends rest) :
    numeral (Digits.ofInt i ++ rest) = some (.integer i, rest) := by
  have noPoint : (do word ['.']; digits1 : Reader Char (List Char)) rest = none := by
    refine bind_of_none ?_
    cases rest with
    | nil => rfl
    | cons c rest =>
      refine word_of_ne [] ?_ rest
      rintro rfl
      exact absurd (ended '.' rfl) (by decide)
  have noExponent : exponent rest = none := by
    refine bind_of_none (satisfy_of_head fun c here => ?_)
    have stop := ended c here
    simp only [continues, Bool.or_eq_false_iff] at stop
    rw [stop.1.2, stop.2]
    rfl
  have number : (if (if i < 0 then some '-' else none : Option Char).isSome
      then -(i.natAbs : Int) else i.natAbs) = i := by
    by_cases negative : i < 0
    · rw [if_pos negative, if_pos (Option.isSome_some)]
      omega
    · rw [if_neg negative, if_neg (by decide)]
      omega
  unfold numeral
  rw [bind_of_some (minus_ofInt i rest), bind_of_some (wholeDigits_ofNat _ ended),
    bind_of_some (opt_of_none noPoint), bind_of_some (opt_of_none noExponent)]
  simp only [Option.getD_none, List.append_nil, Digits.value_ofNat, number, List.length_nil,
    Int.natCast_zero, Int.sub_zero, isFinite_of_fits64 fits, if_true]
  rw [if_pos]
  · rfl
  · refine ⟨rfl, rfl, fun zero => ?_⟩
    split at zero
    · omega
    · cases zero.1

/-! ### Strings -/

theorem unit_hexText {n : Nat} (fits : n < 16 ^ 4) (rest : List Char) :
    unit (Uuid.hexText 4 n ++ rest) = some (n, rest) := by
  have long := Uuid.length_hexText 4 n
  rw [unit, List.take_left' long, List.drop_left' long, if_pos long, Uuid.hexNumber?_hexText fits]
  rfl

/-- An escape by number stands for the character of that number, if it is no surrogate. -/
theorem escapedUnit_hexText {n : Nat} (small : n < 0xD800) (rest : List Char) :
    escapedUnit (Uuid.hexText 4 n ++ rest) = some (Char.ofNat n, rest) := by
  rw [escapedUnit, bind_of_some (unit_hexText (Nat.lt_trans small (by decide)) rest),
    if_neg (by omega), if_neg (by omega)]
  rfl

/-- A character is read from its text, with an escape or without. -/
theorem character_text (c : Char) (rest : List Char) :
    character (characterText c ++ rest) = some (c, rest) := by
  unfold characterText
  iterate 5
    split
    · rename_i same
      rw [same]
      rfl
  iterate 2
    split
    · rename_i same
      rw [← Char.ofNat_toNat c, same]
      rfl
  split
  · rename_i low
    have read := escapedUnit_hexText (n := c.toNat) (by omega) rest
    rw [Char.ofNat_toNat] at read
    exact read
  · rename_i quote slash _ _ _ _ _ high
    unfold character
    split
    · rename_i same
      exact absurd (List.cons.inj same).1 slash
    · rename_i same
      exact absurd (List.cons.inj same).1 slash
    · rename_i same
      obtain ⟨rfl, rfl⟩ := List.cons.inj same
      rw [if_neg]
      · rfl
      · simp [quote, slash, high]
    · rename_i same
      cases same

theorem characterText_ne_nil (c : Char) : characterText c ≠ [] := by
  unfold characterText
  repeat' split
  all_goals exact List.cons_ne_nil _ _

theorem quoted_stringText (s : String) (rest : List Char) :
    quoted (stringText s ++ rest) = some (s, rest) := by
  have characters : many character (s.toList.flatMap characterText ++ '"' :: rest) =
      some (s.toList, '"' :: rest) :=
    many_append (fun _ => True) (fun c _ => ⟨characterText_ne_nil c, fun _ => trivial,
      fun behind _ => character_text c behind⟩) trivial rfl
  rw [stringText, List.cons_append, List.append_assoc, quoted, bind_of_some (word_cons '"' _),
    List.singleton_append, bind_of_some characters, bind_of_some (word_cons '"' _),
    String.ofList_toList]
  rfl

end GraphRead.Json
