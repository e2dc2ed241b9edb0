import GraphRead.Uuid
import Mathlib.Algebra.Group.Nat.Defs
import Mathlib.Data.List.Basic
/-!
Hexadecimal digits, and with them identifiers, are read back from their text.
-/

namespace GraphRead.Uuid

theorem hexValue?_hexDigit {n : Nat} (digit : n < 16) : hexValue? (hexDigit n) = some n := by
  have each : ∀ n < 16, hexValue? (hexDigit n) = some n := by decide
  exact each n digit

theorem length_hexText (count n : Nat) : (hexText count n).length = count := by
  induction count generalizing n with
  | zero => rfl
  | succ k ih => rw [hexText, List.length_append, ih]; rfl

/-- A number of few enough digits is read from them. -/
theorem hexNumber?_hexText {count n : Nat} (fits : n < 16 ^ count) :
    hexNumber? (hexText count n) = some n := by
  induction count generalizing n with
  | zero =>
    rw [Nat.pow_zero, Nat.lt_one_iff] at fits
    rw [fits]
    rfl
  | succ k ih =>
    have front : n / 16 < 16 ^ k := by
      rw [Nat.div_lt_iff_lt_mul (by decide), ← Nat.pow_succ]
      exact fits
    have last : n % 16 < 16 := Nat.mod_lt _ (by decide)
    have step : hexNumber? (hexText (k + 1) n) = (hexNumber? (hexText k (n / 16))).bind fun m =>
        (hexValue? (hexDigit (n % 16))).map fun d => m * 16 + d := by
      rw [hexNumber?, hexText, List.foldlM_append]
      refine congrArg (Option.bind _) (funext fun m => ?_)
      rw [List.foldlM_cons, hexValue?_hexDigit last]
      rfl
    rw [step, ih front, hexValue?_hexDigit last, Option.bind_some, Option.map_some,
      Nat.mul_comm, Nat.div_add_mod]

theorem exists_of_mem_hexText {count n : Nat} {c : Char} (present : c ∈ hexText count n) :
    ∃ d < 16, c = hexDigit d := by
  induction count generalizing n with
  | zero => cases present
  | succ k ih =>
    rcases List.mem_append.mp present with front | last
    · exact ih front
    · exact ⟨n % 16, Nat.mod_lt _ (by decide), List.mem_singleton.mp last⟩

theorem hexDigit_ne {d : Nat} (digit : d < 16) : hexDigit d ≠ '-' ∧ (hexDigit d).toLower ≠ 'u' ∧
    hexDigit d ≠ '\x7b' := by
  have each : ∀ d < 16, hexDigit d ≠ '-' ∧ (hexDigit d).toLower ≠ 'u' ∧
    hexDigit d ≠ '\x7b' := by decide
  exact each d digit

/-- Hyphens are only put between the digits. -/
theorem filter_hyphenated {digits : List Char} (plain : ∀ c ∈ digits, c ≠ '-') :
    (hyphenated digits).filter (· ≠ '-') = digits := by
  have kept (part : List Char) (within : ∀ c ∈ part, c ∈ digits) :
      part.filter (· ≠ '-') = part :=
    List.filter_eq_self.mpr fun c present => decide_eq_true (plain c (within c present))
  have hyphen (part : List Char) : ('-' :: part).filter (· ≠ '-') = part.filter (· ≠ '-') := rfl
  rw [hyphenated, List.filter_append, hyphen, List.filter_append, hyphen, List.filter_append,
    hyphen, List.filter_append, hyphen, kept, kept, kept, kept, kept]
  · conv_rhs =>
      rw [← List.take_append_drop 8 digits, ← List.take_append_drop 4 (digits.drop 8),
        List.drop_drop, ← List.take_append_drop 4 (digits.drop 12), List.drop_drop,
        ← List.take_append_drop 4 (digits.drop 16), List.drop_drop]
  · exact fun c present => List.mem_of_mem_drop present
  · exact fun c present => List.mem_of_mem_drop (List.mem_of_mem_take present)
  · exact fun c present => List.mem_of_mem_drop (List.mem_of_mem_take present)
  · exact fun c present => List.mem_of_mem_drop (List.mem_of_mem_take present)
  · exact fun c present => List.mem_of_mem_take present

/-- Reading undoes writing. -/
theorem read_text (u : Uuid) : read u.text = some u := by
  have long := length_hexText 32 u.bits.toNat
  have whole : u.text.length = 36 := by
    simp only [text, hyphenated, List.length_append, List.length_cons, List.length_take,
      List.length_drop, long]
    decide
  obtain ⟨c, rest, cut⟩ := List.exists_cons_of_length_eq_add_one long
  have first : ∃ behind, u.text = c :: behind := by
    rw [text, cut]
    exact ⟨_, rfl⟩
  obtain ⟨behind, front⟩ := first
  obtain ⟨d, digit, same⟩ := exists_of_mem_hexText (cut ▸ List.mem_cons_self : c ∈ hexText 32 _)
  obtain ⟨_, notName, notBrace⟩ := hexDigit_ne digit
  have bare : unwrapped u.text = u.text := by
    have unnamed : hasNameMark u.text = false := by
      rw [hasNameMark, front, same, decide_eq_false_iff_not]
      intro marked
      exact notName (List.cons.inj marked).1
    unfold unwrapped
    rw [unnamed, if_neg Bool.false_ne_true, front, same]
    split
    · rename_i brace
      exact absurd (List.cons.inj brace).1 notBrace
    · rfl
  have digits : u.text.filter (· ≠ '-') = hexText 32 u.bits.toNat := by
    refine filter_hyphenated fun c present => ?_
    obtain ⟨d, digit, rfl⟩ := exists_of_mem_hexText present
    exact (hexDigit_ne digit).1
  rw [read, if_neg (by omega), bare, readHyphenated, digits, if_pos (by rfl), readPlain,
    if_pos long, hexNumber?_hexText (by exact u.bits.isLt), Option.map_some, BitVec.ofNat_toNat,
    BitVec.setWidth_eq]

end GraphRead.Uuid
