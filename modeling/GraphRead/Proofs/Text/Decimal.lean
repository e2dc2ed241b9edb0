import GraphRead.Decimal.Read
import GraphRead.Proofs.Value.Order
import GraphRead.Proofs.Text.Digits
import Mathlib.Data.List.TakeWhile
/-!
What the text of a decimal is read as.

A decimal is written with exactly its places, so it is read as it is, except that the zeros which a
negative scale stands for become digits (`Decimal.written`). The number stays the same
(`same_written`), and what was read once is read as it is from then on (`written_written`).
-/

namespace GraphRead.Decimal

/-- A decimal with the digits and the places that its text has. -/
def written (d : Decimal) : Decimal := ⟨d.unscaled * pow10 (-d.scale).toNat, max d.scale 0⟩

theorem written_written (d : Decimal) : d.written.written = d.written := by
  have places : (-(max d.scale 0)).toNat = 0 := by omega
  have scale : max (max d.scale 0) 0 = max d.scale 0 := by omega
  rw [written, written, places, scale]
  exact congrArg (Decimal.mk · _) (Int.mul_one _)

theorem same_written (d : Decimal) : same d.written d = true := by
  have fits : d.scale ≤ max d.scale 0 := by omega
  have exponent : (max d.scale 0 - d.scale).toNat = (-d.scale).toNat := by omega
  have none : (max d.scale 0 - max d.scale 0).toNat = 0 := by omega
  have digits : digitsAt (max d.scale 0) d.written = digitsAt (max d.scale 0) d := by
    rw [digitsAt, digitsAt, written, none, exponent]
    exact Int.mul_one _
  rw [same_iff, compare_eq_digitsAt (Int.le_refl d.written.scale) fits]
  exact (congrArg (Ord.compare · _) digits).trans (Int.compare_eq_eq.mpr rfl)

/-! ### Cutting a text -/

theorem cutAt_of_not_mem {test : Char → Bool} {text : List Char}
    (without : ∀ c ∈ text, test c = false) : cutAt test text = (text, none) := by
  have dropped : text.dropWhile (fun c => !test c) = [] :=
    List.dropWhile_eq_nil_iff.mpr fun c present => by rw [without c present]; rfl
  rw [cutAt, dropped]

theorem cutAt_append {test : Char → Bool} {lead trail : List Char} {c : Char}
    (without : ∀ c ∈ lead, test c = false) (here : test c = true) :
    cutAt test (lead ++ c :: trail) = (lead, some trail) := by
  have passed : ∀ c ∈ lead, (!test c) = true := fun c present => by rw [without c present]; rfl
  have stop : (!test c) = false := by rw [here]; rfl
  rw [cutAt, List.dropWhile_append_of_pos passed, List.dropWhile_cons_of_neg (by simp [here]),
    List.takeWhile_append_of_pos passed, List.takeWhile_cons_of_neg (by simp [here]),
    List.append_nil]

/-! ### Digits with a sign -/

theorem magnitude?_of_digits {digits : List Char} (some_digit : digits ≠ [])
    (all : ∀ c ∈ digits, Digits.isDigit c = true) :
    magnitude? digits = some (Digits.value digits) := by
  have plain : digits.filter (· ≠ '_') = digits := by
    refine List.filter_eq_self.mpr fun c present => decide_eq_true ?_
    rintro rfl
    exact absurd (all _ present) (by decide)
  have read : plainDigits digits = some digits := by
    rw [plainDigits, plain]
    exact if_pos (List.all_eq_true.mpr all)
  unfold magnitude?
  split
  · exact absurd rfl some_digit
  · exact absurd (all _ List.mem_cons_self) (by decide)
  · rw [read, Option.map_some]

/-- A sign in front of a text, if the integer is negative. -/
def signed (i : Int) (digits : List Char) : List Char := if i < 0 then '-' :: digits else digits

theorem integer?_signed (i : Int) {digits : List Char} (some_digit : digits ≠ [])
    (all : ∀ c ∈ digits, Digits.isDigit c = true) : integer? (signed i digits) =
      some (if i < 0 then -(Digits.value digits : Int) else Digits.value digits) := by
  have read := magnitude?_of_digits some_digit all
  unfold signed
  split
  · rw [integer?, read]
    rfl
  · unfold integer?
    split
    · exact absurd (all _ List.mem_cons_self) (by decide)
    · exact absurd (all _ List.mem_cons_self) (by decide)
    · rw [read]
      rfl

theorem signed_append (i : Int) (lead trail : List Char) :
    signed i (lead ++ trail) = signed i lead ++ trail := by
  unfold signed
  split <;> rfl

/-- A multiple of an integer from the multiple of its magnitude. -/
theorem signed_natAbs (i : Int) (n : Nat) :
    (if i < 0 then -((i.natAbs * n : Nat) : Int) else (i.natAbs * n : Nat)) = i * n := by
  split
  · rw [Int.natCast_mul, Int.ofNat_natAbs_of_nonpos (by omega), Int.neg_mul, Int.neg_neg]
  · rw [Int.natCast_mul, Int.natAbs_of_nonneg (by omega)]

/-! ### Reading what was written -/

theorem text_eq_signed (d : Decimal) :
    d.text = signed d.unscaled (magnitudeText (Digits.ofNat d.unscaled.natAbs) d.scale) := rfl

/-- Where there are places, a point stands in front of as many digits, and the others are the
digits as they are, or zeros in front of them. -/
theorem magnitudeText_of_pos (digits : List Char) {scale : Int} (places : 0 < scale) :
    ∃ lead trail zeros, magnitudeText digits scale = lead ++ '.' :: trail ∧
      lead ++ trail = List.replicate zeros '0' ++ digits ∧ (trail.length : Int) = scale := by
  rw [magnitudeText, if_neg (by omega)]
  dsimp only
  split
  · rename_i few
    refine ⟨['0'], _, scale.toNat - digits.length + 1, rfl, ?_, ?_⟩
    · rw [List.replicate_succ]
      rfl
    · rw [List.length_append, List.length_replicate]
      omega
  · refine ⟨_, _, 0, rfl, ?_, ?_⟩
    · rw [List.take_append_drop]
      rfl
    · rw [List.length_drop]
      omega

/-- No character of a written decimal starts an exponent. -/
theorem not_exponent {c : Char} (shown : c = '-' ∨ c = '.' ∨ Digits.isDigit c = true) :
    (c = 'e' || c = 'E') = false := by
  rw [Bool.or_eq_false_iff, decide_eq_false_iff_not, decide_eq_false_iff_not]
  constructor <;> rintro rfl <;> exact absurd shown (by decide)

theorem mem_signed {i : Int} {digits : List Char} {c : Char} (present : c ∈ signed i digits) :
    c = '-' ∨ c ∈ digits := by
  unfold signed at present
  split at present
  · exact List.mem_cons.mp present
  · exact .inr present

theorem isPoint_of_isDigit {c : Char} (digit : Digits.isDigit c = true) :
    decide (c = '.') = false := by
  rw [decide_eq_false_iff_not]
  rintro rfl
  exact absurd digit (by decide)

/-- Without an exponent a text is read up to its point and behind it. -/
theorem read_of_not_exponent {base : List Char}
    (without : ∀ c ∈ base, (c = 'e' || c = 'E') = false) :
    read base = match cutAt (· = '.') base with
      | (lead, some trail) => (integer? (lead ++ trail)).bind fun i =>
        some ⟨i, (trail.length : Int) - 0⟩
      | (digits, none) => (integer? digits).bind fun i => some ⟨i, -0⟩ := by
  rw [read, cutAt_of_not_mem without]
  rfl

/-- Digits without a point are read as an integer. -/
theorem read_signed (i : Int) {digits : List Char} (some_digit : digits ≠ [])
    (all : ∀ c ∈ digits, Digits.isDigit c = true) : read (signed i digits) =
      some ⟨if i < 0 then -(Digits.value digits : Int) else Digits.value digits, 0⟩ := by
  have noExponent : ∀ c ∈ signed i digits, (c = 'e' || c = 'E') = false := fun c present =>
    not_exponent ((mem_signed present).imp_right fun digit => .inr (all c digit))
  have noPoint : ∀ c ∈ signed i digits, decide (c = '.') = false := by
    intro c present
    rcases mem_signed present with rfl | digit
    · rfl
    · exact isPoint_of_isDigit (all c digit)
  rw [read_of_not_exponent noExponent, cutAt_of_not_mem noPoint]
  dsimp only
  rw [integer?_signed i some_digit all]
  rfl

/-- Digits with a point among them are read as an integer with as many places as there are digits
behind the point. -/
theorem read_signed_point (i : Int) {lead trail : List Char} (some_digit : lead ++ trail ≠ [])
    (all : ∀ c ∈ lead ++ trail, Digits.isDigit c = true) :
    read (signed i (lead ++ '.' :: trail)) =
      some ⟨if i < 0 then -(Digits.value (lead ++ trail) : Int) else Digits.value (lead ++ trail),
        trail.length⟩ := by
  have leading : ∀ c ∈ lead, Digits.isDigit c = true := fun c present =>
    all c (List.mem_append_left _ present)
  have trailing : ∀ c ∈ trail, Digits.isDigit c = true := fun c present =>
    all c (List.mem_append_right _ present)
  have noExponent : ∀ c ∈ signed i (lead ++ '.' :: trail), (c = 'e' || c = 'E') = false := by
    intro c present
    refine not_exponent ((mem_signed present).imp_right fun shown => ?_)
    rcases List.mem_append.mp shown with digit | digit
    · exact .inr (leading c digit)
    · exact (List.mem_cons.mp digit).imp_right (trailing c)
  have noPoint : ∀ c ∈ signed i lead, decide (c = '.') = false := by
    intro c present
    rcases mem_signed present with rfl | digit
    · rfl
    · exact isPoint_of_isDigit (leading c digit)
  rw [read_of_not_exponent noExponent, signed_append, cutAt_append noPoint (by decide)]
  dsimp only
  rw [← signed_append, integer?_signed i some_digit all, Int.sub_zero]
  rfl

/-- Reading a decimal gives it back with the digits and the places of its text. -/
theorem read_text (d : Decimal) : read d.text = some d.written := by
  have some_digit := Digits.ofNat_ne_nil d.unscaled.natAbs
  have digits : ∀ c ∈ Digits.ofNat d.unscaled.natAbs, Digits.isDigit c = true :=
    fun c present => Digits.isDigit_of_mem_ofNat present
  have zeros : ∀ count, ∀ c ∈ List.replicate count '0', Digits.isDigit c = true := by
    intro count c present
    rw [List.eq_of_mem_replicate present]
    rfl
  rw [text_eq_signed]
  by_cases whole : d.scale ≤ 0
  · have all : ∀ c ∈ Digits.ofNat d.unscaled.natAbs ++ List.replicate d.scale.natAbs '0',
        Digits.isDigit c = true :=
      List.forall_mem_append.mpr ⟨digits, zeros _⟩
    have count : d.scale.natAbs = (-d.scale).toNat := by omega
    have places : max d.scale 0 = 0 := by omega
    rw [magnitudeText, if_pos whole, read_signed _ (List.append_ne_nil_of_left_ne_nil some_digit _)
      all, Digits.value_append_zeros, Digits.value_ofNat, signed_natAbs, count, written, places]
  · obtain ⟨lead, trail, count, cut, same, long⟩ :=
      magnitudeText_of_pos (Digits.ofNat d.unscaled.natAbs) (Int.not_le.mp whole)
    have all : ∀ c ∈ lead ++ trail, Digits.isDigit c = true := by
      rw [same]
      exact List.forall_mem_append.mpr ⟨zeros _, digits⟩
    have some_place : lead ++ trail ≠ [] := by
      rw [same]
      exact List.append_ne_nil_of_right_ne_nil _ some_digit
    have places : max d.scale 0 = d.scale := by omega
    have none : (-d.scale).toNat = 0 := by omega
    have number := signed_natAbs d.unscaled 1
    rw [Nat.mul_one] at number
    rw [cut, read_signed_point _ some_place all, same, Digits.value_zeros_append,
      Digits.value_ofNat, number, long, written, places, none]
    rfl

end GraphRead.Decimal
