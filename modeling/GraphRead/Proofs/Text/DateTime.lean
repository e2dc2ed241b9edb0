import GraphRead.DateTime.Text
import GraphRead.Proofs.Text.Digits
import GraphRead.Proofs.Text.Reader
/-!
What the text of a date-time is read as.

The text of a date-time is in the profile if its year has four digits, its offset is a whole number
of minutes, and a leap second stands at the end of a minute (`DateTime.InProfile`). Then it is read
back with its nanoseconds cut to the millisecond, and all other fields as they were (`read_text`).
Else it is not read at all, or as another instant, so what is read is the same instant exactly if
the date-time is in the profile and of whole milliseconds (`read_text_same_iff`). Whatever is read
is in the profile (`inProfile_of_read`).
-/

namespace GraphRead.DateTime

open Reader

/-- The fields with the nanoseconds cut to whole milliseconds. -/
def Fields.cut (f : Fields) : Fields := { f with nano := f.nano / pow10 6 * pow10 6 }

theorem Fields.Valid.cut {f : Fields} (valid : f.Valid) : f.cut.Valid := by
  obtain ⟨month, day, hour, minute, second, nano, offset⟩ := valid
  exact ⟨month, day, hour, minute, second,
    Nat.lt_of_le_of_lt (Nat.div_mul_le_self _ _) nano, offset⟩

/-- A date-time with its nanoseconds cut to whole milliseconds. -/
def cut (t : DateTime) : DateTime := ⟨t.fields.cut, t.valid.cut⟩

/-- A date-time of whole milliseconds. -/
def IsWhole (t : DateTime) : Prop := t.fields.nano % pow10 6 = 0

/-- The profile has a text for a date-time, to the millisecond: its year has four digits, its offset
is a whole number of minutes, and a leap second follows the last second of a minute. -/
def InProfile (t : DateTime) : Prop :=
  (0 ≤ t.fields.year ∧ t.fields.year < 10000) ∧ t.fields.offset % 60 = 0 ∧
    (t.fields.nano < pow10 9 ∨ t.fields.second = 59)

instance (t : DateTime) : Decidable t.IsWhole := by unfold IsWhole; infer_instance

instance (t : DateTime) : Decidable t.InProfile := by unfold InProfile; infer_instance

theorem cut_of_whole {t : DateTime} (whole : t.IsWhole) : t.cut = t := by
  have nano : t.fields.nano / pow10 6 * pow10 6 = t.fields.nano :=
    Nat.div_mul_cancel (Nat.dvd_of_mod_eq_zero whole)
  have fields : t.fields.cut = t.fields :=
    congrArg (fun nano => { t.fields with nano }) nano
  unfold cut
  cases t
  simp only [fields]

theorem isWhole_cut (t : DateTime) : t.cut.IsWhole := Nat.mul_mod_left _ _

theorem cut_cut (t : DateTime) : t.cut.cut = t.cut := cut_of_whole t.isWhole_cut

theorem InProfile.cut {t : DateTime} (profile : t.InProfile) : t.cut.InProfile :=
  ⟨profile.1, profile.2.1,
    profile.2.2.imp_left (Nat.lt_of_le_of_lt (Nat.div_mul_le_self _ _))⟩

/-! ### Parts -/

/-- A number is not read where no digit stands. -/
theorem number_of_head {width : Nat} {c : Char} (other : Digits.isDigit c = false)
    (rest : List Char) : number (width + 1) (c :: rest) = none := by
  rw [number, List.take_succ_cons, List.all_cons, other]
  exact if_neg fun digits => Bool.false_ne_true digits.2

/-- A number that is filled up to its width is read, whatever is behind it. -/
theorem number_padded {width n : Nat} (positive : 0 < width) (fits : n < pow10 width)
    (rest : List Char) : number width (Digits.padded width n ++ rest) = some (n, rest) := by
  have long := Digits.length_padded positive fits
  have digits : (Digits.padded width n).all Digits.isDigit = true :=
    List.all_eq_true.mpr fun c present => Digits.isDigit_of_mem_padded present
  rw [number, List.take_left' long, List.drop_left' long, if_pos ⟨long, digits⟩,
    Digits.value_padded]

/-- The first character of an offset is no digit. -/
theorem head_offsetText (offset : Int) :
    ∀ c ∈ (offsetText offset).head?, Digits.isDigit c = false := by
  unfold offsetText
  split
  · rintro c ⟨rfl⟩
    decide
  · split <;> rintro c ⟨rfl⟩ <;> decide

theorem fraction_padded {millis : Nat} (fits : millis < pow10 3) (offset : Int) :
    fraction ('.' :: (Digits.padded 3 millis ++ offsetText offset)) =
      some (millis * pow10 6, offsetText offset) := by
  have long := Digits.length_padded (by decide) fits
  have digits : ∀ c ∈ Digits.padded 3 millis, Digits.isDigit c = true :=
    fun c present => Digits.isDigit_of_mem_padded present
  have ended := head_offsetText offset
  have taken : (offsetText offset).takeWhile Digits.isDigit = [] ∧
      (offsetText offset).dropWhile Digits.isDigit = offsetText offset := by
    cases shown : offsetText offset with
    | nil => exact ⟨rfl, rfl⟩
    | cons c rest =>
      rw [shown] at ended
      have stop := ended c rfl
      exact ⟨List.takeWhile_cons_of_neg (by simp [stop]),
        List.dropWhile_cons_of_neg (by simp [stop])⟩
  have some_digit : (Digits.padded 3 millis).isEmpty = false := by
    rw [List.isEmpty_eq_false_iff]
    intro none
    rw [none] at long
    cases long
  rw [fraction, List.takeWhile_append_of_pos digits, List.dropWhile_append_of_pos digits,
    taken.1, taken.2, List.append_nil, some_digit, List.take_of_length_le (by omega),
    Digits.value_padded, long]
  rfl

/-- A sign with hours and minutes behind it is read as an offset. -/
theorem offset_signed {c : Char} (negative : Bool)
    (sign : ∀ rest, offsetSign (c :: rest) = some (negative, rest)) (plain : c ≠ 'Z' ∧ c ≠ 'z')
    {hours minutes : Nat} (fits : hours < pow10 2) (within : minutes < 60) :
    offset (c :: (Digits.padded 2 hours ++ ':' :: Digits.padded 2 minutes)) =
      some (if negative then -(((hours * 60 + minutes) * 60 : Nat) : Int)
        else ((hours * 60 + minutes) * 60 : Nat), []) := by
  have two : minutes < pow10 2 := Nat.lt_trans within (by decide)
  have last := number_padded (by decide) two []
  rw [List.append_nil] at last
  rw [offset, bind_of_some (sign _), bind_of_some (number_padded (by decide) fits _),
    bind_of_some (word_cons ':' _), bind_of_some last, if_pos within]
  · cases negative <;> rfl
  · exact fun rest same => plain.1 (List.cons.inj same).1
  · exact fun rest same => plain.2 (List.cons.inj same).1

/-- An offset as it is written: whole minutes. -/
def roundedOffset (o : Int) : Int :=
  if o < 0 then -((offsetMinutes o * 60 : Nat) : Int) else (offsetMinutes o * 60 : Nat)

theorem roundedOffset_eq_iff {o : Int} : roundedOffset o = o ↔ o % 60 = 0 := by
  unfold roundedOffset offsetMinutes
  split <;> omega

theorem offset_offsetText {o : Int} (within : -86400 < o ∧ o < 86400) :
    offset (offsetText o) = some (roundedOffset o, []) := by
  by_cases zero : o = 0
  · rw [zero]
    rfl
  · have hours : offsetMinutes o / 60 < pow10 2 := by
      have bound : pow10 2 = 100 := rfl
      unfold offsetMinutes
      omega
    have minutes : offsetMinutes o % 60 < 60 := Nat.mod_lt _ (by decide)
    have whole : offsetMinutes o / 60 * 60 + offsetMinutes o % 60 = offsetMinutes o :=
      Nat.div_add_mod' _ _
    rw [offsetText, if_neg zero, roundedOffset]
    by_cases negative : o < 0
    · rw [if_pos negative, if_pos negative, offset_signed true (fun _ => rfl) (by decide) hours
        minutes, whole, if_pos rfl]
    · rw [if_neg negative, if_neg negative, offset_signed false (fun _ => rfl) (by decide) hours
        minutes, whole, if_neg Bool.false_ne_true]

/-! ### The whole -/

/-- The fields that the text of a date-time gives. -/
def Fields.written (f : Fields) : Fields :=
  let shown := ofClock f.clock.1 (f.clock.2 / pow10 6 * pow10 6)
  { f with second := shown.1, nano := shown.2, offset := roundedOffset f.offset }

/-- A text is read with all fields that it gives, if the year has four digits. -/
theorem read_text_of_year {t : DateTime} (four : 0 ≤ t.fields.year ∧ t.fields.year < 10000) :
    read t.text = ofFields? t.fields.written := by
  obtain ⟨⟨-, month⟩, ⟨-, day⟩, hour, minute, second, nano, within⟩ := t.valid
  have daysIn : daysIn t.fields.year t.fields.month ≤ 31 := by
    unfold DateTime.daysIn
    split
    · split <;> decide
    · split <;> decide
  have hundred : pow10 2 = 100 := rfl
  have year : t.fields.year.natAbs < pow10 4 := by
    have bound : pow10 4 = 10000 := rfl
    omega
  have same : (t.fields.year.natAbs : Int) = t.fields.year := Int.natAbs_of_nonneg four.1
  have shown : t.fields.clock.1 < pow10 2 ∧ t.fields.clock.2 < pow10 9 := by
    unfold Fields.clock
    split <;> constructor <;> dsimp only <;> omega
  have millis : t.fields.clock.2 / pow10 6 < pow10 3 :=
    Nat.div_lt_of_lt_mul (show t.fields.clock.2 < pow10 6 * pow10 3 from shown.2)
  have fields : fieldsReader t.text = some (t.fields.written, []) := by
    rw [fieldsReader, text, yearText, if_pos four,
      bind_of_some (number_padded (by decide) year _),
      bind_of_some (word_cons '-' _),
      bind_of_some (number_padded (by decide) (Nat.lt_of_le_of_lt month (by decide)) _),
      bind_of_some (word_cons '-' _), bind_of_some (number_padded (by decide) (by omega) _),
      bind_of_some (satisfy_cons (by decide) _),
      bind_of_some (number_padded (by decide) (by omega) _),
      bind_of_some (word_cons ':' _), bind_of_some (number_padded (by decide) (by omega) _),
      bind_of_some (word_cons ':' _), bind_of_some (number_padded (by decide) shown.1 _),
      bind_of_some (fraction_padded millis _), bind_of_some (offset_offsetText within), same]
    rfl
  rw [read, whole_of_some fields]
  rfl

/-- A text is not read if the year has a sign. -/
theorem read_text_none {t : DateTime} (signed : ¬(0 ≤ t.fields.year ∧ t.fields.year < 10000)) :
    read t.text = none := by
  have sign : ∃ c digits, yearText t.fields.year = c :: digits ∧ Digits.isDigit c = false := by
    rw [yearText, if_neg signed]
    refine ⟨_, _, rfl, ?_⟩
    split <;> decide
  obtain ⟨c, digits, shown, other⟩ := sign
  have refused : fieldsReader t.text = none := by
    rw [fieldsReader, text, shown, List.cons_append]
    exact bind_of_none (number_of_head other _)
  rw [read, Reader.whole, refused]
  rfl

theorem ofFields?_eq_some {f : Fields} {t : DateTime} : ofFields? f = some t ↔ t.fields = f := by
  unfold ofFields?
  split
  · rename_i valid
    constructor
    · rintro ⟨rfl⟩
      rfl
    · rintro rfl
      rfl
  · rename_i invalid
    refine iff_of_false (fun none => nomatch none) ?_
    rintro rfl
    exact invalid t.valid

/-- What the clock shows is read as it was, to the millisecond, unless a leap second stands
elsewhere than at the end of a minute. -/
theorem ofClock_clock {f : Fields} (valid : f.Valid) (leap : f.nano < pow10 9 ∨ f.second = 59) :
    ofClock f.clock.1 (f.clock.2 / pow10 6 * pow10 6) = (f.second, f.nano / pow10 6 * pow10 6) := by
  obtain ⟨-, -, -, -, second, -⟩ := valid
  unfold Fields.clock
  split
  · exact if_neg (Nat.ne_of_lt second)
  · rename_i more
    have million : pow10 6 = 1000000 := rfl
    have billion : pow10 9 = 1000000000 := rfl
    have nano : (f.nano - pow10 9) / pow10 6 * pow10 6 + pow10 9 = f.nano / pow10 6 * pow10 6 := by
      rw [billion] at more
      rw [million, billion]
      omega
    rw [leap.resolve_left more, ofClock, if_pos rfl, nano]

theorem written_of_inProfile {t : DateTime} (profile : t.InProfile) :
    t.fields.written = t.fields.cut := by
  obtain ⟨-, minutes, leap⟩ := profile
  rw [Fields.written, ofClock_clock t.valid leap, roundedOffset_eq_iff.mpr minutes]
  rfl

/-- Reading a date-time of the profile gives it back to the millisecond. -/
theorem read_text {t : DateTime} (profile : t.InProfile) : read t.text = some t.cut := by
  rw [read_text_of_year profile.1, written_of_inProfile profile]
  exact ofFields?_eq_some.mpr rfl

/-- Cutting a date-time changes its instant unless it is of whole milliseconds. -/
theorem same_cut_iff (t : DateTime) : same t.cut t = true ↔ t.IsWhole := by
  have seconds : t.cut.seconds = t.seconds := rfl
  have nanos : t.cut.nanos = t.fields.nano / pow10 6 * pow10 6 := rfl
  have split := Nat.div_add_mod' t.fields.nano (pow10 6)
  rw [same, seconds, beq_self_eq_true, Bool.true_and, beq_iff_eq, nanos, IsWhole, DateTime.nanos]
  omega

/-- Only a date-time of the profile is read as the same instant. -/
theorem inProfile_of_same {t back : DateTime} (taken : read t.text = some back)
    (kept : same back t = true) : t.InProfile := by
  by_cases four : 0 ≤ t.fields.year ∧ t.fields.year < 10000
  · rw [read_text_of_year four, ofFields?_eq_some] at taken
    obtain ⟨seconds, nanos⟩ := Bool.and_eq_true_iff.mp kept
    rw [beq_iff_eq, DateTime.seconds, DateTime.seconds, taken, Fields.written] at seconds
    rw [beq_iff_eq, DateTime.nanos, DateTime.nanos, taken, Fields.written] at nanos
    dsimp only at seconds nanos
    by_cases leap : t.fields.nano < pow10 9 ∨ t.fields.second = 59
    · rw [ofClock_clock t.valid leap] at seconds
      exact ⟨four, roundedOffset_eq_iff.mp (by omega), leap⟩
    · -- the leap second is read as the next second, with fewer nanoseconds
      obtain ⟨more, other⟩ := not_or.mp leap
      have clock : t.fields.clock = (t.fields.second + 1, t.fields.nano - pow10 9) := if_neg more
      have shown (nano : Nat) : ofClock (t.fields.second + 1) nano = (t.fields.second + 1, nano) :=
        if_neg (by omega)
      have fewer := Nat.div_mul_le_self (t.fields.nano - pow10 9) (pow10 6)
      rw [clock, shown] at nanos
      dsimp only at nanos
      have positive : 0 < pow10 9 := by decide
      omega
  · rw [read_text_none four] at taken
    cases taken

/-- **A date-time is read back as the same instant exactly if it is in the profile and of whole
milliseconds.** -/
theorem read_text_same_iff (t : DateTime) :
    (∃ back, read t.text = some back ∧ same back t = true) ↔ t.InProfile ∧ t.IsWhole := by
  constructor
  · rintro ⟨back, taken, kept⟩
    have profile := inProfile_of_same taken kept
    rw [read_text profile] at taken
    cases taken
    exact ⟨profile, t.same_cut_iff.mp kept⟩
  · rintro ⟨profile, whole⟩
    exact ⟨_, read_text profile, t.same_cut_iff.mpr whole⟩

/-! ### What is read -/

theorem number_gives (width : Nat) : Gives (number width) fun n => n < pow10 width := by
  intro input n rest taken
  unfold number at taken
  dsimp only at taken
  split at taken
  · rename_i digits
    cases taken
    have below := Digits.value_lt (List.all_eq_true.mp digits.2)
    rwa [digits.1] at below
  · cases taken

/-- Nine digits of a fraction are less than a second. -/
theorem fraction_gives : Gives fraction fun nano => nano < pow10 9 := by
  intro input nano rest taken
  unfold fraction at taken
  split at taken
  · rename_i behind
    dsimp only at taken
    split at taken
    · cases taken
    · cases taken
      generalize counted_eq : (behind.takeWhile Digits.isDigit).take 9 = counted
      have short : counted.length ≤ 9 := counted_eq ▸ List.length_take_le _ _
      have digits : ∀ c ∈ counted, Digits.isDigit c = true := fun c present =>
        List.all_eq_true.mp List.all_takeWhile c (List.mem_of_mem_take (counted_eq ▸ present))
      have below := Digits.value_lt digits
      calc Digits.value counted * pow10 (9 - counted.length)
          < pow10 counted.length * pow10 (9 - counted.length) :=
            Nat.mul_lt_mul_of_pos_right below (Nat.pow_pos (by decide))
        _ = pow10 9 := by
            show 10 ^ counted.length * 10 ^ (9 - counted.length) = 10 ^ 9
            rw [← Nat.pow_add, Nat.add_sub_of_le short]
  · cases taken
    decide

/-- An offset that is read is a whole number of minutes. -/
theorem offset_gives : Gives offset fun o => o % 60 = 0 := by
  intro input o rest taken
  unfold offset at taken
  split at taken
  · cases taken
    rfl
  · cases taken
    rfl
  · refine @Gives.bind _ _ _ offsetSign _ _ (fun o => o % 60 = 0) (gives_any _)
      (fun negative _ => ?_) input o rest taken
    refine (gives_any (number 2)).bind fun hours _ => (gives_any _).bind fun _ _ =>
      (gives_any (number 2)).bind fun minutes _ => ?_
    split
    · refine gives_pure ?_
      split <;> omega
    · exact fun _ _ _ none => nomatch none

theorem fieldsReader_gives : Gives fieldsReader fun f => f.year < 10000 ∧ 0 ≤ f.year ∧
    f.offset % 60 = 0 ∧ (f.nano < pow10 9 ∨ f.second = 59) := by
  refine (number_gives 4).bind fun year four => (gives_any _).bind fun _ _ =>
    (gives_any (number 2)).bind fun month _ => (gives_any _).bind fun _ _ =>
    (gives_any (number 2)).bind fun day _ => (gives_any _).bind fun _ _ =>
    (gives_any (number 2)).bind fun hour _ => (gives_any _).bind fun _ _ =>
    (gives_any (number 2)).bind fun minute _ => (gives_any _).bind fun _ _ =>
    (gives_any (number 2)).bind fun second _ => fraction_gives.bind fun nano below =>
    offset_gives.bind fun offset minutes => gives_pure ?_
  have four : year < 10000 := four
  refine ⟨by dsimp only; omega, Int.natCast_nonneg _, minutes, ?_⟩
  unfold ofClock
  split
  · exact .inr rfl
  · exact .inl below

/-- Whatever is read is in the profile. -/
theorem inProfile_of_read {text : List Char} {t : DateTime} (taken : read text = some t) :
    t.InProfile := by
  obtain ⟨fields, taken, made⟩ := Option.bind_eq_some_iff.mp taken
  obtain rfl := ofFields?_eq_some.mp made
  unfold Reader.whole at taken
  split at taken
  · rename_i found
    cases taken
    obtain ⟨high, low, minutes, leap⟩ := fieldsReader_gives _ _ _ found
    exact ⟨⟨low, high⟩, minutes, leap⟩
  · cases taken

end GraphRead.DateTime
