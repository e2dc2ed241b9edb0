import GraphRead.Proofs.Filter.Truth
/-!
Conditions and their opposites.

In the logic of SQL the opposite of a condition is its negation (`Condition.truth_invert`). So the
two are unknown of the same values, and a row passes neither of them there; of a value for which
the condition is known a row passes exactly one. A condition is known wherever neither the value nor
an operand is null (`Condition.truth_ne_unknown`). Of null it is unknown, whatever the operands
(`Condition.truth_of_isNull`), unless it asks for null itself. A null among the values of a list
leaves `oneOf` open and so keeps `noneOf` from ever being true (`Condition.not_holds_noneOf`).
-/

namespace GraphRead

namespace Truth

/-- What is true is not false as well. -/
theorem not_passes_both (t : Truth) : ¬(t.passes false = true ∧ t.not.passes false = true) := by
  cases t <;> decide

/-- What is known passes exactly if its negation does not. -/
theorem passes_not_of_ne {t : Truth} (known : t ≠ .unknown) :
    t.not.passes false = !t.passes false := by
  rw [passes_not, passes_eq_of_ne known _ false]

theorem or_ne_unknown {s t : Truth} (first : s ≠ .unknown) (second : t ≠ .unknown) :
    s.or t ≠ .unknown := by
  cases s <;> cases t <;> first | exact absurd rfl first | exact absurd rfl second | exact nofun

theorem not_ne_unknown {t : Truth} (known : t ≠ .unknown) : t.not ≠ .unknown := by
  cases t <;> first | exact absurd rfl known | exact nofun

end Truth

namespace Condition

/-- The values that a condition holds a value against. -/
def operands : Condition → List Value
  | eq v | ne v | lt v | le v | gt v | ge v => [v]
  | oneOf vs | noneOf vs => vs
  | isNull _ => []

/-- Whether a condition asks for null, or for anything but null. -/
def asksNull : Condition → Bool
  | isNull _ => true
  | _ => false

theorem invert_invert (condition : Condition) :
    (condition.invert true).invert true = condition := by
  cases condition with
  | isNull b => exact congrArg isNull b.not_not
  | _ => rfl

theorem asksNull_invert (condition : Condition) :
    (condition.invert true).asksNull = condition.asksNull := by
  cases condition <;> rfl

/-! ### The opposite is the negation -/

/-- A test that passes the other orders is the negation of a test. -/
theorem compared_not (left right : Value) {test other : Ordering → Bool}
    (opposite : ∀ ordering, other ordering = !test ordering) :
    compared left right other = (compared left right test).not := by
  unfold compared
  split
  · rfl
  · rw [opposite]
    cases test (compare left right) <;> rfl

/-- The opposite of a condition is its negation, in the logic of SQL. -/
theorem truth_invert (condition : Condition) (value : Value) :
    (condition.invert true).truth value = (condition.truth value).not := by
  have twice (t : Truth) : t = t.not.not := by cases t <;> rfl
  cases condition with
  | isNull b =>
    rw [invert, if_pos rfl, truth, truth]
    cases value.isNull <;> cases b <;> rfl
  | oneOf vs => rfl
  | noneOf vs => exact twice _
  | _ =>
    rw [invert, if_pos rfl, truth, truth]
    exact compared_not _ _ fun ordering => by cases ordering <;> rfl

/-! ### Where a condition is known -/

theorem compared_ne_unknown {left right : Value} (valued : left.isNull = false)
    (given : right.isNull = false) (test : Ordering → Bool) :
    compared left right test ≠ .unknown := by
  rw [compared, valued, given, if_neg (by decide)]
  cases test (compare left right) <;> exact nofun

/-- Without nulls it is known whether a value is one of some values. -/
theorem member_ne_unknown {value : Value} (valued : value.isNull = false) {vs : List Value}
    (given : ∀ v ∈ vs, v.isNull = false) : member value vs ≠ .unknown := by
  rw [member, if_neg (Bool.eq_false_iff.mp valued)]
  induction vs with
  | nil =>
    intro same
    cases same
  | cons v rest ih =>
    obtain ⟨here, later⟩ := List.forall_mem_cons.mp given
    exact Truth.or_ne_unknown (compared_ne_unknown valued here _) (ih later)

/-- Without nulls a condition is known. -/
theorem truth_ne_unknown {condition : Condition} {value : Value} (valued : value.isNull = false)
    (given : ∀ v ∈ condition.operands, v.isNull = false) : condition.truth value ≠ .unknown := by
  cases condition with
  | isNull b =>
    rw [truth]
    cases value.isNull == b <;> decide
  | oneOf vs => exact member_ne_unknown valued given
  | noneOf vs => exact Truth.not_ne_unknown (member_ne_unknown valued given)
  | _ =>
    rw [truth]
    exact compared_ne_unknown valued (given _ List.mem_cons_self) _

/-- A condition that asks for null is known of every value. -/
theorem truth_ne_unknown_of_asksNull {condition : Condition} (asks : condition.asksNull = true)
    (value : Value) : condition.truth value ≠ .unknown := by
  cases condition with
  | isNull b =>
    rw [truth]
    cases value.isNull == b <;> decide
  | _ => cases asks

/-- Any other condition is unknown of null. -/
theorem truth_of_isNull {condition : Condition} (asksNot : condition.asksNull = false)
    {value : Value} (null : value.isNull = true) : condition.truth value = .unknown := by
  have among (vs : List Value) : member value vs = .unknown := if_pos null
  cases condition with
  | isNull b => cases asksNot
  | oneOf vs => exact among vs
  | noneOf vs => exact congrArg Truth.not (among vs)
  | _ => rw [truth, compared, null, Bool.true_or, if_pos rfl]

/-! ### Conditions as they hold -/

/-- No value meets a condition and its opposite. -/
theorem not_holds_both (condition : Condition) (value : Value) :
    ¬(condition.holds value = true ∧ (condition.invert true).holds value = true) := by
  rw [holds_eq_passes, holds_eq_passes, truth_invert]
  exact (condition.truth value).not_passes_both

/-- A value of which a condition is known meets exactly one of the condition and its opposite. -/
theorem holds_invert {condition : Condition} {value : Value}
    (known : condition.truth value ≠ .unknown) :
    (condition.invert true).holds value = !condition.holds value := by
  rw [holds_eq_passes, holds_eq_passes, truth_invert, Truth.passes_not_of_ne known]

/-- Null meets no condition but those that ask for it. -/
theorem holds_of_isNull {condition : Condition} (asksNot : condition.asksNull = false)
    {value : Value} (null : value.isNull = true) : condition.holds value = false := by
  rw [holds_eq_passes, truth_of_isNull asksNot null]
  rfl

/-- With a null among some values nothing is known to be none of them. -/
theorem not_holds_noneOf {vs : List Value} (nulls : ∃ v ∈ vs, v.isNull = true) (value : Value) :
    (noneOf vs).holds value = false := by
  obtain ⟨v, present, null⟩ := nulls
  have fails : (vs.all fun v => !v.isNull && !(v == value)) = false := by
    rw [List.all_eq_false]
    exact ⟨v, present, by simp [null]⟩
  rw [holds, fails, Bool.and_false]

/-- A value that is not null is one of some values exactly if it is the same as one of them. -/
theorem holds_oneOf_iff {value : Value} (valued : value.isNull = false) (vs : List Value) :
    (oneOf vs).holds value = true ↔ ∃ v ∈ vs, (v == value) = true := by
  rw [holds, valued, Bool.not_false, Bool.true_and, List.any_eq_true]

end Condition

namespace Filter

/-- **A condition and its opposite are opposites up to nulls.** Turning a condition round twice
gives it back, and no row passes both it and its opposite. Where neither the value of the row nor an
operand is null the row passes exactly one of the two, and the opposite is the negation. A row whose
value is null passes neither, unless the condition asks for null: then every row passes exactly one.
A null in a list does not keep the other values of the list from being found, but of no value is it
known then that it is not in the list. -/
theorem invert_opposes (condition : Condition) (column : String) (row : Row) (vs : List Value) :
    (condition.invert true).invert true = condition ∧
    ¬((scalar column condition).matches row = true ∧
      (scalar column (condition.invert true)).matches row = true) ∧
    ((row.value column).isNull = false → (∀ v ∈ condition.operands, v.isNull = false) →
      (scalar column (condition.invert true)).matches row =
        !(scalar column condition).matches row ∧
      (not [scalar column condition]).matches row =
        (scalar column (condition.invert true)).matches row) ∧
    (condition.asksNull = false → (row.value column).isNull = true →
      (scalar column condition).matches row = false ∧
      (scalar column (condition.invert true)).matches row = false) ∧
    (condition.asksNull = true → (scalar column (condition.invert true)).matches row =
      !(scalar column condition).matches row) ∧
    ((row.value column).isNull = false → (∃ v ∈ vs, v.isNull = true) →
      ((scalar column (.oneOf vs)).matches row = true ↔
        ∃ v ∈ vs, (v == row.value column) = true) ∧
      (scalar column (.noneOf vs)).matches row = false) := by
  refine ⟨condition.invert_invert, condition.not_holds_both _, fun valued given => ?_,
    fun asksNot null => ⟨?_, ?_⟩, fun asks => ?_, fun valued nulls => ⟨?_, ?_⟩⟩
  · have opposite := Condition.holds_invert (Condition.truth_ne_unknown valued given)
    refine ⟨opposite, ?_⟩
    rw [«matches», allMatch, allMatch, Bool.and_true]
    exact opposite.symm
  · exact Condition.holds_of_isNull asksNot null
  · exact Condition.holds_of_isNull (condition.asksNull_invert.trans asksNot) null
  · exact Condition.holds_invert (Condition.truth_ne_unknown_of_asksNull asks _)
  · exact Condition.holds_oneOf_iff valued vs
  · exact Condition.not_holds_noneOf nulls _

end Filter

namespace Stock

/-- A game for 1.50, of which it is not known when it was sold. -/
def game : Row := [("price", .float ⟨150, 2⟩), ("sold", .null)]

/-- The price is not among the free ones. -/
def charged : Condition := .noneOf [.int 0, .float ⟨0, 0⟩]

/-- The price is 1.5 or not known, as one of a list. -/
def offers : List Value := [.null, .float ⟨15, 1⟩]

/-- The game is charged for, and so it passes no negation of that. It is on offer, though the list
has a null, and never known not to be. Whether it was sold before a year is unknown either way,
while it is known that it has no date. -/
theorem invert_opposes_game :
    (Filter.scalar "price" charged).matches game = true ∧
    (Filter.not [.scalar "price" charged]).matches game = false ∧
    (Filter.scalar "price" (.oneOf offers)).matches game = true ∧
    (Filter.scalar "price" (.noneOf offers)).matches game = false ∧
    (Filter.scalar "sold" (.lt (.int 2000))).matches game = false ∧
    (Filter.scalar "sold" (.ge (.int 2000))).matches game = false ∧
    (Filter.scalar "sold" (.isNull false)).matches game =
      !(Filter.scalar "sold" (.isNull true)).matches game := by
  obtain ⟨-, -, known, -, -, listed⟩ := Filter.invert_opposes charged "price" game offers
  obtain ⟨-, -, -, unknown, -, -⟩ := Filter.invert_opposes (.lt (.int 2000)) "sold" game offers
  obtain ⟨-, -, -, -, asked, -⟩ := Filter.invert_opposes (.isNull true) "sold" game offers
  obtain ⟨opposite, negation⟩ := known (by decide) (by decide)
  obtain ⟨found, notMissed⟩ := listed (by decide) (by decide)
  obtain ⟨before, after⟩ := unknown rfl rfl
  have passes : (Filter.scalar "price" charged).matches game = true := by decide
  rw [opposite, passes] at negation
  exact ⟨passes, negation, found.mpr (by decide), notMissed, before, after, asked rfl⟩

end Stock

end GraphRead
