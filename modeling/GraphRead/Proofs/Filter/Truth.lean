import GraphRead.Proofs.Filter.Matches
/-!
Filters in the logic of SQL.

In SQL a comparison with null is neither true nor false but unknown, and unknown goes through
conjunction, disjunction and negation as in Kleene's logic (`Filter.truth`). A row is to pass a
filter that is true. What `Filter.matches` computes has two values only: an unknown condition fails
where it arises (`Condition.holds_eq_passes`), and what is made of it further up is made of that.

So `matches` is right wherever the truth is known. An unknown condition under an even number of
negations counts as SQL has it, and under an odd number the other way round: if those are the only
ones, the rows that pass are those for which the filter is not false (`Filter.matches_eq_passes`).
-/

namespace GraphRead

/-- The truth values of a logic in which something can be unknown. -/
inductive Truth where
  | no
  | unknown
  | yes
  deriving DecidableEq, Repr

namespace Truth

/-- A truth value that is known. -/
def ofBool : Bool → Truth
  | false => no
  | true => yes

/-- Negation: what is unknown stays unknown. -/
def not : Truth → Truth
  | no => yes
  | unknown => unknown
  | yes => no

/-- Conjunction: one false member is enough for it to be false. -/
def and : Truth → Truth → Truth
  | no, _ => no
  | _, no => no
  | yes, yes => yes
  | _, _ => unknown

/-- Disjunction: one true member is enough for it to be true. -/
def or : Truth → Truth → Truth
  | yes, _ => yes
  | _, yes => yes
  | no, no => no
  | _, _ => unknown

/-- Whether a truth value lets something pass, if what is unknown is assumed to pass or not. -/
def passes (assumed : Bool) : Truth → Bool
  | no => false
  | unknown => assumed
  | yes => true

theorem passes_ofBool (assumed b : Bool) : (ofBool b).passes assumed = b := by cases b <;> rfl

theorem passes_not (assumed : Bool) (t : Truth) : t.not.passes assumed = !t.passes (!assumed) := by
  cases t <;> cases assumed <;> rfl

theorem passes_and (assumed : Bool) (s t : Truth) :
    (s.and t).passes assumed = (s.passes assumed && t.passes assumed) := by
  cases s <;> cases t <;> cases assumed <;> rfl

theorem passes_or (assumed : Bool) (s t : Truth) :
    (s.or t).passes assumed = (s.passes assumed || t.passes assumed) := by
  cases s <;> cases t <;> cases assumed <;> rfl

theorem passes_false_iff {t : Truth} : t.passes false = true ↔ t = .yes := by cases t <;> decide

theorem passes_true_iff {t : Truth} : t.passes true = true ↔ t ≠ .no := by cases t <;> decide

/-- What is known passes or not, whatever is assumed of what is unknown. -/
theorem passes_eq_of_ne {t : Truth} (known : t ≠ .unknown) (assumed other : Bool) :
    t.passes assumed = t.passes other := by
  cases t <;> first | rfl | exact absurd rfl known

end Truth

/-! ### Conditions -/

namespace Condition

/-- Whether the order of two values passes a test. With null on either side it is unknown. -/
def compared (left right : Value) (test : Ordering → Bool) : Truth :=
  if left.isNull || right.isNull then .unknown else .ofBool (test (compare left right))

/-- Whether a value is one of some values: it equals the first of them, or the second, and so on. Of
null it is unknown, even if there is nothing to compare with. -/
def member (value : Value) (operands : List Value) : Truth :=
  if value.isNull then .unknown
  else operands.foldr (fun v others => (compared value v (· == .eq)).or others) .no

/-- Whether a value meets a condition, in the logic of SQL. -/
def truth (condition : Condition) (value : Value) : Truth :=
  match condition with
  | isNull expected => .ofBool (value.isNull == expected)
  | eq operand => compared value operand (· == .eq)
  | ne operand => compared value operand (· != .eq)
  | lt operand => compared value operand (· == .lt)
  | le operand => compared value operand (· != .gt)
  | gt operand => compared value operand (· == .gt)
  | ge operand => compared value operand (· != .lt)
  | oneOf operands => member value operands
  | noneOf operands => (member value operands).not

theorem passes_compared (assumed : Bool) (left right : Value) (test : Ordering → Bool) :
    (compared left right test).passes assumed =
      if left.isNull || right.isNull then assumed else test (compare left right) := by
  unfold compared
  split
  · rfl
  · exact Truth.passes_ofBool _ _

theorem ordered_eq_passes (left right : Value) (test : Ordering → Bool) :
    ordered left right test = (compared left right test).passes false := by
  rw [passes_compared, ordered, compareNonNull]
  split <;> rfl

theorem compare_beq_eq (left right : Value) : (compare left right == .eq) = (right == left) := by
  rw [Bool.eq_iff_iff, beq_iff_eq, ← Value.beq_iff_compare, BEq.comm]

/-- A value that is not null is one of some values if it is the same as one of them. A null among
them leaves it open. -/
theorem passes_member (assumed : Bool) {value : Value} (valued : value.isNull = false)
    (operands : List Value) : (member value operands).passes assumed =
      operands.any fun v => if v.isNull then assumed else v == value := by
  rw [member, if_neg (Bool.eq_false_iff.mp valued)]
  induction operands with
  | nil => rfl
  | cons v rest ih =>
    rw [List.foldr_cons, Truth.passes_or, ih, List.any_cons, passes_compared, valued,
      Bool.false_or, compare_beq_eq]

/-- A condition holds exactly if it is true: what is unknown fails where it arises. -/
theorem holds_eq_passes (condition : Condition) (value : Value) :
    condition.holds value = (condition.truth value).passes false := by
  cases condition with
  | isNull expected => exact (Truth.passes_ofBool _ _).symm
  | oneOf operands =>
    rw [holds, truth]
    cases valued : value.isNull with
    | true => rw [member, if_pos valued]; rfl
    | false =>
      rw [passes_member false valued, Bool.not_false, Bool.true_and]
      refine congrArg (List.any operands) (funext fun v => ?_)
      split
      · rename_i null
        rw [Bool.eq_false_iff]
        intro same
        rw [Filter.isNull_of_beq same, valued] at null
        cases null
      · rfl
  | noneOf operands =>
    rw [holds, truth, Truth.passes_not]
    cases valued : value.isNull with
    | true => rw [member, if_pos valued]; rfl
    | false =>
      rw [Bool.not_false, passes_member true valued, Bool.true_and, List.not_any_eq_all_not]
      refine congrArg (List.all operands) (funext fun v => ?_)
      cases v.isNull <;> rfl
  | _ => exact ordered_eq_passes _ _ _

end Condition

/-! ### Filters -/

namespace Filter

mutual

/-- What a filter is for a row, in the logic of SQL. A column that the row lacks is null. -/
def truth : Filter → Row → Truth
  | and members, row => allTruth members row
  | or members, row => anyTruth members row
  | not members, row => (allTruth members row).not
  | scalar column condition, row => condition.truth (row.value column)
  | constant b, _ => .ofBool b

/-- The conjunction of several filters for a row. -/
def allTruth : List Filter → Row → Truth
  | [], _ => .yes
  | filter :: rest, row => (truth filter row).and (allTruth rest row)

/-- The disjunction of several filters for a row. -/
def anyTruth : List Filter → Row → Truth
  | [], _ => .no
  | filter :: rest, row => (truth filter row).or (anyTruth rest row)

end

mutual

/-- Whether a condition that is unknown for a row stands only under an even number of negations, or
only under an odd number if the filter is itself to be negated. -/
def settled (negated : Bool) : Filter → Row → Bool
  | and members, row => allSettled negated members row
  | or members, row => allSettled negated members row
  | not members, row => allSettled (!negated) members row
  | scalar column condition, row => !negated || condition.truth (row.value column) != .unknown
  | constant _, _ => true

/-- Whether that is so for each of several filters. -/
def allSettled (negated : Bool) : List Filter → Row → Bool
  | [], _ => true
  | filter :: rest, row => settled negated filter row && allSettled negated rest row

end

/-- A condition passes if it is true. If it is known, it does not matter what is assumed of the
unknown. -/
theorem matches_scalar_of_settled {negated : Bool} {column : String} {condition : Condition}
    {row : Row} (settled : (scalar column condition).settled negated row = true) :
    (scalar column condition).matches row =
      ((scalar column condition).truth row).passes negated := by
  rw [Filter.settled, Bool.or_eq_true, bne_iff_ne, Bool.not_eq_true'] at settled
  rw [«matches», Filter.truth, Condition.holds_eq_passes]
  rcases settled with rfl | known
  · rfl
  · exact Truth.passes_eq_of_ne known _ _

mutual

/-- Where unknown conditions stand under an even number of negations only, the rows pass for which
a filter is true. Where they stand under an odd number only, it is enough that it is not false. -/
theorem matches_eq_passes : ∀ {negated : Bool} (filter : Filter) {row : Row},
    filter.settled negated row = true → filter.matches row = (filter.truth row).passes negated
  | _, and members, row, settled => by
    rw [Filter.settled] at settled
    rw [«matches», Filter.truth, allMatch_eq_passes members settled]
  | _, or members, row, settled => by
    rw [Filter.settled] at settled
    rw [«matches», Filter.truth, anyMatches_eq_passes members settled]
  | _, not members, row, settled => by
    rw [Filter.settled] at settled
    rw [«matches», Filter.truth, Truth.passes_not, allMatch_eq_passes members settled]
  | _, scalar _ _, _, settled => matches_scalar_of_settled settled
  | _, constant _, _, _ => (Truth.passes_ofBool _ _).symm

theorem allMatch_eq_passes : ∀ {negated : Bool} (members : List Filter) {row : Row},
    allSettled negated members row = true →
      allMatch members row = (allTruth members row).passes negated
  | _, [], _, _ => rfl
  | _, filter :: rest, row, settled => by
    rw [allSettled, Bool.and_eq_true] at settled
    rw [allMatch, allTruth, Truth.passes_and, matches_eq_passes filter settled.1,
      allMatch_eq_passes rest settled.2]

theorem anyMatches_eq_passes : ∀ {negated : Bool} (members : List Filter) {row : Row},
    allSettled negated members row = true →
      anyMatches members row = (anyTruth members row).passes negated
  | _, [], _, _ => rfl
  | _, filter :: rest, row, settled => by
    rw [allSettled, Bool.and_eq_true] at settled
    rw [anyMatches, anyTruth, Truth.passes_or, matches_eq_passes filter settled.1,
      anyMatches_eq_passes rest settled.2]

end

mutual

/-- A filter that is true lets a row pass, and one that lets it pass is not false. -/
theorem matches_between : ∀ (filter : Filter) (row : Row),
    ((filter.truth row).passes false = true → filter.matches row = true) ∧
      (filter.matches row = true → (filter.truth row).passes true = true)
  | and members, row => by
    rw [«matches», truth]
    exact allMatch_between members row
  | or members, row => by
    rw [«matches», truth]
    exact anyMatches_between members row
  | not members, row => by
    -- A negation turns the two bounds round.
    obtain ⟨below, above⟩ := allMatch_between members row
    rw [«matches», truth, Truth.passes_not, Truth.passes_not, Bool.not_eq_true', Bool.not_eq_true',
      Bool.not_eq_true']
    exact ⟨fun fails => Bool.eq_false_iff.mpr fun passes =>
        Bool.eq_false_iff.mp fails (above passes),
      fun fails => Bool.eq_false_iff.mpr fun passes => Bool.eq_false_iff.mp fails (below passes)⟩
  | scalar column condition, row => by
    rw [«matches», truth, Condition.holds_eq_passes]
    exact ⟨id, fun passes => by rw [Truth.passes_false_iff.mp passes]; rfl⟩
  | constant b, row => by
    rw [«matches», truth, Truth.passes_ofBool, Truth.passes_ofBool]
    exact ⟨id, id⟩

theorem allMatch_between : ∀ (members : List Filter) (row : Row),
    ((allTruth members row).passes false = true → allMatch members row = true) ∧
      (allMatch members row = true → (allTruth members row).passes true = true)
  | [], _ => ⟨fun _ => rfl, fun _ => rfl⟩
  | filter :: rest, row => by
    have here := matches_between filter row
    have later := allMatch_between rest row
    rw [allMatch, allTruth, Truth.passes_and, Truth.passes_and, Bool.and_eq_true, Bool.and_eq_true,
      Bool.and_eq_true]
    exact ⟨And.imp here.1 later.1, And.imp here.2 later.2⟩

theorem anyMatches_between : ∀ (members : List Filter) (row : Row),
    ((anyTruth members row).passes false = true → anyMatches members row = true) ∧
      (anyMatches members row = true → (anyTruth members row).passes true = true)
  | [], _ => ⟨id, id⟩
  | filter :: rest, row => by
    have here := matches_between filter row
    have later := anyMatches_between rest row
    rw [anyMatches, anyTruth, Truth.passes_or, Truth.passes_or, Bool.or_eq_true, Bool.or_eq_true,
      Bool.or_eq_true]
    exact ⟨Or.imp here.1 later.1, Or.imp here.2 later.2⟩

end

/-- **Where the truth of a filter is known for a row, the row passes exactly if it is true.** Where
it is unknown, the row does not pass, as in SQL, if every condition that is unknown stands under an
even number of negations. If all of them stand under an odd number, the row does pass. -/
theorem matches_follows_truth (filter : Filter) (row : Row) :
    (∀ known, filter.truth row = .ofBool known → filter.matches row = known) ∧
      (filter.settled false row = true → (filter.matches row = true ↔ filter.truth row = .yes)) ∧
      (filter.settled true row = true → (filter.matches row = true ↔ filter.truth row ≠ .no)) := by
  refine ⟨fun known same => ?_, fun settled => ?_, fun settled => ?_⟩
  · obtain ⟨below, above⟩ := matches_between filter row
    rw [same, Truth.passes_ofBool] at below above
    exact Bool.eq_iff_iff.mpr ⟨above, below⟩
  · rw [matches_eq_passes filter settled, Truth.passes_false_iff]
  · rw [matches_eq_passes filter settled, Truth.passes_true_iff]

end Filter

namespace Trash

/-- A file that nobody owns, and that has not been deleted. -/
def file : Row := [("owner", .null), ("deleted_at", .null)]

/-- The owner is unknown, and does not stand under the negation. -/
def ownOrKept : Filter :=
  .or [.equals "owner" (.int 1), .not [.scalar "deleted_at" (.isNull false)]]

/-- Whether the file has another owner is unknown. -/
def ofOthers : Filter := .not [.equals "owner" (.int 1)]

/-- The file is kept, whoever owns it. It also passes as one of another owner. -/
theorem matches_follows_truth_file :
    ownOrKept.settled false file = true ∧
      (ownOrKept.matches file = true ↔ ownOrKept.truth file = .yes) ∧
      ownOrKept.truth file = .ofBool true ∧ ownOrKept.matches file = true ∧
      ofOthers.settled true file = true ∧
      (ofOthers.matches file = true ↔ ofOthers.truth file ≠ .no) := by
  obtain ⟨known, even, -⟩ := Filter.matches_follows_truth ownOrKept file
  obtain ⟨-, -, odd⟩ := Filter.matches_follows_truth ofOthers file
  exact ⟨by decide, even (by decide), by decide, known true (by decide), by decide,
    odd (by decide)⟩

/-- It is unknown whether the file has another owner, and yet it passes. -/
theorem matches_unknown : ofOthers.truth file = .unknown ∧
    ¬(ofOthers.matches file = true ↔ ofOthers.truth file = .yes) := by
  decide

end Trash

end GraphRead
