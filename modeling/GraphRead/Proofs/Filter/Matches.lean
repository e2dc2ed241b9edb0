import GraphRead.Filter.Basic
import GraphRead.Proofs.Value.Order
/-!
Which rows pass a combined filter.

Keeping conjunctions and disjunctions small does not change them: a row passes `allOf` exactly if
it passes every member (`matches_allOf`), and `anyOf` exactly if it passes one (`matches_anyOf`). A
row passes `equals` and `among` by values that are the same, and never by null.
-/

namespace GraphRead

/-- Whether the value of a row under a column is the given one. -/
def Row.has (column : String) (v : Value) (row : Row) : Bool := row.value column == v

/-- The value of a row under a column is one of the given ones. Null is none of them. -/
def Row.HasOneOf (row : Row) (column : String) (vs : List Value) : Prop :=
  ∃ v ∈ vs, v.isNull = false ∧ row.has column v

theorem Row.has_congr (column : String) {v w : Value} (same : v == w) :
    has column v = has column w :=
  funext fun _ => BEq.congr_right same

namespace Filter

theorem allMatch_eq_all (filters : List Filter) (row : Row) :
    allMatch filters row = filters.all fun f => f.matches row := by
  induction filters with
  | nil => rfl
  | cons f rest ih => rw [allMatch, ih, List.all_cons]

theorem anyMatches_eq_any (filters : List Filter) (row : Row) :
    anyMatches filters row = filters.any fun f => f.matches row := by
  induction filters with
  | nil => rfl
  | cons f rest ih => rw [anyMatches, ih, List.any_cons]

/-- A filter stands for what it contributes to a conjunction. -/
theorem all_conjuncts (filter : Filter) (row : Row) :
    (filter.conjuncts.all fun f => f.matches row) = filter.matches row := by
  cases filter with
  | and members => rw [conjuncts, «matches», allMatch_eq_all]
  | constant b => cases b <;> simp [conjuncts, «matches»]
  | or members => simp [conjuncts]
  | not members => simp [conjuncts]
  | scalar column condition => simp [conjuncts]

/-- A row passes a conjunction exactly if it passes every member. -/
theorem matches_allOf (filters : List Filter) (row : Row) :
    (allOf filters).matches row = filters.all fun f => f.matches row := by
  have members : ((filters.flatMap conjuncts).all fun f => f.matches row) =
      filters.all fun f => f.matches row := by
    rw [List.all_flatMap]
    exact congrArg (fun test => filters.all test) (funext fun f => all_conjuncts f row)
  rw [← members]
  unfold allOf
  split
  · rename_i none
    rw [none]; rfl
  · rename_i only
    rw [only]; simp
  · rw [«matches», allMatch_eq_all]

/-- A row passes a disjunction exactly if it passes one of its members. -/
theorem matches_anyOf (filters : List Filter) (row : Row) :
    (anyOf filters).matches row = filters.any fun f => f.matches row := by
  unfold anyOf
  split
  · rfl
  · simp
  · rw [«matches», anyMatches_eq_any]

/-- A row passes two filters together exactly if it passes both. -/
theorem matches_pair (first second : Filter) (row : Row) :
    (allOf [first, second]).matches row = (first.matches row && second.matches row) := by
  rw [matches_allOf]; simp

theorem matches_pair_iff {first second : Filter} {row : Row} :
    (allOf [first, second]).matches row ↔ first.matches row ∧ second.matches row := by
  rw [matches_pair, Bool.and_eq_true]

theorem isNull_of_beq {v w : Value} (same : v == w) : v.isNull = w.isNull := by
  cases v <;> cases w <;> first | rfl | cases same

/-- A row has a value in a column exactly if neither is null and both are the same. -/
theorem matches_equals (column : String) (v : Value) (row : Row) :
    (equals column v).matches row = (!v.isNull && row.has column v) := by
  have order : (compare (row.value column) v == Ordering.eq) = (row.value column == v) := by
    rw [Bool.eq_iff_iff, beq_iff_eq, Value.beq_iff_compare]
  rw [equals, «matches», Condition.holds, Condition.ordered, Condition.compareNonNull, Row.has]
  by_cases null : v.isNull
  · simp [null]
  · by_cases here : (row.value column).isNull
    · have differ : (row.value column == v) = false := by
        rw [Bool.eq_false_iff]
        intro same
        rw [isNull_of_beq same] at here
        exact null here
      simp [here, differ]
    · simp [null, here, order]

/-- A row has one of some values in a column, unless the value there is null. -/
theorem matches_among (column : String) (vs : List Value) (row : Row) :
    (among column vs).matches row =
      (!(row.value column).isNull && vs.any fun v => v == row.value column) := rfl

theorem matches_among_iff {column : String} {vs : List Value} {row : Row} :
    (among column vs).matches row ↔ row.HasOneOf column vs := by
  rw [matches_among, Bool.and_eq_true, Bool.not_eq_true', List.any_eq_true]
  constructor
  · rintro ⟨valued, v, listed, same⟩
    exact ⟨v, listed, (isNull_of_beq same).trans valued, BEq.symm same⟩
  · rintro ⟨v, listed, valued, here⟩
    exact ⟨(isNull_of_beq here).trans valued, v, listed, BEq.symm here⟩

/-- A row passes a filter that is narrowed to some values exactly if it passes the filter and has
one of the values. -/
theorem matches_narrowed_iff {filter : Filter} {column : String} {vs : List Value} {row : Row} :
    (allOf [filter, .among column vs]).matches row ↔
      filter.matches row ∧ row.HasOneOf column vs := by
  rw [matches_pair_iff, matches_among_iff]

end Filter

end GraphRead
