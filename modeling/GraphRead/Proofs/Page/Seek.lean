import GraphRead.Proofs.Filter.Matches
import GraphRead.Proofs.Store.Sorting
import GraphRead.Resolve.Seek
/-!
What the filter beyond a cursor lets pass.

A row passes it exactly if the row lies on the sought side of the cursor, by the columns of the
order, and by the name of its type where all columns tie and the cursor names a type
(`matches_seekFilter`). This takes that no null is met on the way: a comparison with null never
holds, so a row drops out on both sides of a cursor if there is a null, of the row or of the cursor,
in a column that is reached before the two are told apart (`matches_seekFilter_eq`).
-/

namespace GraphRead

theorem Direction.apply_eq_eq (direction : Direction) (ordering : Ordering) :
    (direction.apply ordering == .eq) = (ordering == .eq) := by
  cases direction <;> cases ordering <;> rfl

/-- How a row compares with the values of a cursor in an order. -/
def Row.against (order : Order) (values : List Value) (row : Row) : Ordering :=
  order.compareKeys (order.columns.map row.value) values

theorem Row.against_cons (part : SortColumn) (parts : Order) (v : Value) (vs : List Value)
    (row : Row) : row.against (part :: parts) (v :: vs) =
      (part.direction.apply (compare (row.value part.column) v)).then (row.against parts vs) := rfl

/-- There is a null, of the row or of the cursor, in the first column that tells the two apart or in
a column before it. -/
def Row.meetsNull : Order → List Value → Row → Bool
  | part :: parts, v :: vs, row =>
    (row.value part.column).isNull || v.isNull ||
      compare (row.value part.column) v == .eq && meetsNull parts vs row
  | _, _, _ => false

theorem Row.meetsNull_cons (part : SortColumn) (parts : Order) (v : Value) (vs : List Value)
    (row : Row) : row.meetsNull (part :: parts) (v :: vs) =
      ((row.value part.column).isNull || v.isNull ||
        part.direction.apply (compare (row.value part.column) v) == .eq &&
          row.meetsNull parts vs) := by
  rw [meetsNull, part.direction.apply_eq_eq]

theorem Row.meetsNull_of_valued {order : Order} {values : List Value} {row : Row}
    (valued : ∀ column ∈ order.columns, (row.value column).isNull = false)
    (given : ∀ v ∈ values, v.isNull = false) : row.meetsNull order values = false := by
  induction order generalizing values with
  | nil => cases values <;> rfl
  | cons part parts ih =>
    cases values with
    | nil => rfl
    | cons v vs =>
      obtain ⟨here, later⟩ := List.forall_mem_cons.mp given
      have others := ih (fun column present => valued column (List.mem_cons_of_mem _ present)) later
      rw [meetsNull, valued part.column List.mem_cons_self, here, others, Bool.and_false]
      rfl

/-- An order is known of two values exactly if neither is null. -/
theorem Condition.ordered_eq (left right : Value) (test : Ordering → Bool) :
    ordered left right test = (!(left.isNull || right.isNull) && test (compare left right)) := by
  rw [ordered, compareNonNull]
  cases left.isNull || right.isNull <;> rfl

/-- How a type compares with the one that a cursor names. Where either is missing they tie. -/
def Cursor.typeAgainst (order : Order) (cursor : Cursor) (type : Option String) : Ordering :=
  match type, cursor.values[order.length]? with
  | some own, some (.string other) => compare own other
  | _, _ => .eq

namespace Side

theorem ordering_then (side : Side) (first second : Ordering) :
    (first.then second == side.ordering) =
      (first == side.ordering || (first == .eq && second == side.ordering)) := by
  cases side <;> cases first <;> rfl

theorem takesTies_eq (side : Side) (order : Order) (cursor : Cursor) (type : Option String) :
    side.takesTies order cursor type = (cursor.typeAgainst order type == side.ordering) := by
  have tie : (Ordering.eq == side.ordering) = false := by cases side <;> rfl
  unfold takesTies Cursor.typeAgainst
  cases type with
  | none => exact tie.symm
  | some own =>
    cases cursor.values[order.length]? with
    | none => exact tie.symm
    | some last => cases last <;> first | rfl | exact tie.symm

variable (side : Side) {order : Order} {values : List Value} {row : Row}

/-- A row is past a value exactly if neither is null and it compares so, in the direction of the
column. -/
theorem matches_past (part : SortColumn) (v : Value) (row : Row) :
    (side.past part v).matches row = (!((row.value part.column).isNull || v.isNull) &&
      part.direction.apply (compare (row.value part.column) v) == side.ordering) := by
  unfold past
  cases side <;> cases part.direction <;>
    refine (Condition.ordered_eq _ _ _).trans (congrArg (and _) ?_) <;>
    cases compare (row.value part.column) v <;> rfl

/-- A row has a value exactly if neither is null and they compare equal. -/
theorem matches_equals_of_direction (part : SortColumn) (v : Value) (row : Row) :
    (Filter.equals part.column v).matches row = (!((row.value part.column).isNull || v.isNull) &&
      part.direction.apply (compare (row.value part.column) v) == .eq) := by
  rw [part.direction.apply_eq_eq]
  exact Condition.ordered_eq _ _ _

/-- One of the alternatives holds exactly if the row is on the side of the cursor and no null is
met, provided that the earlier columns are as they are to be. -/
theorem any_alternatives (earlier : List Filter) :
    ((side.alternatives earlier order values).any fun f => f.matches row) =
      ((earlier.all fun f => f.matches row) &&
        (!row.meetsNull order values && row.against order values == side.ordering)) := by
  induction order generalizing earlier values with
  | nil => cases side <;> simp [alternatives, Row.against, Order.compareKeys, ordering]
  | cons part parts ih =>
    cases values with
    | nil =>
      cases side <;>
        simp [alternatives, Row.against, Order.compareKeys, ordering, Order.columns]
    | cons v vs =>
      have others := @ih vs (earlier ++ [Filter.equals part.column v])
      rw [alternatives, List.any_cons, others, Filter.matches_allOf, List.all_append,
        List.all_append, List.all_cons, List.all_nil, Bool.and_true, List.all_cons, List.all_nil,
        Bool.and_true, side.matches_past, matches_equals_of_direction, Row.against_cons,
        Row.meetsNull_cons, ordering_then, Bool.and_assoc, ← Bool.and_or_distrib_left]
      refine congrArg (_ && ·) ?_
      generalize part.direction.apply (compare (row.value part.column) v) = first
      cases (row.value part.column).isNull || v.isNull <;> cases first <;> cases side <;>
        cases row.meetsNull parts vs <;> rfl

/-- All columns tie with the cursor exactly if no null is met and the row compares equal. -/
theorem matches_tied : (Filter.allOf (tied order values)).matches row =
    (!row.meetsNull order values && row.against order values == .eq) := by
  rw [Filter.matches_allOf]
  induction order generalizing values with
  | nil => rfl
  | cons part parts ih =>
    cases values with
    | nil => rfl
    | cons v vs =>
      have others : ((tied parts vs).all fun f => f.matches row) = _ := ih
      rw [tied] at others
      rw [tied, List.zipWith_cons_cons, List.all_cons, others, matches_equals_of_direction,
        Row.against_cons, Row.meetsNull_cons]
      generalize part.direction.apply (compare (row.value part.column) v) = first
      cases (row.value part.column).isNull || v.isNull <;> cases first <;>
        cases row.meetsNull parts vs <;> rfl

end Side

/-- A row passes the filter beyond a cursor exactly if no null is met and the row lies on that side
of the cursor, where rows that tie in every column are ordered by the names of their types. -/
theorem matches_seekFilter_eq (order : Order) (cursor : Cursor) (row : Row) (side : Side)
    (type : Option String) : (seekFilter order cursor side type).matches row =
      (!row.meetsNull order cursor.values &&
        ((row.against order cursor.values).then (cursor.typeAgainst order type) ==
          side.ordering)) := by
  rw [seekFilter, Filter.matches_anyOf, List.any_append, side.any_alternatives [],
    side.ordering_then, List.all_nil, Bool.true_and, side.takesTies_eq, Bool.and_or_distrib_left]
  refine congrArg (or _) ?_
  split
  · rename_i ties
    rw [List.any_cons, List.any_nil, Bool.or_false, Side.matches_tied, ties, Bool.and_true]
  · rename_i apart
    rw [List.any_nil, Bool.eq_false_iff.mpr apart, Bool.and_false, Bool.and_false]

/-- A row passes the filter beyond a cursor exactly if it lies on that side of the cursor, where
rows that tie in every column are ordered by the names of their types. -/
theorem matches_seekFilter {order : Order} {cursor : Cursor} {row : Row} (side : Side)
    (type : Option String) (valued : ∀ column ∈ order.columns, (row.value column).isNull = false)
    (given : ∀ v ∈ cursor.values, v.isNull = false) :
    (seekFilter order cursor side type).matches row =
      ((row.against order cursor.values).then (cursor.typeAgainst order type) ==
        side.ordering) := by
  rw [matches_seekFilter_eq, Row.meetsNull_of_valued valued given]
  rfl

end GraphRead
