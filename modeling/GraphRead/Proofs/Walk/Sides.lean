import GraphRead.Proofs.Walk.Run
/-!
The two sides of a cursor.

The rows beyond a cursor are taken by comparisons that reject null, while rows are sorted with null
in front of everything else. So the filter agrees with the order as long as no null is met before
the row and the cursor are told apart, and a row with which one is met lies on neither side of the
cursor, wherever the order puts it.
-/

namespace GraphRead

namespace Entry

/-- How an entry lies to the cursor of another one in the list of a type, which is told from others
only where several types are merged. -/
def lies (order : Order) (typed : Bool) (e own : Entry) : Ordering :=
  (e.row.against order (own.cursor order typed).values).then
    ((own.cursor order typed).typeAgainst order (if typed then some e.target.type.name else none))

/-- Whether an entry is among the rows of its type beyond the cursor of another one. -/
def passes (order : Order) (typed : Bool) (e own : Entry) (side : Side) : Bool :=
  (seekFilter order (own.cursor order typed) side
    (if typed then some e.target.type.name else none)).matches e.row

/-- Entries that differ in a column of the order, or in the names of their types where these count,
do not tie. -/
theorem lies_ne_eq {order : Order} {typed : Bool} {e own : Entry}
    (other : (∃ key ∈ order.columns, (e.row.value key == own.row.value key) = false) ∨
      typed = true ∧ e.target.type.name ≠ own.target.type.name) : e.lies order typed own ≠ .eq := by
  intro tie
  obtain ⟨columns, types⟩ := Ordering.then_eq_eq.mp tie
  rw [Row.against_cursor] at columns
  rcases other with ⟨key, sorted, differ⟩ | ⟨rfl, differ⟩
  · rw [Memory.beq_of_compareRows_eq columns sorted] at differ
    cases differ
  · rw [if_pos rfl, Cursor.typeAgainst_cursor, if_pos rfl] at types
    exact differ (Std.LawfulEqOrd.eq_of_compare types)

end Entry

/-- The filter beyond a cursor agrees with the order on a row, on both sides, exactly if no null is
met, or else the row ties with the cursor. Of the entries that differ from another one in a column
of the order, such as the primary key, or in the type, exactly those lie on one side of its cursor,
and on one only, with which no null is met. -/
theorem seekFilter_agrees_iff (order : Order) :
    (∀ (cursor : Cursor) (row : Row) (type : Option String),
      (∀ side, (seekFilter order cursor side type).matches row = true ↔
        (row.against order cursor.values).then (cursor.typeAgainst order type) = side.ordering) ↔
      row.meetsNull order cursor.values = false ∨
        (row.against order cursor.values).then (cursor.typeAgainst order type) = .eq) ∧
    ∀ (typed : Bool) (e own : Entry),
      ((∃ key ∈ order.columns, (e.row.value key == own.row.value key) = false) ∨
        typed = true ∧ e.target.type.name ≠ own.target.type.name) →
      (e.passes order typed own .after ≠ e.passes order typed own .before ↔
        e.row.meetsNull order (own.cursor order typed).values = false) := by
  constructor
  · intro cursor row type
    simp only [matches_seekFilter_eq, Bool.and_eq_true, Bool.not_eq_true', beq_iff_eq]
    cases row.meetsNull order cursor.values with
    | false => exact ⟨fun _ => .inl rfl, fun _ _ => and_iff_right rfl⟩
    | true =>
      generalize (row.against order cursor.values).then (cursor.typeAgainst order type) = place
      constructor
      · intro agrees
        refine .inr ?_
        cases place with
        | eq => rfl
        | gt => exact nomatch ((agrees .after).mpr rfl).1
        | lt => exact nomatch ((agrees .before).mpr rfl).1
      · rintro (none | tie) side
        · cases none
        · rw [tie]
          exact ⟨fun passes => (nomatch passes.1), fun same => absurd same side.ordering_ne_eq⟩
  · intro typed e own other
    have apart := Entry.lies_ne_eq other
    rw [Entry.passes, Entry.passes, matches_seekFilter_eq, matches_seekFilter_eq]
    change (_ && e.lies order typed own == Side.ordering .after) ≠
      (_ && e.lies order typed own == Side.ordering .before) ↔ _
    generalize e.lies order typed own = place at apart
    cases e.row.meetsNull order (own.cursor order typed).values <;> cases place <;>
      first | exact absurd rfl apart | decide

namespace Players

def byScore : Order := [⟨"score", .descending⟩, ⟨"id", .ascending⟩]

/-- A player of a type, whose row stands for nothing but its place in the order. -/
def player (type : String) (score : Value) (id : Int64) : Entry where
  target := .field ⟨⟨type, "players", "id", .always, []⟩, []⟩
  row := [("score", score), ("id", .int id)]

/-- Two players of different types that tie in every column. -/
theorem seekFilter_agrees_tied :
    (∀ side, (seekFilter byScore ((player "user" (.int 5) 1).cursor byScore true) side
        (some "bot")).matches (player "bot" (.int 5) 1).row = true ↔
      ((player "bot" (.int 5) 1).row.against byScore
          ((player "user" (.int 5) 1).cursor byScore true).values).then
        (((player "user" (.int 5) 1).cursor byScore true).typeAgainst byScore (some "bot")) =
          side.ordering) ∧
      (player "bot" (.int 5) 1).passes byScore true (player "user" (.int 5) 1) .after ≠
        (player "bot" (.int 5) 1).passes byScore true (player "user" (.int 5) 1) .before := by
  obtain ⟨agrees, sides⟩ := seekFilter_agrees_iff byScore
  exact ⟨(agrees _ (player "bot" (.int 5) 1).row (some "bot")).mpr (.inl (by decide)),
    (sides true (player "bot" (.int 5) 1) (player "user" (.int 5) 1) (.inr ⟨rfl, by decide⟩)).mpr
      (by decide)⟩

/-- The player without a score comes last, but is read on neither side of the cursor of another
one, and no other player is read on either side of its own cursor. -/
theorem seekFilter_skips_null :
    (player "user" .null 2).lies byScore false (player "user" (.int 5) 1) = .gt ∧
      (∀ side, (player "user" .null 2).passes byScore false (player "user" (.int 5) 1) side =
        false) ∧
      (player "user" (.int 5) 1).lies byScore false (player "user" .null 2) = .lt ∧
      ∀ side, (player "user" (.int 5) 1).passes byScore false (player "user" .null 2) side =
        false := by
  refine ⟨by decide, ?_, by decide, ?_⟩ <;> rintro (_ | _) <;> decide

end Players

end GraphRead
