import GraphRead.Proofs.Page.Fetch
import GraphRead.Proofs.Page.Seek
import GraphRead.Proofs.Page.Ties
import Mathlib.Algebra.Order.Field.Power
import Mathlib.Algebra.Order.Field.Rat
import Mathlib.Data.Int.Cast.Lemmas
/-!
Values and the keys that records are sorted by are totally ordered.

What sorting needs of a comparison is that it is total and transitive, and that it finds two things
equal exactly if they are the same (`Sorts`). The comparison of values is of that kind for all
values together, whatever they are nested in. Decimals are the same as numbers and date-times as
instants (`Decimal.same_iff_toRat`, `DateTime.same_iff_instant`). An order compares keys column by
column, so the laws pass from values to keys of the length of the order (`Order.sorts_keys`); the
reversed order is the one seen from the other side (`Order.compareKeys_reversed`). With the primary
key as tiebreaker an order tells any two rows apart whose primary keys differ
(`Order.compareKeys_withTiebreaker_ne`).
-/

namespace GraphRead

/-- A comparison orders the things that pass a test totally, and finds two of them equal exactly if
they are the same. -/
structure Sorts {α : Type} (among : α → Prop) (cmp : α → α → Ordering) (same : α → α → Prop) :
    Prop where
  total : ∀ a b, among a → among b → (cmp a b).isLE ∨ (cmp b a).isLE
  swap : ∀ a b, among a → among b → cmp b a = (cmp a b).swap
  trans : ∀ a b c, among a → among b → among c → (cmp a b).isLE → (cmp b c).isLE → (cmp a c).isLE
  antisymm : ∀ a b, among a → among b → (cmp a b).isLE → (cmp b a).isLE → same a b
  eq_iff : ∀ a b, among a → among b → (cmp a b = .eq ↔ same a b)

/-- Comparisons that swap and agree are total and transitive. -/
theorem Sorts.of_agree {α : Type} {among : α → Prop} {cmp : α → α → Ordering} {same : α → α → Prop}
    (swap : ∀ a b, among a → among b → cmp b a = (cmp a b).swap)
    (agree : ∀ a b c, among a → among b → among c → Agree (cmp a b) (cmp b c) (cmp a c))
    (eq_iff : ∀ a b, among a → among b → (cmp a b = .eq ↔ same a b)) : Sorts among cmp same where
  total a b here there := by
    rw [swap a b here there]
    cases cmp a b <;> decide
  swap := swap
  trans a b c first second third := (agree a b c first second third).isLE
  antisymm a b here there less more := by
    rw [swap a b here there] at more
    refine (eq_iff a b here there).mp ?_
    cases both : cmp a b with
    | lt => rw [both] at more; cases more
    | eq => rfl
    | gt => rw [both] at less; cases less
  eq_iff := eq_iff

/-! ### Numbers and instants -/

namespace Decimal

/-- The number that a decimal stands for. -/
def toRat (d : Decimal) : ℚ := d.unscaled * 10 ^ (-d.scale)

theorem cast_digitsAt {d : Decimal} {places : Int} (fits : d.scale ≤ places) :
    (digitsAt places d : ℚ) = d.toRat * 10 ^ places := by
  have exponent : -d.scale + places = ((places - d.scale).toNat : Int) := by omega
  have power : (pow10 (places - d.scale).toNat : ℚ) = 10 ^ ((places - d.scale).toNat : Int) := by
    rw [zpow_natCast]
    exact Nat.cast_pow 10 _
  rw [digitsAt, toRat, mul_assoc, ← zpow_add₀ (by norm_num), exponent]
  push_cast
  rw [power]

/-- Decimals compare as the numbers that they stand for. -/
theorem compare_lt_iff_toRat (left right : Decimal) :
    compare left right = .lt ↔ left.toRat < right.toRat := by
  have first : left.scale ≤ max left.scale right.scale := Int.le_max_left _ _
  have second : right.scale ≤ max left.scale right.scale := Int.le_max_right _ _
  have positive : (0 : ℚ) < 10 ^ max left.scale right.scale := zpow_pos (by norm_num) _
  rw [compare_eq_digitsAt first second, Int.compare_eq_lt, ← @Int.cast_lt ℚ,
    cast_digitsAt first, cast_digitsAt second, mul_lt_mul_iff_of_pos_right positive]

/-- Decimals are the same exactly if they stand for one number. -/
theorem same_iff_toRat (left right : Decimal) :
    same left right = true ↔ left.toRat = right.toRat := by
  have first : left.scale ≤ max left.scale right.scale := Int.le_max_left _ _
  have second : right.scale ≤ max left.scale right.scale := Int.le_max_right _ _
  have nonzero : (10 : ℚ) ^ max left.scale right.scale ≠ 0 := zpow_ne_zero _ (by norm_num)
  rw [same_iff, compare_eq_digitsAt first second, Int.compare_eq_eq, ← @Int.cast_inj ℚ,
    cast_digitsAt first, cast_digitsAt second, mul_left_inj' nonzero]

end Decimal

/-- The instant that a date-time names: the second, and the nanoseconds since its start. -/
def DateTime.instant (t : DateTime) : Int × Nat := (t.seconds, t.nanos)

/-- Date-times are the same exactly if they name one instant. -/
theorem DateTime.same_iff_instant (left right : DateTime) :
    same left right = true ↔ left.instant = right.instant := by
  rw [same, Bool.and_eq_true, beq_iff_eq, beq_iff_eq, instant, instant, Prod.mk.injEq]

/-! ### Values -/

namespace Value

/-- Values are totally ordered. -/
theorem sorts_values : Sorts (fun _ => True) compare fun a b => (a == b) = true :=
  .of_agree (fun a b _ _ => compare_swap b a) (fun a b c _ _ _ => agree_compare a b c)
    fun _ _ _ _ => beq_iff_compare.symm

/-- Null comes before every other value. -/
theorem compare_null (v : Value) : compare .null v = if v.isNull then .eq else .lt := by
  cases v <;> rfl

end Value

/-! ### Keys -/

namespace Order

/-- Keys compare equal exactly if they are the same position by position. -/
theorem compareKeys_eq_iff {order : Order} {k l : List Value} (left : k.length = order.length)
    (right : l.length = order.length) :
    order.compareKeys k l = .eq ↔ List.Forall₂ (fun v w => (v == w) = true) k l := by
  induction order generalizing k l with
  | nil =>
    rw [List.length_eq_zero_iff.mp left, List.length_eq_zero_iff.mp right]
    exact iff_of_true rfl .nil
  | cons part parts ih =>
    obtain ⟨v, k, rfl⟩ := List.exists_cons_of_length_eq_add_one left
    obtain ⟨w, l, rfl⟩ := List.exists_cons_of_length_eq_add_one right
    have here := part.direction.apply_eq_eq (compare v w)
    rw [Bool.eq_iff_iff, beq_iff_eq, beq_iff_eq, ← Value.beq_iff_compare] at here
    rw [compareKeys, Ordering.then_eq_eq, here, ih (Nat.succ.inj left) (Nat.succ.inj right),
      List.forall₂_cons]

/-- Keys of the length of an order are totally ordered by it. -/
theorem sorts_keys (order : Order) : Sorts (fun k => k.length = order.length) order.compareKeys
    (List.Forall₂ fun v w => (v == w) = true) := by
  refine .of_agree (fun k l left right => ?_) (fun k l m first second third => ?_)
    fun k l left right => compareKeys_eq_iff left right
  · rw [compareKeys_eq_filled left right, compareKeys_eq_filled right left]
    exact compareFilled_swap order l k
  · rw [compareKeys_eq_filled first second, compareKeys_eq_filled second third,
      compareKeys_eq_filled first third]
    exact agree_compareFilled order k l m

/-- A reversed order compares from the other side. -/
theorem compareKeys_reversed (order : Order) (k l : List Value) :
    order.reversed.compareKeys k l = order.compareKeys l k := by
  induction order generalizing k l with
  | nil => rfl
  | cons part parts ih =>
    cases k with
    | nil => cases l <;> rfl
    | cons v k =>
      cases l with
      | nil => rfl
      | cons w l =>
        have turned : part.direction.reverse.apply (compare v w) =
            part.direction.apply (compare w v) := by
          rw [show compare v w = (compare w v).swap from Value.compare_swap v w]
          cases part.direction
          · exact Ordering.swap_swap
          · rfl
        exact congrArg₂ Ordering.then turned (ih k l)

/-- With the primary key as tiebreaker no two rows tie whose primary keys differ. -/
theorem compareKeys_withTiebreaker_ne (order : Order) {primaryKey : String} {r s : Row}
    (differ : (r.value primaryKey == s.value primaryKey) = false) :
    (order.withTiebreaker primaryKey).compareKeys
      ((order.withTiebreaker primaryKey).columns.map r.value)
      ((order.withTiebreaker primaryKey).columns.map s.value) ≠ .eq := by
  intro tie
  rw [Memory.compareKeys_values] at tie
  have same := Memory.beq_of_compareRows_eq tie (order.mem_columns_withTiebreaker primaryKey)
  rw [same] at differ
  cases differ

/-- **Values and keys are totally ordered, and their equality is that of the order.** All values are
ordered together, of whatever kinds they are and however deep they are nested, null before every
other. Two of them compare equal exactly if they are the same, which decimals are as numbers and
date-times as instants. Every order of columns sorts the keys of its length: they compare equal
exactly if they are the same position by position. The reversed order compares from the other side,
and with the primary key as tiebreaker no two rows compare equal whose primary keys differ. -/
theorem values_and_keys_sorted (order : Order) (v : Value) (d e : Decimal) (t u : DateTime)
    (k l : List Value) (primaryKey : String) (r s : Row) :
    Sorts (fun _ => True) Value.compare (fun a b => (a == b) = true) ∧
    Value.compare .null v = (if v.isNull then .eq else .lt) ∧
    ((Value.float d == .float e) = true ↔ d.toRat = e.toRat) ∧
    (Value.compare (.float d) (.float e) = .lt ↔ d.toRat < e.toRat) ∧
    ((Value.dateTime t == .dateTime u) = true ↔ t.instant = u.instant) ∧
    Sorts (fun k => k.length = order.length) order.compareKeys
      (List.Forall₂ fun v w => (v == w) = true) ∧
    order.reversed.compareKeys k l = order.compareKeys l k ∧
    ((r.value primaryKey == s.value primaryKey) = false →
      (order.withTiebreaker primaryKey).compareKeys
        ((order.withTiebreaker primaryKey).columns.map r.value)
        ((order.withTiebreaker primaryKey).columns.map s.value) ≠ .eq) :=
  ⟨Value.sorts_values, Value.compare_null v, Decimal.same_iff_toRat d e,
    Decimal.compare_lt_iff_toRat d e, DateTime.same_iff_instant t u, order.sorts_keys,
    order.compareKeys_reversed k l, order.compareKeys_withTiebreaker_ne⟩

end Order

namespace Scores

/-- Two players with the same score, in two spellings. -/
def ada : Row := [("score", .float ⟨150, 2⟩), ("id", .int 1)]

def bob : Row := [("score", .float ⟨15, 1⟩), ("id", .int 2)]

/-- The players tie by score, but not where the primary key stands behind it or in front of it. -/
theorem values_and_keys_sorted_tie :
    Order.compareKeys [⟨"score", .descending⟩] [ada.value "score"] [bob.value "score"] = .eq ∧
    Order.compareKeys [⟨"score", .descending⟩, ⟨"id", .ascending⟩]
      [ada.value "score", ada.value "id"] [bob.value "score", bob.value "id"] ≠ .eq ∧
    Order.compareKeys [⟨"id", .descending⟩, ⟨"score", .ascending⟩]
      [ada.value "id", ada.value "score"] [bob.value "id", bob.value "score"] ≠ .eq := by
  have apart (order : Order) := (Order.values_and_keys_sorted order .null ⟨0, 0⟩ ⟨0, 0⟩
    ⟨⟨2021, 3, 4, 5, 6, 7, 0, 0⟩, by decide⟩ ⟨⟨2021, 3, 4, 5, 6, 7, 0, 0⟩, by decide⟩ [] [] "id"
    ada bob).2.2.2.2.2.2.2 rfl
  exact ⟨rfl, apart [⟨"score", .descending⟩], apart [⟨"id", .descending⟩, ⟨"score", .ascending⟩]⟩

end Scores

end GraphRead
