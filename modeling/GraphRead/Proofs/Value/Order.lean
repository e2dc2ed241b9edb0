import GraphRead.Value.Order
import Mathlib.Data.Ordering.Basic
/-!
The order of values is a total preorder, and its equality is sameness.

Comparisons of three things agree if they are those of some preorder (`Agree`). Agreement is kept
by comparing something else where the first comparison cannot tell (`Agree.then`), which is what
the order of values does: it looks at the kinds, then at the contents, and of lists and objects at
one item after the other. So agreement of all comparisons follows by induction on the first value
(`agree_compare`), and sorting by values is stable, transitive and total.
-/

namespace GraphRead

/-! ### Agreement -/

/-- The comparisons of a first with a second thing, of the second with a third and of the first
with the third agree with each other. -/
def Agree (x y z : Ordering) : Prop :=
  (x = .eq → z = y) ∧ (y = .eq → z = x) ∧ (x = .lt → y = .lt → z = .lt) ∧
    (x = .gt → y = .gt → z = .gt)

namespace Agree

/-- Comparing something else where the first comparison cannot tell keeps agreement. -/
theorem «then» {x y z x' y' z' : Ordering} (first : Agree x y z)
    (second : x = .eq → y = .eq → Agree x' y' z') :
    Agree (x.then x') (y.then y') (z.then z') := by
  unfold Agree at *
  cases x <;> cases y <;> simp_all [Ordering.then]

/-- The comparisons of a preorder agree. -/
theorem of_transCmp {α : Type} {cmp : α → α → Ordering} [Std.TransCmp cmp] (a b c : α) :
    Agree (cmp a b) (cmp b c) (cmp a c) := by
  refine ⟨fun same => Std.TransCmp.congr_left same,
    fun same => (Std.TransCmp.congr_right same).symm, Std.TransCmp.lt_trans,
    Std.TransCmp.gt_trans⟩

/-- Comparisons that agree are transitive. -/
theorem isLE {x y z : Ordering} (agree : Agree x y z) (first : x.isLE) (second : y.isLE) :
    z.isLE := by
  unfold Agree at agree
  cases x <;> cases y <;> simp_all [Ordering.isLE]

/-- Comparisons that agree still do so from the other side. -/
theorem swap {x y z : Ordering} (agree : Agree x y z) : Agree x.swap y.swap z.swap := by
  unfold Agree at *
  cases x <;> cases y <;> simp_all [Ordering.swap]

end Agree

/-! ### Decimals and date-times -/

namespace Decimal

/-- The digits of a decimal that is written with the given number of places. -/
def digitsAt (places : Int) (d : Decimal) : Int := d.unscaled * pow10 (places - d.scale).toNat

theorem pow10_add (m n : Nat) : pow10 (m + n) = pow10 m * pow10 n := Nat.pow_add 10 m n

theorem pow10_pos (n : Nat) : 0 < pow10 n := Nat.pow_pos (by decide)

/-- Writing more places multiplies the digits that are compared. -/
theorem digitsAt_eq_aligned {left right : Decimal} {places : Int} (fits : left.scale ≤ places)
    (fitsRight : right.scale ≤ places) :
    digitsAt places left =
      aligned left right * pow10 (places - max left.scale right.scale).toNat := by
  have exponent : (places - left.scale).toNat =
      (right.scale - left.scale).toNat + (places - max left.scale right.scale).toNat := by
    omega
  rw [digitsAt, aligned, exponent, pow10_add]
  push_cast
  rw [Int.mul_assoc]

theorem compare_mul_pos (a b : Int) {n : Nat} (positive : 0 < n) :
    Ord.compare (a * n) (b * n) = Ord.compare a b := by
  have positive : (0 : Int) < n := by omega
  rcases Int.lt_trichotomy a b with less | same | more
  · rw [Int.compare_eq_lt.mpr less, Int.compare_eq_lt]
    exact Int.mul_lt_mul_of_pos_right less positive
  · rw [same, Int.compare_eq_eq.mpr rfl, Int.compare_eq_eq.mpr rfl]
  · rw [Int.compare_eq_gt.mpr more, Int.compare_eq_gt]
    exact Int.mul_lt_mul_of_pos_right more positive

/-- Decimals compare as their digits at any common number of places. -/
theorem compare_eq_digitsAt {left right : Decimal} {places : Int} (fits : left.scale ≤ places)
    (fitsRight : right.scale ≤ places) :
    compare left right = Ord.compare (digitsAt places left) (digitsAt places right) := by
  rw [digitsAt_eq_aligned fits fitsRight, digitsAt_eq_aligned fitsRight fits,
    Int.max_comm right.scale, compare_mul_pos _ _ (pow10_pos _), compare]

theorem compare_swap (left right : Decimal) : compare left right = (compare right left).swap := by
  rw [compare, compare, ← Std.OrientedOrd.eq_swap]

theorem agree_compare (a b c : Decimal) :
    Agree (compare a b) (compare b c) (compare a c) := by
  have first : a.scale ≤ max a.scale (max b.scale c.scale) := by omega
  have second : b.scale ≤ max a.scale (max b.scale c.scale) := by omega
  have third : c.scale ≤ max a.scale (max b.scale c.scale) := by omega
  rw [compare_eq_digitsAt first second, compare_eq_digitsAt second third,
    compare_eq_digitsAt first third]
  exact Agree.of_transCmp _ _ _

theorem same_iff (left right : Decimal) : same left right = true ↔ compare left right = .eq := by
  rw [same, compare, beq_iff_eq, Int.compare_eq_eq]

end Decimal

namespace DateTime

theorem compare_swap (left right : DateTime) : compare left right = (compare right left).swap := by
  rw [compare, compare, Ordering.swap_then, ← Std.OrientedOrd.eq_swap, ← Std.OrientedOrd.eq_swap]

theorem agree_compare (a b c : DateTime) : Agree (compare a b) (compare b c) (compare a c) :=
  (Agree.of_transCmp _ _ _).then fun _ _ => Agree.of_transCmp _ _ _

theorem same_iff (left right : DateTime) : same left right = true ↔ compare left right = .eq := by
  rw [same, compare, Bool.and_eq_true, beq_iff_eq, beq_iff_eq, Ordering.then_eq_eq,
    Int.compare_eq_eq, Nat.compare_eq_eq]

end DateTime

theorem Uuid.beq_iff (left right : Uuid) :
    (left == right) = true ↔ compare left right = .eq := by
  rw [beq_iff_eq, compare, Std.LawfulEqOrd.compare_eq_iff_eq]
  exact ⟨congrArg Uuid.bits, fun same => by cases left; cases right; cases same; rfl⟩

/-! ### Values -/

namespace Value

/-- Values of different kinds compare as their kinds. -/
theorem compare_of_rank_ne {a b : Value} (differ : a.rank ≠ b.rank) :
    compare a b = Ord.compare a.rank b.rank := by
  cases a <;> cases b <;> first | rfl | exact absurd rfl differ

/-- The order of two values looks at their kinds first. -/
theorem compare_eq_then (a b : Value) :
    compare a b = (Ord.compare a.rank b.rank).then (compare a b) := by
  by_cases same : a.rank = b.rank
  · rw [same, Nat.compare_eq_eq.mpr rfl, Ordering.then]
  · rw [compare_of_rank_ne same]
    rcases Nat.lt_or_gt_of_ne same with less | more
    · rw [Nat.compare_eq_lt.mpr less]; rfl
    · rw [Nat.compare_eq_gt.mpr more]; rfl

/-- Values agree as soon as their contents do where they are of one kind. -/
theorem agree_of_content {a b c : Value}
    (content : a.rank = b.rank → b.rank = c.rank →
      Agree (compare a b) (compare b c) (compare a c)) :
    Agree (compare a b) (compare b c) (compare a c) := by
  rw [compare_eq_then a b, compare_eq_then b c, compare_eq_then a c]
  exact (Agree.of_transCmp _ _ _).then fun left right =>
    content (Nat.compare_eq_eq.mp left) (Nat.compare_eq_eq.mp right)

/-- Swapping two values swaps their order as soon as it does where they are of one kind. -/
theorem swap_of_content {a b : Value}
    (content : a.rank = b.rank → compare a b = (compare b a).swap) :
    compare a b = (compare b a).swap := by
  by_cases same : a.rank = b.rank
  · exact content same
  · rw [compare_of_rank_ne same, compare_of_rank_ne (Ne.symm same)]
    exact Std.OrientedOrd.eq_swap

/-- Two values are of different kinds, so neither are they the same nor do they compare equal. -/
theorem same_iff_of_rank_ne {a b : Value} (differ : a.rank ≠ b.rank) :
    same a b = true ↔ compare a b = .eq := by
  rw [compare_of_rank_ne differ, Nat.compare_eq_eq]
  cases a <;> cases b <;> first | exact absurd rfl differ | simp [same, rank]

/-! Values without parts, which are all but lists and objects. -/

theorem agree_flat {a : Value} (flat : a.rank < 9) (b c : Value) :
    Agree (compare a b) (compare b c) (compare a c) := by
  refine agree_of_content fun left right => ?_
  cases a <;> cases b <;> try cases left
  all_goals cases c <;> try cases right
  all_goals first
    | (simp [rank] at flat; done)
    | exact @Agree.of_transCmp _ Ord.compare _ _ _ _
    | exact Decimal.agree_compare _ _ _
    | exact DateTime.agree_compare _ _ _

theorem swap_flat {a : Value} (flat : a.rank < 9) (b : Value) :
    compare a b = (compare b a).swap := by
  refine swap_of_content fun kind => ?_
  cases a <;> cases b <;> try cases kind
  all_goals first
    | (simp [rank] at flat; done)
    | exact Decimal.compare_swap _ _
    | exact DateTime.compare_swap _ _
    | exact Std.OrientedOrd.eq_swap

theorem same_iff_flat {a : Value} (flat : a.rank < 9) (b : Value) :
    same a b = true ↔ compare a b = .eq := by
  by_cases kind : a.rank = b.rank
  · cases a <;> cases b <;> try cases kind
    all_goals first
      | (simp [rank] at flat; done)
      | exact Decimal.same_iff _ _
      | exact DateTime.same_iff _ _
      | exact Uuid.beq_iff _ _
      | simp [same, compare, rank]
  · exact same_iff_of_rank_ne kind

/-! All values, by induction on the first one. -/

mutual

theorem agree_compare : ∀ a b c : Value, Agree (compare a b) (compare b c) (compare a c)
  | .list as, b, c => by
    refine agree_of_content fun left right => ?_
    cases b <;> try cases left
    cases c <;> try cases right
    exact agree_compareItems as _ _
  | .object as, b, c => by
    refine agree_of_content fun left right => ?_
    cases b <;> try cases left
    cases c <;> try cases right
    exact agree_compareMembers as _ _
  | .null, b, c => agree_flat (by simp [rank]) b c
  | .boolean _, b, c => agree_flat (by simp [rank]) b c
  | .int _, b, c => agree_flat (by simp [rank]) b c
  | .float _, b, c => agree_flat (by simp [rank]) b c
  | .string _, b, c => agree_flat (by simp [rank]) b c
  | .enum _, b, c => agree_flat (by simp [rank]) b c
  | .dateTime _, b, c => agree_flat (by simp [rank]) b c
  | .uuid _, b, c => agree_flat (by simp [rank]) b c
  | .bytes _, b, c => agree_flat (by simp [rank]) b c

theorem agree_compareItems : ∀ as bs cs : List Value,
    Agree (compareItems as bs) (compareItems bs cs) (compareItems as cs)
  | [], bs, cs => by
    cases bs <;> cases cs <;> simp [Agree, compareItems]
  | a :: as, bs, cs => by
    cases bs with
    | nil => cases cs <;> simp [Agree, compareItems]
    | cons b bs =>
      cases cs with
      | nil => simp [Agree, compareItems]
      | cons c cs => exact (agree_compare a b c).then fun _ _ => agree_compareItems as bs cs

theorem agree_compareMembers : ∀ as bs cs : List (String × Value),
    Agree (compareMembers as bs) (compareMembers bs cs) (compareMembers as cs)
  | [], bs, cs => by
    cases bs <;> cases cs <;> simp [Agree, compareMembers]
  | (j, a) :: as, bs, cs => by
    cases bs with
    | nil => cases cs <;> simp [Agree, compareMembers]
    | cons b bs =>
      cases cs with
      | nil => simp [Agree, compareMembers]
      | cons c cs =>
        refine Agree.then ?_ fun _ _ => agree_compareMembers as bs cs
        exact (Agree.of_transCmp _ _ _).then fun _ _ => agree_compare a b.2 c.2

end

mutual

theorem compare_swap : ∀ a b : Value, compare a b = (compare b a).swap
  | .list as, b => by
    refine swap_of_content fun kind => ?_
    cases b <;> try cases kind
    exact compareItems_swap as _
  | .object as, b => by
    refine swap_of_content fun kind => ?_
    cases b <;> try cases kind
    exact compareMembers_swap as _
  | .null, b => swap_flat (by simp [rank]) b
  | .boolean _, b => swap_flat (by simp [rank]) b
  | .int _, b => swap_flat (by simp [rank]) b
  | .float _, b => swap_flat (by simp [rank]) b
  | .string _, b => swap_flat (by simp [rank]) b
  | .enum _, b => swap_flat (by simp [rank]) b
  | .dateTime _, b => swap_flat (by simp [rank]) b
  | .uuid _, b => swap_flat (by simp [rank]) b
  | .bytes _, b => swap_flat (by simp [rank]) b

theorem compareItems_swap : ∀ as bs : List Value, compareItems as bs = (compareItems bs as).swap
  | [], bs => by cases bs <;> rfl
  | a :: as, [] => rfl
  | a :: as, b :: bs => by
    rw [compareItems, compareItems, Ordering.swap_then, ← compare_swap a b,
      ← compareItems_swap as bs]

theorem compareMembers_swap :
    ∀ as bs : List (String × Value), compareMembers as bs = (compareMembers bs as).swap
  | [], bs => by cases bs <;> rfl
  | a :: as, [] => rfl
  | (j, a) :: as, (k, b) :: bs => by
    rw [compareMembers, compareMembers, Ordering.swap_then, Ordering.swap_then,
      ← compare_swap a b, ← compareMembers_swap as bs, ← Std.OrientedOrd.eq_swap]

end

mutual

/-- Two values are the same exactly if they compare equal. -/
theorem same_iff_compare : ∀ a b : Value, same a b = true ↔ compare a b = .eq
  | .list as, b => by
    by_cases kind : (list as).rank = b.rank
    · cases b <;> try cases kind
      exact sameItems_iff as _
    · exact same_iff_of_rank_ne kind
  | .object as, b => by
    by_cases kind : (object as).rank = b.rank
    · cases b <;> try cases kind
      exact sameMembers_iff as _
    · exact same_iff_of_rank_ne kind
  | .null, b => same_iff_flat (by simp [rank]) b
  | .boolean _, b => same_iff_flat (by simp [rank]) b
  | .int _, b => same_iff_flat (by simp [rank]) b
  | .float _, b => same_iff_flat (by simp [rank]) b
  | .string _, b => same_iff_flat (by simp [rank]) b
  | .enum _, b => same_iff_flat (by simp [rank]) b
  | .dateTime _, b => same_iff_flat (by simp [rank]) b
  | .uuid _, b => same_iff_flat (by simp [rank]) b
  | .bytes _, b => same_iff_flat (by simp [rank]) b

theorem sameItems_iff : ∀ as bs : List Value, sameItems as bs = true ↔ compareItems as bs = .eq
  | [], bs => by cases bs <;> simp [sameItems, compareItems]
  | a :: as, [] => by simp [sameItems, compareItems]
  | a :: as, b :: bs => by
    rw [sameItems, compareItems, Bool.and_eq_true, Ordering.then_eq_eq, same_iff_compare a b,
      sameItems_iff as bs]

theorem sameMembers_iff :
    ∀ as bs : List (String × Value), sameMembers as bs = true ↔ compareMembers as bs = .eq
  | [], bs => by cases bs <;> simp [sameMembers, compareMembers]
  | a :: as, [] => by simp [sameMembers, compareMembers]
  | (j, a) :: as, (k, b) :: bs => by
    rw [sameMembers, compareMembers, Bool.and_eq_true, Bool.and_eq_true, Ordering.then_eq_eq,
      Ordering.then_eq_eq, same_iff_compare a b, sameMembers_iff as bs, beq_iff_eq,
      Std.LawfulEqOrd.compare_eq_iff_eq]

end

instance : Std.TransOrd Value where
  eq_swap := compare_swap _ _
  isLE_trans := (agree_compare _ _ _).isLE

/-- Two values are the same exactly if they compare equal. -/
theorem beq_iff_compare {a b : Value} : (a == b) = true ↔ Ord.compare a b = .eq :=
  same_iff_compare a b

instance : EquivBEq Value where
  rfl := beq_iff_compare.mpr Std.ReflOrd.compare_self
  symm same := beq_iff_compare.mpr (Std.OrientedCmp.eq_symm (beq_iff_compare.mp same))
  trans left right :=
    beq_iff_compare.mpr (Std.TransCmp.eq_trans (beq_iff_compare.mp left) (beq_iff_compare.mp right))

end Value

end GraphRead
