import GraphRead.Proofs.Document.Tidy
import GraphRead.Proofs.Merging.Union
import GraphRead.Proofs.Repeat.Within
import GraphRead.Proofs.Success
/-!
When selections can be merged, and what they become.

Two invocations of a field can be merged if their arguments are equal, and the children that they
both have can be merged in turn (`Selection.Compatible`). This is all that merging checks, however
it goes about it (`splice_eq_ok`), and then the result is known: the children of both
under their keys, and the fragments of both under their conditions (`Selection.joined`).

Three selections can be merged in any grouping if each two of them can
(`childrenCompatible_joined_iff`), and they become the same selection (`joined_assoc`,
`splice_regroup`, `merge_regroup`).
-/

namespace GraphRead.Selection

open Fallible

/-- Two invocations of a field can be merged: the arguments are equal, and whatever children stand
under one key can be merged. -/
inductive Compatible : Selection → Selection → Prop
  | intro {s t : Selection} (name : s.name = t.name)
    (arguments : sameArguments s.arguments t.arguments = true)
    (children : ∀ key x y, Keyed.get? s.children key = some x → Keyed.get? t.children key = some y →
      Compatible x y) : Compatible s t

/-- The children that two selections have under one key can be merged. -/
def ChildrenCompatible (children others : List (String × Selection)) : Prop :=
  ∀ key x y, Keyed.get? children key = some x → Keyed.get? others key = some y → Compatible x y

theorem compatible_iff {s t : Selection} :
    Compatible s t ↔ s.name = t.name ∧ sameArguments s.arguments t.arguments = true ∧
      ChildrenCompatible s.children t.children :=
  ⟨fun ⟨name, arguments, children⟩ => ⟨name, arguments, children⟩,
    fun ⟨name, arguments, children⟩ => ⟨name, arguments, children⟩⟩

/-- The children of two selections, with those under one key merged. -/
def joinChildren (children others : List (String × Selection)) : List (String × Selection) :=
  Keyed.union (fun there child => (splice there child).selection) children others

/-- A selection with what another one adds to it. -/
def joined (s t : Selection) : Selection :=
  { s with
    children := joinChildren s.children t.children
    fragments := Keyed.union (· ++ ·) s.fragments t.fragments }

theorem addFragments_eq_union (there more : List (String × List Selection)) :
    addFragments there more = Keyed.union (· ++ ·) there more := by
  unfold addFragments Keyed.union
  refine congrArg (List.foldl · there more) (funext fun fragments => funext fun entry => ?_)
  obtain ⟨condition, members⟩ := entry
  dsimp only
  cases Keyed.get? fragments condition <;> rfl

/-! ### What merging checks -/

theorem childrenCompatible_cons {children rest : List (String × Selection)} {key : String}
    {child : Selection} (fresh : key ∉ rest.map Prod.fst) :
    ChildrenCompatible children ((key, child) :: rest) ↔
      (∀ there, Keyed.get? children key = some there → Compatible there child) ∧
        ChildrenCompatible children rest := by
  constructor
  · intro fits
    refine ⟨fun there found => fits key there child found (if_pos rfl),
      fun k x y found found' => fits k x y found ?_⟩
    rw [Keyed.get?, if_neg, found']
    rintro rfl
    rw [Keyed.get?_eq_none_iff.mpr fresh] at found'
    cases found'
  · rintro ⟨here, later⟩ k x y found found'
    rw [Keyed.get?] at found'
    split at found'
    · rename_i same
      cases found'
      exact here x (same ▸ found)
    · exact later k x y found found'

/-- What is filed under another key does not matter. -/
theorem childrenCompatible_insert {children rest : List (String × Selection)} {key : String}
    (child : Selection) (fresh : key ∉ rest.map Prod.fst) :
    ChildrenCompatible (Keyed.insert children key child) rest ↔
      ChildrenCompatible children rest := by
  refine forall_congr' fun k => forall₂_congr fun x y => ?_
  by_cases here : key = k
  · subst here
    rw [Keyed.get?_eq_none_iff.mpr fresh]
    exact ⟨nofun, nofun⟩
  · rw [Keyed.get?_insert, if_neg here]

/-- A child is filed exactly if it can be merged with the one under its key. -/
theorem place_eq_ok {s child next : Selection} (tidy : s.Tidy)
    (merged : ∀ there next : Selection, there.Tidy → ((splice there child).result = .ok next ↔
      ChildrenCompatible there.children child.children ∧ next = joined there child)) :
    (place s child fun there => splice there child).result = .ok next ↔
      (∀ there, Keyed.get? s.children child.outputKey = some there → Compatible there child) ∧
        next = { s with children := joinChildren s.children [(child.outputKey, child)] } := by
  obtain ⟨-, -, -, -, children, -⟩ := tidy
  rw [place_result, joinChildren, Keyed.union_cons]
  cases found : Keyed.get? s.children child.outputKey with
  | none => simp [Keyed.union, eq_comm]
  | some there =>
    have inner := fun next => merged there next (children _ (Keyed.mem_of_get? found))
    have fits : (∀ x, some there = some x → Compatible x child) ↔ Compatible there child :=
      ⟨fun all => all there rfl, fun fits x same => Option.some.inj same ▸ fits⟩
    rw [fits, compatible_iff]
    dsimp only
    by_cases name : there.name = child.name
    · by_cases arguments : sameArguments there.arguments child.arguments = true
      · rw [if_neg (not_not.mpr name), if_neg (by simp [arguments]), map_eq_ok]
        constructor
        · rintro ⟨both, done, rfl⟩
          obtain ⟨below, -⟩ := (inner both).mp done
          rw [Change.eq_of_result done]
          exact ⟨⟨name, arguments, below⟩, rfl⟩
        · rintro ⟨⟨-, -, below⟩, rfl⟩
          have done := (inner _).mpr ⟨below, rfl⟩
          refine ⟨_, done, ?_⟩
          rw [Change.eq_of_result done]
          rfl
      · rw [if_neg (not_not.mpr name), if_pos (by simp [arguments])]
        exact ⟨nofun, fun fits => absurd fits.1.2.1 arguments⟩
    · rw [if_pos name]
      exact ⟨nofun, fun fits => absurd fits.1.1 name⟩

mutual

/-- **A selection takes over another one exactly if their children can be merged.** -/
theorem splice_eq_ok {s : Selection} (tidy : s.Tidy) : ∀ (other : Selection), other.Tidy →
    ∀ {next : Selection}, (splice s other).result = .ok next ↔
      ChildrenCompatible s.children other.children ∧ next = joined s other
  | ⟨name, aliasName, arguments, children, fragments⟩, .intro _ keyed distinct _ inner _, next => by
    rw [splice_result, map_eq_ok]
    constructor
    · rintro ⟨spliced, done, rfl⟩
      obtain ⟨fits, rfl⟩ := (spliceChildren_eq_ok tidy children keyed distinct inner).mp done
      exact ⟨fits, congrArg _ (addFragments_eq_union ..)⟩
    · rintro ⟨fits, rfl⟩
      refine ⟨_, (spliceChildren_eq_ok tidy children keyed distinct inner).mpr ⟨fits, rfl⟩, ?_⟩
      exact congrArg _ (addFragments_eq_union ..)

theorem spliceChildren_eq_ok {s : Selection} (tidy : s.Tidy) :
    ∀ (children : List (String × Selection)), (∀ entry ∈ children, entry.1 = entry.2.outputKey) →
    (children.map Prod.fst).Nodup → (∀ entry ∈ children, entry.2.Tidy) →
    ∀ {next : Selection}, (spliceChildren s children).result = .ok next ↔
      ChildrenCompatible s.children children ∧
        next = { s with children := joinChildren s.children children }
  | [], _, _, _, next => by
    have unchanged : { s with children := joinChildren s.children [] } = s := by cases s; rfl
    rw [spliceChildren, unchanged]
    exact ⟨fun done => ⟨nofun, (Except.ok.inj done).symm⟩,
      fun done => congrArg Except.ok done.2.symm⟩
  | (key, child) :: rest, keyed, distinct, inner, next => by
    obtain ⟨own, ordered⟩ := List.forall_mem_cons.mp keyed
    obtain ⟨fresh, apart⟩ := List.nodup_cons.mp distinct
    obtain ⟨here, below⟩ := List.forall_mem_cons.mp inner
    have own : key = child.outputKey := own
    subst own
    have placed (next : Selection) := @place_eq_ok s child next tidy
      fun there _ known => splice_eq_ok known child here
    rw [spliceChildren_result, bind_eq_ok, childrenCompatible_cons fresh]
    constructor
    · rintro ⟨next', done, done'⟩
      have tidy' : next'.Tidy := by
        rw [Change.eq_of_result done]
        exact place_tidy tidy here fun there known =>
          ⟨splice_tidy known child here, outputKey_splice there child⟩
      obtain ⟨fits, rfl⟩ := (placed next').mp done
      obtain ⟨later, rfl⟩ := (spliceChildren_eq_ok tidy' rest ordered apart below).mp done'
      exact ⟨⟨fits, (childrenCompatible_insert _ fresh).mp later⟩, rfl⟩
    · rintro ⟨⟨fits, later⟩, rfl⟩
      have done := (placed _).mpr ⟨fits, rfl⟩
      refine ⟨_, done, ?_⟩
      have tidy' := place_tidy tidy here fun there known =>
        ⟨splice_tidy known child here, outputKey_splice there child⟩
      rw [← Change.eq_of_result done] at tidy'
      exact (spliceChildren_eq_ok tidy' rest ordered apart below).mpr
        ⟨(childrenCompatible_insert _ fresh).mpr later, rfl⟩

end

variable {a b c : Selection}

theorem splice_selection (tidyA : a.Tidy) (tidyB : b.Tidy)
    (fits : ChildrenCompatible a.children b.children) : (splice a b).selection = joined a b :=
  (Change.eq_of_result ((splice_eq_ok tidyA b tidyB).mpr ⟨fits, rfl⟩)).symm

theorem joined_tidy (tidyA : a.Tidy) (tidyB : b.Tidy)
    (fits : ChildrenCompatible a.children b.children) : (joined a b).Tidy := by
  rw [← splice_selection tidyA tidyB fits]
  exact splice_tidy tidyA b tidyB

theorem merge_eq_ok {next : Selection} : (merge a b).result = .ok next ↔
    sameArguments a.arguments b.arguments = true ∧ (splice a b).result = .ok next := by
  rw [merge_result]
  split
  · rename_i arguments
    exact ⟨fun done => ⟨arguments, done⟩, fun done => done.2⟩
  · rename_i arguments
    exact ⟨nofun, fun done => absurd done.1 arguments⟩

/-! ### Merging three selections -/

theorem Compatible.symm (fits : Compatible a b) (tidyA : a.Tidy) (tidyB : b.Tidy) :
    Compatible b a := by
  induction fits with
  | intro name arguments _ ih =>
    exact .intro name.symm (sameArguments_symm arguments tidyA.named) fun key x y found found' =>
      ih key y x found' found (tidyA.held found') (tidyB.held found)

theorem ChildrenCompatible.symm (fits : ChildrenCompatible a.children b.children)
    (tidyA : a.Tidy) (tidyB : b.Tidy) : ChildrenCompatible b.children a.children :=
  fun key x y found found' =>
    (fits key y x found' found).symm (tidyA.held found') (tidyB.held found)

/-- What joined selections have under a key. -/
theorem get?_children_joined (tidyA : a.Tidy) (tidyB : b.Tidy)
    (fits : ChildrenCompatible a.children b.children) (key : String) :
    Keyed.get? (joined a b).children key =
      Option.merge joined (Keyed.get? a.children key) (Keyed.get? b.children key) := by
  show Keyed.get? (joinChildren a.children b.children) key = _
  rw [joinChildren, Keyed.get?_union _ tidyB.distinct]
  cases found : Keyed.get? a.children key with
  | none => rw [Option.merge_none_left, Option.merge_none_left]
  | some x =>
    cases found' : Keyed.get? b.children key with
    | none => rfl
    | some y =>
      have inner := (compatible_iff.mp (fits key x y found found')).2.2
      exact congrArg some (splice_selection (tidyA.held found) (tidyB.held found') inner)

/-- A selection can be merged with two joined ones exactly if it can with each of them, provided
that this is so for their children. -/
theorem Compatible.joined_iff (fits : Compatible a b) (tidyA : a.Tidy)
    (inner : ChildrenCompatible (joined a b).children c.children ↔
      ChildrenCompatible a.children c.children ∧ ChildrenCompatible b.children c.children) :
    Compatible (joined a b) c ↔ Compatible a c ∧ Compatible b c := by
  obtain ⟨name, arguments, -⟩ := compatible_iff.mp fits
  rw [compatible_iff, compatible_iff, compatible_iff, inner]
  constructor
  · rintro ⟨name', arguments', below, below'⟩
    exact ⟨⟨name', arguments', below⟩, name.symm.trans name',
      sameArguments_trans (sameArguments_symm arguments tidyA.named) arguments', below'⟩
  · rintro ⟨⟨name', arguments', below⟩, -, -, below'⟩
    exact ⟨name', arguments', below, below'⟩

/-- If something holds of joined selections exactly if it holds of both, it holds of what there is
under a key exactly if it holds of what either side has there. -/
theorem forall_merge_iff {P : Selection → Prop} {x y : Option Selection}
    (both : ∀ a b, x = some a → y = some b → (P (joined a b) ↔ P a ∧ P b)) :
    (∀ w, Option.merge joined x y = some w → P w) ↔
      (∀ a, x = some a → P a) ∧ ∀ b, y = some b → P b := by
  cases x with
  | none => simp [Option.merge_none_left]
  | some a =>
    cases y with
    | none => simp [Option.merge_none_right]
    | some b => simpa [Option.merge] using both a b rfl rfl

/-- **Children can be merged with those of two joined selections exactly if they can be merged with
the children of each of them.** -/
theorem childrenCompatible_joined_iff (tidyA : a.Tidy) : ∀ {b c : Selection}, b.Tidy →
    ChildrenCompatible a.children b.children →
    (ChildrenCompatible (joined a b).children c.children ↔
      ChildrenCompatible a.children c.children ∧ ChildrenCompatible b.children c.children) := by
  induction tidyA with
  | @intro a named keyed distinct conditions children fragments ih _ =>
    intro b c tidyB fits
    have tidyA : a.Tidy := .intro named keyed distinct conditions children fragments
    have held := get?_children_joined tidyA tidyB fits
    have both (key : String) {z : Selection} := forall_merge_iff (P := fun w => Compatible w z)
      fun x y (found : Keyed.get? a.children key = some x)
          (found' : Keyed.get? b.children key = some y) => by
        have inner := fits key x y found found'
        exact inner.joined_iff (tidyA.held found) (ih _ (Keyed.mem_of_get? found)
          (tidyB.held found') (compatible_iff.mp inner).2.2)
    constructor
    · intro below
      have each (key : String) (z : Selection) (found'' : Keyed.get? c.children key = some z) :=
        (both key).mp fun w present => below key w z ((held key).trans present) found''
      exact ⟨fun key x z found found'' => (each key z found'').1 x found,
        fun key y z found' found'' => (each key z found'').2 y found'⟩
    · rintro ⟨below, below'⟩ key w z present found''
      exact (both key).mpr ⟨fun x found => below key x z found found'',
        fun y found' => below' key y z found' found''⟩ w ((held key).symm.trans present)

/-- The other way round: two joined selections can be taken over exactly if each of them can. -/
theorem childrenCompatible_joined_right_iff (tidyA : a.Tidy) (tidyB : b.Tidy) (tidyC : c.Tidy)
    (fits : ChildrenCompatible b.children c.children) :
    ChildrenCompatible a.children (joined b c).children ↔
      ChildrenCompatible a.children b.children ∧ ChildrenCompatible a.children c.children := by
  have tidy := joined_tidy tidyB tidyC fits
  have left := @childrenCompatible_joined_iff b tidyB c a tidyC fits
  constructor
  · intro below
    obtain ⟨first, second⟩ := left.mp (below.symm tidyA tidy)
    exact ⟨first.symm tidyB tidyA, second.symm tidyC tidyA⟩
  · rintro ⟨first, second⟩
    exact (left.mpr ⟨first.symm tidyA tidyB, second.symm tidyA tidyC⟩).symm tidy tidyA

/-- Joining three selections comes to the same in any grouping. -/
theorem joined_assoc (tidyA : a.Tidy) : ∀ {b c : Selection}, b.Tidy → c.Tidy →
    ChildrenCompatible a.children b.children → ChildrenCompatible a.children c.children →
    ChildrenCompatible b.children c.children → joined (joined a b) c = joined a (joined b c) := by
  induction tidyA with
  | @intro a named keyed distinct conditions children fragments ih _ =>
    intro b c tidyB tidyC fitsAB fitsAC fitsBC
    have tidyA : a.Tidy := .intro named keyed distinct conditions children fragments
    have sameFragments := Keyed.union_assoc (· ++ ·) conditions tidyB.conditions tidyC.conditions
      fun _ xs ys zs _ _ _ => List.append_assoc xs ys zs
    have sameChildren : joinChildren (joinChildren a.children b.children) c.children =
        joinChildren a.children (joinChildren b.children c.children) := by
      refine Keyed.union_assoc _ distinct tidyB.distinct tidyC.distinct
        fun key x y z found found' found'' => ?_
      have fitsXY := (compatible_iff.mp (fitsAB key x y found found')).2.2
      have fitsXZ := (compatible_iff.mp (fitsAC key x z found found'')).2.2
      have fitsYZ := (compatible_iff.mp (fitsBC key y z found' found'')).2.2
      have tidyX := tidyA.held found
      have tidyY := tidyB.held found'
      have tidyZ := tidyC.held found''
      rw [splice_selection tidyX tidyY fitsXY, splice_selection tidyY tidyZ fitsYZ,
        splice_selection (joined_tidy tidyX tidyY fitsXY) tidyZ
          ((childrenCompatible_joined_iff tidyX tidyY fitsXY).mpr ⟨fitsXZ, fitsYZ⟩),
        splice_selection tidyX (joined_tidy tidyY tidyZ fitsYZ)
          ((childrenCompatible_joined_right_iff tidyX tidyY tidyZ fitsYZ).mpr ⟨fitsXY, fitsXZ⟩)]
      exact ih _ (Keyed.mem_of_get? found) tidyY tidyZ fitsXY fitsXZ fitsYZ
    rw [joined, joined, joined, joined]
    dsimp only
    rw [sameChildren, sameFragments]

/-- **Of three selections the first takes over the others one after the other, or both together,
to the same end.** -/
theorem splice_regroup (tidyA : a.Tidy) (tidyB : b.Tidy) (tidyC : c.Tidy) :
    ((splice a b).result.toOption.bind fun both => (splice both c).result.toOption) =
      (splice b c).result.toOption.bind fun both => (splice a both).result.toOption := by
  refine Option.ext fun next => ?_
  simp only [Option.bind_eq_some_iff, Success.toOption_eq_some]
  constructor
  · rintro ⟨both, first, second⟩
    obtain ⟨fitsAB, rfl⟩ := (splice_eq_ok tidyA b tidyB).mp first
    obtain ⟨fits, rfl⟩ := (splice_eq_ok (joined_tidy tidyA tidyB fitsAB) c tidyC).mp second
    obtain ⟨fitsAC, fitsBC⟩ := (childrenCompatible_joined_iff tidyA tidyB fitsAB).mp fits
    have fits' :=
      (childrenCompatible_joined_right_iff tidyA tidyB tidyC fitsBC).mpr ⟨fitsAB, fitsAC⟩
    exact ⟨_, (splice_eq_ok tidyB c tidyC).mpr ⟨fitsBC, rfl⟩,
      (splice_eq_ok tidyA _ (joined_tidy tidyB tidyC fitsBC)).mpr
        ⟨fits', joined_assoc tidyA tidyB tidyC fitsAB fitsAC fitsBC⟩⟩
  · rintro ⟨both, first, second⟩
    obtain ⟨fitsBC, rfl⟩ := (splice_eq_ok tidyB c tidyC).mp first
    obtain ⟨fits, rfl⟩ := (splice_eq_ok tidyA _ (joined_tidy tidyB tidyC fitsBC)).mp second
    obtain ⟨fitsAB, fitsAC⟩ :=
      (childrenCompatible_joined_right_iff tidyA tidyB tidyC fitsBC).mp fits
    have fits' := (childrenCompatible_joined_iff tidyA tidyB fitsAB).mpr ⟨fitsAC, fitsBC⟩
    exact ⟨_, (splice_eq_ok tidyA b tidyB).mpr ⟨fitsAB, rfl⟩,
      (splice_eq_ok (joined_tidy tidyA tidyB fitsAB) c tidyC).mpr
        ⟨fits', (joined_assoc tidyA tidyB tidyC fitsAB fitsAC fitsBC).symm⟩⟩

/-- Three invocations of a field are merged to the same end in any grouping. -/
theorem merge_regroup (tidyA : a.Tidy) (tidyB : b.Tidy) (tidyC : c.Tidy) :
    ((merge a b).result.toOption.bind fun both => (merge both c).result.toOption) =
      (merge b c).result.toOption.bind fun both => (merge a both).result.toOption := by
  refine Option.ext fun next => ?_
  have grouped := Option.ext_iff.mp (splice_regroup tidyA tidyB tidyC) next
  simp only [Option.bind_eq_some_iff, Success.toOption_eq_some, merge_eq_ok] at grouped ⊢
  constructor
  · rintro ⟨both, ⟨arguments, first⟩, arguments', second⟩
    obtain ⟨both', first', second'⟩ := grouped.mp ⟨both, first, second⟩
    rw [(head_of_splice first).2.2] at arguments'
    refine ⟨both', ⟨?_, first'⟩, ?_, second'⟩
    · exact sameArguments_trans (sameArguments_symm arguments tidyA.named) arguments'
    · rwa [(head_of_splice first').2.2]
  · rintro ⟨both, ⟨arguments, first⟩, arguments', second⟩
    obtain ⟨both', first', second'⟩ := grouped.mpr ⟨both, first, second⟩
    rw [(head_of_splice first).2.2] at arguments'
    refine ⟨both', ⟨arguments', first'⟩, ?_, second'⟩
    rw [(head_of_splice first').2.2]
    exact sameArguments_trans arguments' arguments

end GraphRead.Selection
