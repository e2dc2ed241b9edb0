import GraphRead.Proofs.Document.WellKeyed
import GraphRead.Proofs.Failure
import GraphRead.Proofs.Repeat.Within
/-!
What a selection is put together from.

Wherever a selection is made by merging, from the fields of a document or from selections that hold
fragments, whatever comes out was gathered from forms that were written (`Form.Gathered`): its head
is that of one of them, and its children are gathered in turn from what these ask under the same
keys. Taking over a selection keeps this, and where it stops, two written forms ask different things
under the key at which it stops (`Form.splice_gathered`).
-/

namespace GraphRead.Selection

/-- A written form of fields: what a field is called, the fields that are asked below it, and the
fragments that are filed in it under their conditions. -/
structure Form (ω : Type) where
  head : ω → FieldHead Value
  asks : ω → ω → Prop
  files : ω → String → Selection → Prop

namespace Form

variable {ω : Type}

/-- What is written under a key. -/
def Under (F : Form ω) (written : ω → Prop) (key : String) (w : ω) : Prop :=
  written w ∧ (F.head w).outputKey = key

/-- What is asked below those of some written fields that have a name. -/
def Beneath (F : Form ω) (written : ω → Prop) (name : String) (v : ω) : Prop :=
  ∃ w, written w ∧ (F.head w).name = name ∧ F.asks w v

/-- A selection is put together from some written fields. Its head is that of one of them, its
children come from what they ask under the same keys, and its fragments are theirs. -/
inductive Gathered (F : Form ω) : (ω → Prop) → Selection → Prop
  | intro {written : ω → Prop} {s : Selection}
    (origin : ∃ w, written w ∧ F.head w = ⟨s.name, s.aliasName, s.arguments⟩)
    (children : ∀ entry ∈ s.children,
      Gathered F (F.Under (F.Beneath written s.name) entry.1) entry.2)
    (fragments : ∀ entry ∈ s.fragments, ∀ fragment ∈ entry.2, ∃ w, written w ∧
      (F.head w).name = s.name ∧ F.files w entry.1 fragment) : Gathered F written s

/-- Every child is gathered from what is written under its key. -/
def GatheredUnder (F : Form ω) (written : ω → Prop) (children : List (String × Selection)) : Prop :=
  ∀ entry ∈ children, F.Gathered (F.Under written entry.1) entry.2

/-- Two written fields cannot be put together: under a key, at them or further down, they are not
the same field with the same arguments. -/
inductive Clash (F : Form ω) : String → ω → ω → Prop
  | here {v w : ω} (same : (F.head v).outputKey = (F.head w).outputKey)
    (differ : (F.head v).name ≠ (F.head w).name ∨
      sameArguments (F.head v).arguments (F.head w).arguments = false) :
    Clash F (F.head v).outputKey v w
  | inside {v w a b : ω} {key : String} (left : F.asks v a) (right : F.asks w b)
    (same : (F.head a).outputKey = (F.head b).outputKey) (clash : Clash F key a b) : Clash F key v w

/-- Among some written fields two clash that are answered under one key. -/
def ClashAmong (F : Form ω) (written : ω → Prop) (key : String) : Prop :=
  ∃ v w, written v ∧ written w ∧ (F.head v).outputKey = (F.head w).outputKey ∧ F.Clash key v w

variable {F : Form ω} {written other : ω → Prop} {s child : Selection}

namespace Gathered

theorem origin (gathered : F.Gathered written s) :
    ∃ w, written w ∧ F.head w = ⟨s.name, s.aliasName, s.arguments⟩ := by
  cases gathered; assumption

theorem children (gathered : F.Gathered written s) :
    F.GatheredUnder (F.Beneath written s.name) s.children := by
  cases gathered; assumption

theorem fragments (gathered : F.Gathered written s) : ∀ entry ∈ s.fragments,
    ∀ fragment ∈ entry.2, ∃ w, written w ∧ (F.head w).name = s.name ∧
      F.files w entry.1 fragment := by
  cases gathered; assumption

/-- Only what is written under the name of the selection counts. -/
theorem mono (gathered : F.Gathered written s)
    (more : ∀ w, written w → (F.head w).name = s.name → other w) : F.Gathered other s := by
  induction gathered generalizing other with
  | @intro written s origin _ fragments ih =>
    obtain ⟨w, known, head⟩ := origin
    refine .intro ⟨w, more w known (congrArg FieldHead.name head), head⟩
      (fun entry present => ?_) fun entry present fragment listed => ?_
    · refine ih entry present ?_
      rintro v ⟨⟨w, known, name, asked⟩, key⟩ -
      exact ⟨⟨w, more w known name, name, asked⟩, key⟩
    · obtain ⟨w, known, name, filed⟩ := fragments entry present fragment listed
      exact ⟨w, more w known name, name, filed⟩

theorem outputKey {key : String} (gathered : F.Gathered (F.Under written key) s) :
    s.outputKey = key := by
  obtain ⟨w, ⟨-, own⟩, head⟩ := gathered.origin
  rw [head] at own
  exact own

end Gathered

theorem GatheredUnder.mono {children : List (String × Selection)}
    (gathered : F.GatheredUnder written children) (more : ∀ w, written w → other w) :
    F.GatheredUnder other children :=
  fun entry present => (gathered entry present).mono fun w known _ => ⟨more w known.1, known.2⟩

theorem GatheredUnder.insert {children : List (String × Selection)} {key : String}
    (gathered : F.GatheredUnder written children) (own : F.Gathered (F.Under written key) child) :
    F.GatheredUnder written (Keyed.insert children key child) := by
  intro entry present
  rcases Keyed.mem_insert present with rfl | old
  · exact own
  · exact gathered entry old

/-- Where what is asked below fields of one name clashes, the fields do. -/
theorem ClashAmong.above {key name : String} (clash : F.ClashAmong (F.Beneath written name) key) :
    ∃ v w, written v ∧ written w ∧ F.Clash key v w := by
  obtain ⟨a, b, ⟨v, left, -, asked⟩, ⟨w, right, -, asked'⟩, same, clash⟩ := clash
  exact ⟨v, w, left, right, .inside asked asked' same clash⟩

theorem ClashAmong.above_under {key name field : String}
    (clash : F.ClashAmong (F.Beneath (F.Under written key) name) field) :
    F.ClashAmong written field := by
  obtain ⟨v, w, ⟨left, leftKey⟩, ⟨right, rightKey⟩, clash⟩ := clash.above
  exact ⟨v, w, left, right, leftKey.trans rightKey.symm, clash⟩

/-! ### Taking over a selection -/

/-- What is filed under a key, next to what is there, is gathered, if this holds of what the two are
merged to. -/
theorem place_gathered (children : F.GatheredUnder written s.children)
    (own : F.Gathered (F.Under written child.outputKey) child)
    (merged : ∀ there : Selection, F.Gathered (F.Under written child.outputKey) there →
      there.name = child.name → Yields (F.Gathered (F.Under written child.outputKey))
        (F.ClashAmong written) (splice there child).result) :
    Yields (fun next => F.GatheredUnder written next.children) (F.ClashAmong written)
      (place s child fun there => splice there child).result := by
  rw [place_result]
  cases found : Keyed.get? s.children child.outputKey with
  | none => exact .ok (children.insert own)
  | some there =>
    have before : F.Gathered (F.Under written child.outputKey) there :=
      children (child.outputKey, there) (Keyed.mem_of_get? found)
    obtain ⟨v, ⟨left, leftKey⟩, leftHead⟩ := before.origin
    obtain ⟨w, ⟨right, rightKey⟩, rightHead⟩ := own.origin
    have clash (differ : there.name ≠ child.name ∨
        sameArguments there.arguments child.arguments = false) :
        F.ClashAmong written child.outputKey := by
      refine ⟨v, w, left, right, leftKey.trans rightKey.symm, ?_⟩
      rw [← leftKey]
      refine .here (leftKey.trans rightKey.symm) ?_
      rwa [leftHead, rightHead]
    dsimp only
    split
    · rename_i differ
      exact .error (clash (.inl differ))
    · rename_i same
      split
      · rename_i differ
        rw [before.outputKey]
        exact .error (clash (.inr (by simpa using differ)))
      · exact (merged there before (not_not.mp same)).map fun _ => children.insert

/-- A selection that takes over another one of its name is gathered from what both are gathered
from. -/
theorem Gathered.of_splice {s other : Selection} (own : F.Gathered written s)
    (others : F.Gathered written other) (name : s.name = other.name)
    (spliced : ∀ {beneath : ω → Prop}, F.GatheredUnder beneath s.children →
      F.GatheredUnder beneath other.children →
      Yields (fun next => F.GatheredUnder beneath next.children) (F.ClashAmong beneath)
        (splice s other).result) :
    Yields (F.Gathered written) (F.ClashAmong (F.Beneath written s.name))
      (splice s other).result := by
  have children := spliced own.children (name ▸ others.children)
  refine .intro children.failsOnly fun next done => ?_
  obtain ⟨sameName, sameAlias, sameArguments⟩ := head_of_splice done
  have both : F.GatheredUnder (F.Beneath written s.name) next.children := by
    rw [done] at children
    cases children
    assumption
  rw [splice_result] at done
  obtain ⟨inner, isInner, rfl⟩ := Fallible.map_eq_ok.mp done
  obtain ⟨w, known, head⟩ := own.origin
  refine .intro ⟨w, known, by rw [head, sameName, sameAlias, sameArguments]⟩ (sameName ▸ both) ?_
  rw [sameName]
  refine mem_addFragments (P := fun condition fragment => ∃ w, written w ∧
    (F.head w).name = s.name ∧ F.files w condition fragment) ?_ (name ▸ others.fragments)
  rw [(filed_spliceChildren _ isInner).2]
  exact own.fragments

mutual

/-- **What a selection takes over is gathered from what is written under the same keys**, and if it
cannot be taken over, what is written there clashes. -/
theorem splice_gathered : ∀ (other : Selection) {written : ω → Prop} {s : Selection},
    F.GatheredUnder written s.children → F.GatheredUnder written other.children →
    Yields (fun next => F.GatheredUnder written next.children) (F.ClashAmong written)
      (splice s other).result
  | ⟨_, _, _, children, _⟩, written, s, own, others => by
    rw [splice_result]
    exact (spliceChildren_gathered children own others).map fun _ gathered => gathered

theorem spliceChildren_gathered : ∀ (children : List (String × Selection)) {written : ω → Prop}
    {s : Selection}, F.GatheredUnder written s.children → F.GatheredUnder written children →
    Yields (fun next => F.GatheredUnder written next.children) (F.ClashAmong written)
      (spliceChildren s children).result
  | [], written, s, own, _ => .ok own
  | (key, child) :: rest, written, s, own, others => by
    obtain ⟨first, later⟩ := List.forall_mem_cons.mp others
    rw [spliceChildren_result]
    obtain rfl : child.outputKey = key := first.outputKey
    exact (place_gathered own first fun there before name =>
      (before.of_splice first name (splice_gathered child)).mono fun _ => .above_under).bind
        fun next _ gathered => spliceChildren_gathered rest gathered later

end

/-- Filing a child that is gathered keeps all children gathered. -/
theorem push_gathered (children : F.GatheredUnder written s.children)
    (own : F.Gathered (F.Under written child.outputKey) child) :
    Yields (fun next => F.GatheredUnder written next.children) (F.ClashAmong written)
      (push s child).result :=
  place_gathered children own fun _ before name =>
    (before.of_splice own name (splice_gathered child)).mono fun _ => .above_under

/-- Two invocations of a field are merged to one that is gathered from what both are gathered from.
If they cannot be merged, then two written invocations differ in their arguments, or clash below. -/
theorem Gathered.merge {other : Selection} (own : F.Gathered written s)
    (others : F.Gathered written other) (name : s.name = other.name) :
    Yields (F.Gathered written) (fun key => ∃ v w, written v ∧ written w ∧
        (sameArguments (F.head v).arguments (F.head w).arguments = false ∨ F.Clash key v w))
      (Selection.merge s other).result := by
  rw [merge_result]
  split
  · refine (own.of_splice others name (splice_gathered other)).mono fun key clash => ?_
    obtain ⟨v, w, left, right, clash⟩ := clash.above
    exact ⟨v, w, left, right, .inr clash⟩
  · rename_i differ
    obtain ⟨v, left, head⟩ := own.origin
    obtain ⟨w, right, head'⟩ := others.origin
    refine .error ⟨v, w, left, right, .inl ?_⟩
    rw [head, head']
    exact Bool.eq_false_iff.mpr differ

end Form

end GraphRead.Selection
