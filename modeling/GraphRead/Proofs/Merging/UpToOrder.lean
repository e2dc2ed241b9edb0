import GraphRead.Proofs.Document.Tidy
import GraphRead.Proofs.Merging.Union
import GraphRead.Proofs.Repeat.Within
import Mathlib.Data.List.Perm.Basic
/-!
Selections that are the same up to the order of their fragments.

The equality of selections ignores the order of arguments, children and type conditions, but not the
order in which fragments stand under one condition. `Selection.SameUpToOrder` ignores this order as
well, on every level; equal selections are the same in this sense (`sameUpToOrder_of_same`).

For tidy selections the relation is told by what they have under each key and each condition
(`sameUpToOrder_iff`), and it is an equivalence (`Rearranged.refl`, `Rearranged.symm`,
`Rearranged.trans`).
-/

namespace GraphRead

/-! ### Lists in any order -/

/-- The members of one list are related one by one to those of the other one in some order. -/
def Shuffled {α β : Type} (related : α → β → Prop) (members : List α) (others : List β) : Prop :=
  ∃ order, List.Forall₂ related members order ∧ order.Perm others

namespace Shuffled

variable {α : Type} {related also : α → α → Prop} {first second third : List α}

theorem refl (each : ∀ a ∈ first, related a a) : Shuffled related first first :=
  ⟨first, List.forall₂_same.mpr each, .refl _⟩

theorem imp (both : Shuffled related first second)
    (each : ∀ a ∈ first, ∀ b ∈ second, related a b → also a b) : Shuffled also first second := by
  obtain ⟨order, inTurn, perm⟩ := both
  refine ⟨order, List.forall₂_iff_zip.mpr ⟨inTurn.length_eq, fun paired => ?_⟩, perm⟩
  obtain ⟨here, there⟩ := List.of_mem_zip paired
  exact each _ here _ (perm.subset there) (List.forall₂_zip inTurn paired)

theorem flip (both : Shuffled related first second) :
    Shuffled (fun b a => related a b) second first := by
  obtain ⟨order, inTurn, perm⟩ := both
  obtain ⟨order', inTurn', perm'⟩ := List.perm_comp_forall₂ perm.symm inTurn.flip
  exact ⟨order', inTurn', perm'⟩

theorem comp (left : Shuffled related first second) (right : Shuffled also second third) :
    Shuffled (Relation.Comp related also) first third := by
  obtain ⟨order, inTurn, perm⟩ := left
  obtain ⟨order', inTurn', perm'⟩ := right
  obtain ⟨order'', inTurn'', perm''⟩ := List.perm_comp_forall₂ perm inTurn'
  refine ⟨order'', ?_, perm''.trans perm'⟩
  clear perm perm' perm'' inTurn'
  induction inTurn generalizing order'' with
  | nil =>
    cases inTurn''
    exact .nil
  | cons same _ ih =>
    cases inTurn'' with
    | cons same' later => exact .cons ⟨_, same, same'⟩ (ih _ later)

theorem append {first' second' : List α} (left : Shuffled related first second)
    (right : Shuffled related first' second') :
    Shuffled related (first ++ first') (second ++ second') := by
  obtain ⟨order, inTurn, perm⟩ := left
  obtain ⟨order', inTurn', perm'⟩ := right
  exact ⟨order ++ order', List.rel_append inTurn inTurn', perm.append perm'⟩

theorem append_comm (each : ∀ a ∈ first ++ second, related a a) :
    Shuffled related (first ++ second) (second ++ first) :=
  ⟨first ++ second, List.forall₂_same.mpr each, List.perm_append_comm⟩

end Shuffled

/-! ### Keyed lists in any order -/

namespace Keyed

variable {α β : Type} {related : α → β → Prop} {left : Keyed α} {right : Keyed β}

/-- Under every key both lists have nothing, or related values. -/
def Alike (related : α → β → Prop) (left : Keyed α) (right : Keyed β) : Prop :=
  ∀ key, Option.Rel related (get? left key) (get? right key)

namespace Alike

theorem single (key : String) {a : α} {b : β} (same : related a b) :
    Alike related [(key, a)] [(key, b)] := by
  intro other
  show Option.Rel related (if key = other then some a else none)
    (if key = other then some b else none)
  split
  · exact .some same
  · exact .none

variable {γ : Type} {other : Keyed γ}

theorem imp {also : α → β → Prop} (both : Alike related left right)
    (each : ∀ key a b, get? left key = some a → get? right key = some b → related a b → also a b) :
    Alike also left right := by
  intro key
  have here := both key
  have each := each key
  generalize get? left key = a, get? right key = b at here each
  cases here with
  | none => exact .none
  | some same => exact .some (each _ _ rfl rfl same)

theorem flip (both : Alike related left right) : Alike (fun b a => related a b) right left := by
  intro key
  have here := both key
  generalize get? left key = a, get? right key = b at here
  cases here with
  | none => exact .none
  | some same => exact .some same

theorem comp {also : β → γ → Prop} (first : Alike related left right)
    (second : Alike also right other) : Alike (Relation.Comp related also) left other := by
  intro key
  have here := first key
  have there := second key
  generalize get? left key = a, get? right key = b, get? other key = c at here there
  cases here with
  | none =>
    cases there
    exact .none
  | some same =>
    cases there with
    | some same' => exact .some ⟨_, same, same'⟩

theorem of_left (both : Alike related left right) {key : String} {a : α}
    (found : get? left key = some a) : ∃ b, get? right key = some b ∧ related a b := by
  have here := both key
  rw [found] at here
  cases other : get? right key with
  | none => rw [other] at here; cases here
  | some b =>
    rw [other] at here
    cases here with
    | some same => exact ⟨b, rfl, same⟩

theorem mem_keys (both : Alike related left right) {key : String} :
    key ∈ left.map Prod.fst ↔ key ∈ right.map Prod.fst := by
  rw [← hasKey_iff, ← hasKey_iff, hasKey, hasKey]
  have here := both key
  generalize get? left key = a, get? right key = b at here
  cases here <;> rfl

end Alike

/-- Two lists with distinct keys are alike if they are of one length, and every value of one is
related to the one under its key in the other. -/
theorem alike_iff (distinct : (left.map Prod.fst).Nodup) (distinct' : (right.map Prod.fst).Nodup) :
    Alike related left right ↔ left.length = right.length ∧
      ∀ entry ∈ left, ∃ other, get? right entry.1 = some other ∧ related entry.2 other := by
  constructor
  · intro both
    refine ⟨?_, fun entry present => both.of_left (get?_of_mem distinct present)⟩
    have perm := (List.perm_ext_iff_of_nodup distinct distinct').mpr fun key => both.mem_keys
    simpa using perm.length_eq
  · rintro ⟨length, each⟩ key
    have perm := keys_perm distinct length fun entry present => by
      obtain ⟨other, found, -⟩ := each entry present
      rw [hasKey, found]
      rfl
    cases found : get? left key with
    | none =>
      rw [get?_eq_none_iff.mpr fun known =>
        get?_eq_none_iff.mp found (perm.mem_iff.mpr known)]
      exact .none
    | some a =>
      obtain ⟨b, found', same⟩ := each _ (mem_of_get? found)
      rw [found']
      exact .some same

end Keyed

namespace Selection

/-! ### Selections up to the order of fragments -/

mutual

/-- Whether two selections ask the same, whatever their output keys and the order of their
arguments, children, type conditions and fragments. -/
def SameUpToOrder : Selection → Selection → Prop
  | ⟨name, _, arguments, children, fragments⟩, other =>
    name = other.name ∧ sameArguments arguments other.arguments = true ∧
      (children.length = other.children.length ∧ ChildrenUpToOrder children other.children) ∧
      (fragments.length = other.fragments.length ∧ FragmentsUpToOrder fragments other.fragments)

/-- Whether every child is the same as the one under its key in a list. -/
def ChildrenUpToOrder : List (String × Selection) → List (String × Selection) → Prop
  | [], _ => True
  | (key, child) :: rest, others =>
    (∃ other, Keyed.get? others key = some other ∧ SameUpToOrder child other) ∧
      ChildrenUpToOrder rest others

/-- Whether the fragments of every condition are in some order the same as those under the
condition in a list. -/
def FragmentsUpToOrder :
    List (String × List Selection) → List (String × List Selection) → Prop
  | [], _ => True
  | (condition, members) :: rest, others =>
    (∃ otherMembers, Keyed.get? others condition = some otherMembers ∧
      ∃ order, MembersUpToOrder members order ∧ order.Perm otherMembers) ∧
      FragmentsUpToOrder rest others

/-- Whether two lists of selections are the same one by one. -/
def MembersUpToOrder : List Selection → List Selection → Prop
  | [], [] => True
  | a :: as, b :: bs => SameUpToOrder a b ∧ MembersUpToOrder as bs
  | _, _ => False

end

theorem childrenUpToOrder_iff {children others : List (String × Selection)} :
    ChildrenUpToOrder children others ↔ ∀ entry ∈ children,
      ∃ other, Keyed.get? others entry.1 = some other ∧ SameUpToOrder entry.2 other := by
  induction children with
  | nil => simp [ChildrenUpToOrder]
  | cons entry rest ih => rw [ChildrenUpToOrder, ih, List.forall_mem_cons]

theorem membersUpToOrder_iff {members others : List Selection} :
    MembersUpToOrder members others ↔ List.Forall₂ SameUpToOrder members others := by
  induction members generalizing others with
  | nil => cases others <;> simp [MembersUpToOrder]
  | cons a as ih =>
    cases others with
    | nil => simp [MembersUpToOrder]
    | cons b bs => rw [MembersUpToOrder, ih, List.forall₂_cons]

theorem fragmentsUpToOrder_iff {fragments others : List (String × List Selection)} :
    FragmentsUpToOrder fragments others ↔ ∀ entry ∈ fragments,
      ∃ members, Keyed.get? others entry.1 = some members ∧
        Shuffled SameUpToOrder entry.2 members := by
  induction fragments with
  | nil => simp [FragmentsUpToOrder]
  | cons entry rest ih =>
    obtain ⟨condition, members⟩ := entry
    rw [FragmentsUpToOrder, ih, List.forall_mem_cons]
    simp only [membersUpToOrder_iff, Shuffled]

theorem sameUpToOrder_def {s t : Selection} : SameUpToOrder s t ↔
    s.name = t.name ∧ sameArguments s.arguments t.arguments = true ∧
      (s.children.length = t.children.length ∧ ∀ entry ∈ s.children,
        ∃ other, Keyed.get? t.children entry.1 = some other ∧ SameUpToOrder entry.2 other) ∧
      (s.fragments.length = t.fragments.length ∧ ∀ entry ∈ s.fragments,
        ∃ members, Keyed.get? t.fragments entry.1 = some members ∧
          Shuffled SameUpToOrder entry.2 members) := by
  cases s
  rw [SameUpToOrder, childrenUpToOrder_iff, fragmentsUpToOrder_iff]

mutual

/-- Equal selections are the same up to order. -/
theorem sameUpToOrder_of_same : ∀ (s : Selection) {t : Selection}, same s t = true →
    SameUpToOrder s t
  | ⟨name, _, arguments, children, fragments⟩, t, equal => by
    simp only [same, Bool.and_eq_true] at equal
    obtain ⟨⟨⟨name, arguments⟩, length, inner⟩, length', inner'⟩ := equal
    exact sameUpToOrder_def.mpr ⟨eq_of_beq name, arguments,
      ⟨eq_of_beq length, children_of_sameChildren children inner⟩,
      eq_of_beq length', fragments_of_sameFragments fragments inner'⟩

theorem children_of_sameChildren : ∀ (children : List (String × Selection))
    {others : List (String × Selection)}, sameChildren children others = true →
    ∀ entry ∈ children,
      ∃ other, Keyed.get? others entry.1 = some other ∧ SameUpToOrder entry.2 other
  | [], _, _ => List.forall_mem_nil _
  | (key, child) :: rest, others, equal => by
    rw [sameChildren, Bool.and_eq_true] at equal
    refine List.forall_mem_cons.mpr ⟨?_, children_of_sameChildren rest equal.2⟩
    cases found : Keyed.get? others key with
    | none => simp [found] at equal
    | some other => exact ⟨other, rfl, sameUpToOrder_of_same child (by simpa [found] using equal.1)⟩

theorem fragments_of_sameFragments : ∀ (fragments : List (String × List Selection))
    {others : List (String × List Selection)}, sameFragments fragments others = true →
    ∀ entry ∈ fragments, ∃ members, Keyed.get? others entry.1 = some members ∧
      Shuffled SameUpToOrder entry.2 members
  | [], _, _ => List.forall_mem_nil _
  | (condition, members) :: rest, others, equal => by
    rw [sameFragments, Bool.and_eq_true] at equal
    refine List.forall_mem_cons.mpr ⟨?_, fragments_of_sameFragments rest equal.2⟩
    cases found : Keyed.get? others condition with
    | none => simp [found] at equal
    | some otherMembers => exact ⟨otherMembers, rfl, otherMembers,
        members_of_sameList members (by simpa [found] using equal.1), .refl _⟩

theorem members_of_sameList : ∀ (members : List Selection) {others : List Selection},
    sameList members others = true → List.Forall₂ SameUpToOrder members others
  | [], [], _ => .nil
  | [], _ :: _, equal | _ :: _, [], equal => by simp [sameList] at equal
  | a :: as, b :: bs, equal => by
    rw [sameList, Bool.and_eq_true] at equal
    exact .cons (sameUpToOrder_of_same a equal.1) (members_of_sameList as equal.2)

end

/-- Tidy selections are the same up to order if they are under every key and every condition. -/
theorem sameUpToOrder_iff {s t : Selection} (tidyS : s.Tidy) (tidyT : t.Tidy) :
    SameUpToOrder s t ↔ s.name = t.name ∧ sameArguments s.arguments t.arguments = true ∧
      Keyed.Alike SameUpToOrder s.children t.children ∧
      Keyed.Alike (Shuffled SameUpToOrder) s.fragments t.fragments := by
  rw [sameUpToOrder_def, Keyed.alike_iff tidyS.distinct tidyT.distinct,
    Keyed.alike_iff tidyS.conditions tidyT.conditions]

/-- Two tidy selections that are the same up to order. -/
structure Rearranged (s t : Selection) : Prop where
  left : s.Tidy
  right : t.Tidy
  same : SameUpToOrder s t

namespace Rearranged

variable {s t u : Selection}

theorem intro (left : s.Tidy) (right : t.Tidy) (name : s.name = t.name)
    (arguments : sameArguments s.arguments t.arguments = true)
    (children : Keyed.Alike Rearranged s.children t.children)
    (fragments : Keyed.Alike (Shuffled Rearranged) s.fragments t.fragments) : Rearranged s t :=
  ⟨left, right, (sameUpToOrder_iff left right).mpr ⟨name, arguments,
    children.imp fun _ _ _ _ _ both => both.same,
    fragments.imp fun _ _ _ _ _ both => both.imp fun _ _ _ _ both => both.same⟩⟩

theorem name (both : Rearranged s t) : s.name = t.name :=
  ((sameUpToOrder_iff both.left both.right).mp both.same).1

theorem arguments (both : Rearranged s t) : sameArguments s.arguments t.arguments = true :=
  ((sameUpToOrder_iff both.left both.right).mp both.same).2.1

theorem children (both : Rearranged s t) : Keyed.Alike Rearranged s.children t.children :=
  ((sameUpToOrder_iff both.left both.right).mp both.same).2.2.1.imp
    fun _ _ _ found found' same => ⟨both.left.held found, both.right.held found', same⟩

theorem fragments (both : Rearranged s t) :
    Keyed.Alike (Shuffled Rearranged) s.fragments t.fragments :=
  ((sameUpToOrder_iff both.left both.right).mp both.same).2.2.2.imp
    fun _ _ _ found found' shuffled => shuffled.imp fun a present b present' same =>
      ⟨both.left.members found a present, both.right.members found' b present', same⟩

theorem refl (tidy : s.Tidy) : Rearranged s s := by
  refine ⟨tidy, tidy, ?_⟩
  induction tidy with
  | intro named _ distinct conditions _ _ ih ih' =>
    exact sameUpToOrder_def.mpr ⟨rfl, sameArguments_self named,
      ⟨rfl, fun entry present => ⟨entry.2, Keyed.get?_of_mem distinct present, ih entry present⟩⟩,
      rfl, fun entry present =>
        ⟨entry.2, Keyed.get?_of_mem conditions present, .refl (ih' entry present)⟩⟩

theorem symm (both : Rearranged s t) : Rearranged t s := by
  have tidy := both.left
  induction tidy generalizing t with
  | intro named _ _ _ _ _ ih ih' =>
    refine .intro both.right both.left both.name.symm (sameArguments_symm both.arguments named)
      (both.children.flip.imp fun key y x _ found same => ?_)
      (both.fragments.flip.imp fun condition others members _ found shuffled => ?_)
    · exact ih _ (Keyed.mem_of_get? found) same
    · exact shuffled.flip.imp fun b _ a present same =>
        ih' _ (Keyed.mem_of_get? found) a present same

theorem trans (first : Rearranged s t) (second : Rearranged t u) : Rearranged s u := by
  have tidy := first.left
  induction tidy generalizing t u with
  | intro _ _ _ _ _ _ ih ih' =>
    refine .intro first.left second.right (first.name.trans second.name)
      (sameArguments_trans first.arguments second.arguments)
      ((first.children.comp second.children).imp fun key x z found _ ⟨y, same, same'⟩ => ?_)
      ((first.fragments.comp second.fragments).imp
        fun condition members others found _ ⟨middle, shuffled, shuffled'⟩ => ?_)
    · exact ih _ (Keyed.mem_of_get? found) same same'
    · exact (shuffled.comp shuffled').imp fun a present c _ ⟨b, same, same'⟩ =>
        ih' _ (Keyed.mem_of_get? found) a present same same'

end Rearranged

end Selection

end GraphRead
