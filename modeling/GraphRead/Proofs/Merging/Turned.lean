import GraphRead.Proofs.InStep
import GraphRead.Proofs.Merging.Compatible
import GraphRead.Proofs.Merging.UpToOrder
/-!
Merging two selections in turn.

Whether selections can be merged, and what they become up to order, does not depend on which of them
takes over the other one (`splice_turned`, `merge_turned`), nor on the order that their fragments
have already (`Rearranged.splice`).
-/

namespace GraphRead.Selection

open Fallible

/-! ### Values from two sides -/

section Sides

variable {α β : Type} {related : α → β → Prop} {x y : Option α} {x' y' : Option β}

theorem rel_merge {f : α → α → α} {g : β → β → β} (first : Option.Rel related x x')
    (second : Option.Rel related y y') (each : ∀ a a' b b', x = some a → y = some b →
      x' = some a' → y' = some b' → related a a' → related b b' → related (f a b) (g a' b')) :
    Option.Rel related (Option.merge f x y) (Option.merge g x' y') := by
  cases first with
  | none => rwa [Option.merge_none_left, Option.merge_none_left]
  | some same =>
    cases second with
    | none =>
      rw [Option.merge_none_right, Option.merge_none_right]
      exact .some same
    | some same' => exact .some (each _ _ _ _ rfl rfl rfl rfl same same')

theorem rel_merge_turned {same : α → α → Prop} {f : α → α → α} (here : ∀ a, x = some a → same a a)
    (there : ∀ b, y = some b → same b b)
    (each : ∀ a b, x = some a → y = some b → same (f a b) (f b a)) :
    Option.Rel same (Option.merge f x y) (Option.merge f y x) := by
  cases x with
  | none =>
    rw [Option.merge_none_left, Option.merge_none_right]
    cases y with
    | none => exact .none
    | some b => exact .some (there b rfl)
  | some a =>
    cases y with
    | none => exact .some (here a rfl)
    | some b => exact .some (each a b rfl rfl)

end Sides

variable {a a' b b' : Selection}

theorem inStep_trans {ε φ ψ : Type} {x : Except ε Selection} {y : Except φ Selection}
    {z : Except ψ Selection} (first : InStep Rearranged x y) (second : InStep Rearranged y z) :
    InStep Rearranged x z :=
  (first.trans second).imp fun _ _ _ ⟨_, both, both'⟩ => both.trans both'

theorem get?_fragments_joined (tidyB : b.Tidy) (condition : String) :
    Keyed.get? (joined a b).fragments condition = Option.merge (· ++ ·)
      (Keyed.get? a.fragments condition) (Keyed.get? b.fragments condition) :=
  Keyed.get?_union _ tidyB.conditions condition

/-! ### The other way round -/

/-- Selections become the same up to order, whichever of them takes over the other one. -/
theorem joined_turned (tidyA : a.Tidy) : ∀ {b : Selection}, b.Tidy → Compatible a b →
    Rearranged (joined a b) (joined b a) := by
  induction tidyA with
  | @intro a named keyed distinct conditions children fragments ih _ =>
    intro b tidyB both
    have tidyA : a.Tidy := .intro named keyed distinct conditions children fragments
    obtain ⟨name, arguments, fits⟩ := compatible_iff.mp both
    have fits' := fits.symm tidyA tidyB
    refine .intro (joined_tidy tidyA tidyB fits) (joined_tidy tidyB tidyA fits') name arguments
      (fun key => ?_) fun condition => ?_
    · rw [get?_children_joined tidyA tidyB fits, get?_children_joined tidyB tidyA fits']
      exact rel_merge_turned (fun x found => .refl (tidyA.held found))
        (fun y found => .refl (tidyB.held found))
        fun x y found found' => ih _ (Keyed.mem_of_get? found) (tidyB.held found')
          (fits key x y found found')
    · rw [get?_fragments_joined tidyB, get?_fragments_joined tidyA]
      have reflexive {members : List Selection} (tidy : ∀ fragment ∈ members, fragment.Tidy) :
          ∀ fragment ∈ members, Rearranged fragment fragment :=
        fun fragment present => .refl (tidy fragment present)
      refine rel_merge_turned (fun xs found => .refl (reflexive (tidyA.members found)))
        (fun ys found => .refl (reflexive (tidyB.members found))) fun xs ys found found' => ?_
      exact .append_comm (reflexive (List.forall_mem_append.mpr
        ⟨tidyA.members found, tidyB.members found'⟩))

/-- **Of two invocations of one field either takes over the other one, or neither does, and they
become the same up to order.** -/
theorem splice_turned (tidyA : a.Tidy) (tidyB : b.Tidy) (name : a.name = b.name)
    (arguments : sameArguments a.arguments b.arguments = true) :
    InStep Rearranged (splice a b).result (splice b a).result := by
  refine .of_ok (fun next done => ?_) fun next done => ?_
  · obtain ⟨fits, rfl⟩ := (splice_eq_ok tidyA b tidyB).mp done
    exact ⟨_, (splice_eq_ok tidyB a tidyA).mpr ⟨fits.symm tidyA tidyB, rfl⟩,
      joined_turned tidyA tidyB (.intro name arguments fits)⟩
  · obtain ⟨fits, -⟩ := (splice_eq_ok tidyB a tidyA).mp done
    exact ⟨_, (splice_eq_ok tidyA b tidyB).mpr ⟨fits.symm tidyB tidyA, rfl⟩⟩

theorem merge_turned (tidyA : a.Tidy) (tidyB : b.Tidy) (name : a.name = b.name) :
    InStep Rearranged (merge a b).result (merge b a).result := by
  rw [merge_result, merge_result]
  by_cases arguments : sameArguments a.arguments b.arguments = true
  · rw [if_pos arguments, if_pos (sameArguments_symm arguments tidyA.named)]
    exact splice_turned tidyA tidyB name arguments
  · rw [if_neg arguments,
      if_neg fun arguments' => arguments (sameArguments_symm arguments' tidyB.named)]
    exact .error _ _

/-! ### In another order from the start -/

/-- Whether selections can be merged does not depend on the order of their fragments. -/
theorem Compatible.rearranged (fits : Compatible a b) : ∀ {a' b' : Selection}, Rearranged a a' →
    Rearranged b b' → Compatible a' b' := by
  induction fits with
  | intro name arguments _ ih =>
    intro a' b' first second
    refine .intro (first.name.symm.trans (name.trans second.name)) ?_
      fun key x' y' found found' => ?_
    · exact sameArguments_trans first.symm.arguments
        (sameArguments_trans arguments second.arguments)
    · obtain ⟨x, known, same⟩ := first.symm.children.of_left found
      obtain ⟨y, known', same'⟩ := second.symm.children.of_left found'
      exact ih key x y known known' same.symm same'.symm

theorem ChildrenCompatible.rearranged (fits : ChildrenCompatible a.children b.children)
    (first : Rearranged a a') (second : Rearranged b b') :
    ChildrenCompatible a'.children b'.children := by
  intro key x' y' found found'
  obtain ⟨x, known, same⟩ := first.symm.children.of_left found
  obtain ⟨y, known', same'⟩ := second.symm.children.of_left found'
  exact (fits key x y known known').rearranged same.symm same'.symm

theorem Rearranged.joined (first : Rearranged a a') : ∀ {b b' : Selection}, Rearranged b b' →
    ChildrenCompatible a.children b.children → Rearranged (joined a b) (joined a' b') := by
  have tidy := first.left
  induction tidy generalizing a' with
  | intro _ _ _ _ _ _ ih _ =>
    intro b b' second fits
    have fits' := fits.rearranged first second
    refine .intro (joined_tidy first.left second.left fits)
      (joined_tidy first.right second.right fits') first.name first.arguments (fun key => ?_)
      fun condition => ?_
    · rw [get?_children_joined first.left second.left fits,
        get?_children_joined first.right second.right fits']
      exact rel_merge (first.children key) (second.children key)
        fun x x' y y' found found' _ _ same same' => ih _ (Keyed.mem_of_get? found) same same'
          (compatible_iff.mp (fits key x y found found')).2.2
    · rw [get?_fragments_joined second.left, get?_fragments_joined second.right]
      exact rel_merge (first.fragments condition) (second.fragments condition)
        fun _ _ _ _ _ _ _ _ same same' => same.append same'

/-- **Selections that are the same up to order take over each other alike.** -/
theorem Rearranged.splice (first : Rearranged a a') (second : Rearranged b b') :
    InStep Rearranged (splice a b).result (splice a' b').result := by
  refine .of_ok (fun next done => ?_) fun next done => ?_
  · obtain ⟨fits, rfl⟩ := (splice_eq_ok first.left b second.left).mp done
    exact ⟨_, (splice_eq_ok first.right b' second.right).mpr ⟨fits.rearranged first second, rfl⟩,
      first.joined second fits⟩
  · obtain ⟨fits, -⟩ := (splice_eq_ok first.right b' second.right).mp done
    exact ⟨_, (splice_eq_ok first.left b second.left).mpr
      ⟨fits.rearranged first.symm second.symm, rfl⟩⟩

end GraphRead.Selection
