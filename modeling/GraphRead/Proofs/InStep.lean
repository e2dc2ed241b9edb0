import GraphRead.Proofs.Keyed
import Mathlib.Data.List.Forall2
/-!
Two computations in step: either both fail, or both succeed with related results.

What two runs do in step they keep doing in sequence (`Fallible.InStep.bind`), and over two keyed
lists with the same keys and related values (`Keyed.Both`) one step after the other
(`InStep.foldlM`, `InStep.mapM`). A walk over a list is in step with the same walk in another order
(`InStep.mapM_perm`). Why a run fails is left open.
-/

namespace GraphRead

/-! ### Keyed lists side by side -/

namespace Keyed

variable {α β γ : Type}

/-- The same keys in the same order, with related values. -/
inductive Both (related : α → β → Prop) : Keyed α → Keyed β → Prop
  | nil : Both related [] []
  | cons {key : String} {a : α} {b : β} {rest : Keyed α} {others : Keyed β}
    (first : related a b) (later : Both related rest others) :
    Both related ((key, a) :: rest) ((key, b) :: others)

namespace Both

variable {related : α → β → Prop} {left : Keyed α} {right : Keyed β} {key : String}

theorem keys (both : Both related left right) : right.map Prod.fst = left.map Prod.fst := by
  induction both with
  | nil => rfl
  | cons first later ih => exact congrArg (_ :: ·) ih

theorem refl {same : α → α → Prop} {entries : Keyed α}
    (each : ∀ entry ∈ entries, same entry.2 entry.2) : Both same entries entries := by
  induction entries with
  | nil => exact .nil
  | cons entry rest ih =>
    rw [List.forall_mem_cons] at each
    exact .cons each.1 (ih each.2)

theorem exists_of_mem (both : Both related left right) {entry : String × α}
    (present : entry ∈ left) : ∃ b, (entry.1, b) ∈ right ∧ related entry.2 b := by
  induction both with
  | nil => cases present
  | @cons k a b rest others first later ih =>
    rcases List.mem_cons.mp present with rfl | there
    · exact ⟨b, List.mem_cons_self, first⟩
    · obtain ⟨b', known, same⟩ := ih there
      exact ⟨b', List.mem_cons_of_mem _ known, same⟩

/-- What is found under a key on the left is related to what is found there on the right. -/
theorem get?_some (both : Both related left right) {a : α} (found : get? left key = some a) :
    ∃ b, get? right key = some b ∧ related a b := by
  induction both with
  | nil => cases found
  | @cons k a' b' rest others first later ih =>
    rw [get?] at found ⊢
    by_cases same : k = key
    · rw [if_pos same] at found ⊢
      cases found
      exact ⟨b', rfl, first⟩
    · rw [if_neg same] at found ⊢
      exact ih found

theorem get?_none (both : Both related left right) (missing : get? left key = none) :
    get? right key = none := by
  induction both with
  | nil => rfl
  | @cons k a' b' rest others first later ih =>
    rw [get?] at missing ⊢
    by_cases same : k = key
    · rw [if_pos same] at missing
      cases missing
    · rw [if_neg same] at missing ⊢
      exact ih missing

theorem hasKey (both : Both related left right) (key : String) :
    Keyed.hasKey right key = Keyed.hasKey left key := by
  unfold Keyed.hasKey
  cases found : get? left key with
  | none =>
    rw [both.get?_none found]
    rfl
  | some a =>
    obtain ⟨b, found', -⟩ := both.get?_some found
    rw [found']
    rfl

theorem insert (both : Both related left right) {a : α} {b : β} (added : related a b) :
    Both related (Keyed.insert left key a) (Keyed.insert right key b) := by
  induction both with
  | nil => exact .cons added .nil
  | @cons k a' b' rest others first later ih =>
    rw [Keyed.insert, Keyed.insert]
    split
    · exact .cons added later
    · exact .cons first ih

theorem erase (both : Both related left right) :
    Both related (Keyed.erase left key) (Keyed.erase right key) := by
  induction both with
  | nil => exact .nil
  | @cons k a' b' rest others first later ih =>
    rw [Keyed.erase, Keyed.erase]
    split
    · exact later
    · exact .cons first ih

/-- On the right another value that is related to the one on the left can be stored. -/
theorem insert_right (both : Both related left right) {a : α} {b : β}
    (found : get? left key = some a) (added : related a b) :
    Both related left (Keyed.insert right key b) := by
  induction both with
  | nil => cases found
  | @cons k a' b' rest others first later ih =>
    rw [get?] at found
    rw [Keyed.insert]
    by_cases same : k = key
    · rw [if_pos same] at found ⊢
      cases found
      exact .cons added later
    · rw [if_neg same] at found ⊢
      exact .cons first (ih found)

/-- Of both lists the entries are left that a condition picks alike. -/
theorem filter (both : Both related left right) {keep : String × α → Bool}
    {keep' : String × β → Bool}
    (alike : ∀ key a b, related a b → keep' (key, b) = keep (key, a)) :
    Both related (left.filter keep) (right.filter keep') := by
  induction both with
  | nil => exact .nil
  | @cons key a b rest others first later ih =>
    rw [List.filter_cons, List.filter_cons, alike key a b first]
    split
    · exact .cons first ih
    · exact ih

end Both

end Keyed

/-! ### Computations side by side -/

namespace Fallible

variable {ε φ α β γ δ : Type} {related : α → β → Prop} {then' : γ → δ → Prop}

/-- Both computations fail, or both succeed with related results. -/
inductive InStep (related : α → β → Prop) : Except ε α → Except φ β → Prop
  | ok {a : α} {b : β} (results : related a b) : InStep related (.ok a) (.ok b)
  | error (e : ε) (e' : φ) : InStep related (.error e) (.error e')

namespace InStep

variable {x : Except ε α} {y : Except φ β}

theorem ok_iff {a : α} {y : Except φ β} :
    InStep related (.ok a : Except ε α) y ↔ ∃ b, y = .ok b ∧ related a b := by
  constructor
  · intro both
    cases both with
    | ok results => exact ⟨_, rfl, results⟩
  · rintro ⟨b, rfl, results⟩
    exact .ok results

theorem of_ok (left : ∀ a, x = .ok a → ∃ b, y = .ok b ∧ related a b)
    (right : ∀ b, y = .ok b → ∃ a, x = .ok a) : InStep related x y := by
  cases x with
  | ok a =>
    obtain ⟨b, rfl, results⟩ := left a rfl
    exact .ok results
  | error e =>
    cases y with
    | ok b =>
      obtain ⟨a, done⟩ := right b rfl
      cases done
    | error e' => exact .error e e'

theorem bind {f : α → Except ε γ} {g : β → Except φ δ} (first : InStep related x y)
    (next : ∀ a b, x = .ok a → related a b → InStep then' (f a) (g b)) :
    InStep then' (x >>= f) (y >>= g) := by
  cases first with
  | ok results => exact next _ _ rfl results
  | error e e' => exact .error e e'

theorem map {f : α → γ} {g : β → δ} (first : InStep related x y)
    (results : ∀ a b, x = .ok a → related a b → then' (f a) (g b)) :
    InStep then' (x.map f) (y.map g) := by
  cases first with
  | ok both => exact .ok (results _ _ rfl both)
  | error e e' => exact .error e e'

theorem imp {also : α → β → Prop} (both : InStep related x y)
    (each : ∀ a b, x = .ok a → related a b → also a b) : InStep also x y := by
  cases both with
  | ok results => exact .ok (each _ _ rfl results)
  | error e e' => exact .error e e'

/-- Results that are related are what the two computations yield. -/
theorem yields (both : InStep related x y) :
    InStep (fun a b => x = .ok a ∧ y = .ok b ∧ related a b) x y := by
  cases both with
  | ok results => exact .ok ⟨rfl, rfl, results⟩
  | error e e' => exact .error e e'

/-- Three computations in step. -/
theorem trans {ψ : Type} {later : β → δ → Prop} {z : Except ψ δ} (first : InStep related x y)
    (second : InStep later y z) : InStep (fun a d => ∃ b, related a b ∧ later b d) x z := by
  cases first with
  | ok both =>
    obtain ⟨d, rfl, after⟩ := ok_iff.mp second
    exact .ok ⟨_, both, after⟩
  | error e e' =>
    cases second
    exact .error _ _

theorem mapError {f : ε → γ} {g : φ → δ} (first : InStep related x y) :
    InStep related (x.mapError f) (y.mapError g) := by
  cases first with
  | ok both => exact .ok both
  | error e e' => exact .error _ _

theorem refl (x : Except ε α) : InStep (· = ·) x x := by
  cases x with
  | ok a => exact .ok rfl
  | error e => exact .error e e

/-- Whether computations are in step is told by what they yield. -/
theorem of_toOption {x' : Except γ α} {y' : Except δ β} (left : x.toOption = x'.toOption)
    (right : y.toOption = y'.toOption) (both : InStep related x' y') : InStep related x y := by
  cases both with
  | ok results =>
    cases x with
    | error e => cases left
    | ok a =>
      cases y with
      | error e' => cases right
      | ok b =>
        cases left
        cases right
        exact .ok results
  | error e e' =>
    cases x with
    | ok a => cases left
    | error e =>
      cases y with
      | ok b => cases right
      | error e' => exact .error e e'

/-- Computations in step that yield equal results yield the same. -/
theorem eq_ok_iff {x : Except ε α} {y : Except φ α} (both : InStep (· = ·) x y) (a : α) :
    y = .ok a ↔ x = .ok a := by
  cases both with
  | ok same => rw [Except.ok.injEq, Except.ok.injEq, same]
  | error e e' => simp

/-- Two walks over keyed lists stay in step if every step does. -/
theorem foldlM {entries : Keyed γ} {others : Keyed δ} {f : α → String × γ → Except ε α}
    {g : β → String × δ → Except φ β} {a : α} {b : β} (both : Keyed.Both then' entries others)
    (start : related a b)
    (step : ∀ a b key c d, related a b → then' c d → InStep related (f a (key, c)) (g b (key, d))) :
    InStep related (entries.foldlM f a) (others.foldlM g b) := by
  induction both generalizing a b with
  | nil => exact .ok start
  | cons first later ih =>
    rw [List.foldlM_cons, List.foldlM_cons]
    exact (step a b _ _ _ start first).bind fun _ _ _ next => ih next

theorem mapM {entries : Keyed γ} {others : Keyed δ} {f : String × γ → Except ε α}
    {g : String × δ → Except φ α} (both : Keyed.Both then' entries others)
    (step : ∀ key c d, then' c d → InStep (· = ·) (f (key, c)) (g (key, d))) :
    InStep (· = ·) (entries.mapM f) (others.mapM g) := by
  induction both with
  | nil => exact .ok rfl
  | cons first later ih =>
    rw [List.mapM_cons, List.mapM_cons]
    refine (step _ _ _ first).bind fun a b _ same => ih.bind fun as bs _ others => .ok ?_
    rw [same, others]

theorem mapM_option {asked : Option γ} {asked' : Option δ} {f : γ → Except ε α}
    {g : δ → Except φ α} (both : Option.Rel then' asked asked')
    (step : ∀ c d, asked = some c → then' c d → InStep (· = ·) (f c) (g d)) :
    InStep (· = ·) (asked.mapM f) (asked'.mapM g) := by
  cases both with
  | none => exact .ok rfl
  | some own => exact (step _ _ rfl own).map fun _ _ _ same => congrArg some same

/-- Two walks over one list stay in step if every step does. -/
theorem mapM_list {items : List γ} {f : γ → Except ε α} {g : γ → Except φ β}
    (step : ∀ item ∈ items, InStep related (f item) (g item)) :
    InStep (List.Forall₂ related) (items.mapM f) (items.mapM g) := by
  induction items with
  | nil => exact .ok .nil
  | cons item rest ih =>
    rw [List.forall_mem_cons] at step
    rw [List.mapM_cons, List.mapM_cons]
    exact step.1.bind fun _ _ _ here => (ih step.2).bind fun _ _ _ later => .ok (.cons here later)

theorem mapM_asked {asked : Option γ} {f : γ → Except ε α} {g : γ → Except φ β}
    (step : ∀ c, asked = some c → InStep related (f c) (g c)) :
    InStep (Option.Rel related) (asked.mapM f) (asked.mapM g) := by
  cases asked with
  | none => exact .ok .none
  | some c => exact (step c rfl).map fun _ _ _ own => .some own

/-- It does not matter in which order the members of a list are taken. -/
theorem mapM_perm {items others : List γ} (f : γ → Except ε α) (perm : items.Perm others) :
    InStep List.Perm (items.mapM f) (others.mapM f) := by
  induction perm with
  | nil => exact .ok (.refl _)
  | cons item _ ih =>
    rw [List.mapM_cons, List.mapM_cons]
    exact (InStep.refl _).bind fun a _ _ same => ih.bind fun _ _ _ later =>
      .ok (same ▸ later.cons a)
  | swap item other rest =>
    simp only [List.mapM_cons]
    cases f item with
    | error e =>
      cases f other with
      | error e' => exact .error _ _
      | ok b => exact .error _ _
    | ok a =>
      cases f other with
      | error e' => exact .error _ _
      | ok b =>
        cases rest.mapM f with
        | error e => exact .error _ _
        | ok more => exact .ok (.swap a b more)
  | trans _ _ first second =>
    exact (first.trans second).imp fun _ _ _ ⟨_, here, later⟩ => here.trans later

end InStep

end Fallible

end GraphRead
