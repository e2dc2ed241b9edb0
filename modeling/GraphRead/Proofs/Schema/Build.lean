import GraphRead.Proofs.Failure
import GraphRead.Proofs.Keyed
import GraphRead.Proofs.Success
import GraphRead.Schema.Build
/-!
What a schema that was built guarantees of its types.

Interfaces and root fields are added without touching the types, and the associations of all types
are checked in between. So an association of a built schema has an order exactly if it leads to
lists (`Schema.ordered_of_build`).
-/

namespace GraphRead.Schema

open Fallible

/-- A part that no step changes is the same in the end. -/
theorem foldlM_keeps {α β γ ε : Type} {step : β → α → Except ε β} (part : β → γ)
    (keeps : ∀ before item after, step before item = .ok after → part after = part before)
    {items : List α} {start done : β} (folded : items.foldlM step start = .ok done) :
    part done = part start :=
  foldlM_preserves (part · = part start) rfl (fun before item _ after same stepped =>
    (keeps before item after stepped).trans same) folded

/-- Adding an interface keeps the types. -/
theorem types_addInterface {schema after : Schema} {face : Interface}
    (done : schema.addInterface face = .ok after) : after.types = schema.types := by
  unfold addInterface at done
  split at done
  · cases done
  · split at done
    · cases done
    · split at done
      · cases done
      · cases done
        rfl

/-- Adding a root field keeps the types. -/
theorem types_addRoot {schema after : Schema} {root : RootField}
    (done : schema.addRoot root = .ok after) : after.types = schema.types := by
  unfold addRoot at done
  split at done
  · cases done
  · split at done
    · cases done
    · cases done
      rfl

/-- A list of checks passes only if each of them does. -/
theorem forM_ok {α ε : Type} {check : α → Except ε Unit} {items : List α}
    (done : items.forM check = .ok ()) : ∀ item ∈ items, check item = .ok () := by
  induction items with
  | nil => exact fun _ present => nomatch present
  | cons item rest ih =>
    obtain ⟨⟨⟩, here, later⟩ := bind_eq_ok.mp done
    exact List.forall_mem_cons.mpr ⟨here, ih later⟩

/-- The types of a built schema have been checked. -/
theorem checkType_of_build {declared : Declarations} {schema : Schema}
    (built : build declared = .ok schema) :
    ∃ checked : Schema, ∀ type ∈ schema.types.values, checkType checked type = .ok () := by
  unfold build at built
  obtain ⟨typed, -, built⟩ := bind_eq_ok.mp built
  obtain ⟨covered, -, built⟩ := bind_eq_ok.mp built
  obtain ⟨⟨⟩, checks, built⟩ := bind_eq_ok.mp built
  have same : schema.types = covered.types :=
    foldlM_keeps types (fun _ _ _ => types_addRoot) built
  exact ⟨covered, same ▸ forM_ok checks⟩

/-- Every association of a type has an order exactly if it leads to lists. -/
def Ordered (schema : Schema) : Prop :=
  ∀ type ∈ schema.types.values, ∀ association ∈ type.associations, association.orderFault? = none

theorem ordered_of_build {declared : Declarations} {schema : Schema}
    (built : build declared = .ok schema) : schema.Ordered := by
  obtain ⟨checked, checks⟩ := checkType_of_build built
  intro type known association declares
  have passed := forM_ok (checks type known) association declares
  unfold checkAssociation at passed
  obtain ⟨⟨⟩, valid, -⟩ := bind_eq_ok.mp passed
  unfold Association.validate at valid
  split at valid
  · cases valid
  · assumption

/-! ### Types under their names -/

/-- Every type is filed under its name. -/
def Named (schema : Schema) : Prop := ∀ name type, (name, type) ∈ schema.types → type.name = name

theorem Named.addType {schema after : Schema} (named : schema.Named) {type : ObjectType}
    (done : schema.addType type = .ok after) : after.Named := by
  unfold Schema.addType at done
  split at done
  · cases done
  · cases done
    intro name other present
    rcases Keyed.mem_insert present with same | there
    · cases same
      rfl
    · exact named name other there

theorem named_of_build {declared : Declarations} {schema : Schema}
    (built : build declared = .ok schema) : schema.Named := by
  unfold build at built
  obtain ⟨typed, isTyped, built⟩ := bind_eq_ok.mp built
  obtain ⟨covered, isCovered, built⟩ := bind_eq_ok.mp built
  obtain ⟨⟨⟩, -, built⟩ := bind_eq_ok.mp built
  have begins : empty.Named := fun _ _ present => absurd present List.not_mem_nil
  have named : typed.Named :=
    foldlM_preserves Named begins (fun _ _ _ _ named done => named.addType done) isTyped
  have same : schema.types = typed.types :=
    (foldlM_keeps types (fun _ _ _ => types_addRoot) built).trans
      (foldlM_keeps types (fun _ _ _ => types_addInterface) isCovered)
  intro name type present
  exact named name type (same ▸ present)

/-- Behind a name there are types of distinct names, unless it is the name of an interface that
repeats a type. -/
theorem Named.nodup_coveredTypes {schema : Schema} (named : schema.Named) {name : String}
    (distinct : ∀ face, Keyed.get? schema.interfaces name = some face → face.covered.Nodup)
    {types : List ObjectType} (done : schema.coveredTypes name = .ok types) :
    (types.map ObjectType.name).Nodup := by
  unfold coveredTypes at done
  split at done
  · cases done
    exact List.pairwise_singleton ..
  · split at done
    · rename_i face found
      suffices same : types.map ObjectType.name = face.covered by
        rw [same]
        exact distinct face found
      have yielded := Success.toOption_mapM schema.objectType face.covered
      rw [done] at yielded
      refine (Success.map_eq_of_mapM yielded.symm fun covered _ type here => ?_).trans
        (List.map_id face.covered)
      unfold objectType at here
      split at here
      · rename_i there
        cases here
        exact named _ _ (Keyed.mem_of_get? there)
      · cases here
    · cases done

end GraphRead.Schema
