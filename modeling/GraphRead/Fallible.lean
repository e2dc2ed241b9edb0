/-!
Computations that can fail: what the success of a whole says about its parts.

A sequence succeeds exactly if its first part does and the second part does with the result
(`bind_eq_ok`), and changing what is reported of a failure does not change success
(`mapError_eq_ok`).
-/

namespace GraphRead.Fallible

variable {ε φ α β : Type}

theorem pure_eq_ok {a b : α} : (pure a : Except ε α) = .ok b ↔ a = b :=
  ⟨fun same => Except.ok.inj same, fun same => congrArg Except.ok same⟩

theorem bind_eq_ok {x : Except ε α} {f : α → Except ε β} {b : β} :
    x >>= f = .ok b ↔ ∃ a, x = .ok a ∧ f a = .ok b := by
  cases x with
  | error e => exact ⟨fun done => (nomatch done), fun ⟨_, done, _⟩ => (nomatch done)⟩
  | ok a =>
    refine ⟨fun done => ⟨a, rfl, done⟩, fun ⟨a', same, done⟩ => ?_⟩
    cases same
    exact done

theorem map_eq_ok {x : Except ε α} {f : α → β} {b : β} :
    x.map f = .ok b ↔ ∃ a, x = .ok a ∧ f a = b := by
  cases x with
  | error e => exact ⟨fun done => (nomatch done), fun ⟨_, done, _⟩ => (nomatch done)⟩
  | ok a =>
    refine ⟨fun done => ⟨a, rfl, Except.ok.inj done⟩, fun ⟨a', same, done⟩ => ?_⟩
    cases same
    exact congrArg Except.ok done

theorem mapError_eq_ok {x : Except ε α} {f : ε → φ} {a : α} :
    x.mapError f = .ok a ↔ x = .ok a := by
  cases x with
  | error e => exact ⟨fun done => (nomatch done), fun done => (nomatch done)⟩
  | ok b => exact ⟨fun same => congrArg Except.ok (Except.ok.inj same),
      fun same => congrArg Except.ok (Except.ok.inj same)⟩

end GraphRead.Fallible
