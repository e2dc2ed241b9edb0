import GraphRead.Binding.Error
import GraphRead.Document.Depth
import GraphRead.Fallible
import GraphRead.Schema.Basic
/-!
Resolving fragments: the fragments that apply to a type are taken over by the selection.

Fragments are taken in order, those inside an applicable fragment after all that were there
before. A fragment that does not apply is dropped with all that it holds, and its condition is
looked up only if it is reached. The result is not deeper than the selection was
(`depth_resolveFragments_le`).
-/

namespace GraphRead.Selection

open Fallible

/-- Takes over the contents of a fragment; a conflict is a fault of the query at the field. -/
def spliceAt (target fragment : Selection) (path : Path) : Except BindError Selection :=
  (target.splice fragment).result.mapError fun field =>
    .query ⟨path.add field, .duplicateField field⟩

/-- Takes over the fragments of a queue as far as they are accepted, with the fragments inside
them. -/
def spliceQueue (accept : String → Except BindError Bool) (path : Path) (target : Selection)
    (queue : List (String × Selection)) : Except BindError Selection :=
  match queue with
  | [] => .ok target
  | (condition, fragment) :: rest => do
    if ← accept condition then
      let target ← spliceAt target fragment.withoutFragments path
      spliceQueue accept path target (rest ++ fragment.fragmentList)
    else spliceQueue accept path target rest
termination_by queueCount queue
decreasing_by
  · have := queueCount_fragmentList fragment
    simp only [queueCount_append, queueCount]
    omega
  · have := queueCount_fragmentList fragment
    simp only [queueCount]
    omega

/-- A selection with the accepted ones of its fragments taken over. -/
def resolveFragments (accept : String → Except BindError Bool) (path : Path) (s : Selection) :
    Except BindError Selection :=
  spliceQueue accept path s.withoutFragments s.fragmentList

/-- Accepts the fragments that apply to an object type. -/
def appliesTo (schema : Schema) (type : String) (path : Path) (condition : String) :
    Except BindError Bool :=
  (schema.isAssignable condition type).mapError fun _ => .typeNotFound condition path

/-- Accepts every fragment, where there is no type that a condition could be held against. -/
def always (_ : String) : Except BindError Bool := .ok true

/-! ### The result is not deeper -/

theorem depth_spliceAt_le {target fragment spliced : Selection} {path : Path}
    (done : spliceAt target fragment path = .ok spliced) :
    spliced.depth ≤ max target.depth fragment.depth := by
  rw [Change.eq_of_result (mapError_eq_ok.mp done)]
  exact depth_splice_le target fragment

theorem depth_spliceQueue_le {accept : String → Except BindError Bool} {path : Path}
    {target resolved : Selection} {queue : List (String × Selection)} {bound : Nat}
    (done : spliceQueue accept path target queue = .ok resolved) (start : target.depth ≤ bound)
    (queued : ∀ entry ∈ queue, entry.2.depth ≤ bound) : resolved.depth ≤ bound := by
  fun_induction spliceQueue accept path target queue with
  | case1 target => cases done; exact start
  | case2 target condition fragment rest ihTaken ihDropped =>
    obtain ⟨applies, _, done⟩ := bind_eq_ok.mp done
    have here : fragment.depth ≤ bound := queued (condition, fragment) List.mem_cons_self
    have others : ∀ entry ∈ rest, entry.2.depth ≤ bound := fun entry member =>
      queued entry (List.mem_cons_of_mem _ member)
    split at done
    · obtain ⟨next, spliced, done⟩ := bind_eq_ok.mp done
      refine ihTaken next done ?_ ?_
      · have := depth_spliceAt_le spliced
        have := depth_withoutFragments_le fragment
        omega
      · intro entry member
        rcases List.mem_append.mp member with old | new
        · exact others entry old
        · have := @depth_le_of_mem_fragmentList _ _ entry.1 new
          omega
    · exact ihDropped done start others

/-- Resolving fragments does not make a selection deeper. -/
theorem depth_resolveFragments_le {accept : String → Except BindError Bool} {path : Path}
    {s resolved : Selection} (done : resolveFragments accept path s = .ok resolved) :
    resolved.depth ≤ s.depth :=
  depth_spliceQueue_le done (depth_withoutFragments_le s) fun entry member =>
    @depth_le_of_mem_fragmentList _ _ entry.1 member

end GraphRead.Selection
