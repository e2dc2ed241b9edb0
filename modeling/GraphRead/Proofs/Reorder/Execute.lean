import GraphRead.Proofs.Execution.Outcome
import GraphRead.Proofs.Page.Execute
import GraphRead.Proofs.Reorder.Bind
import GraphRead.Proofs.Reorder.Level
import Mathlib
/-!
The order in which an interface lists its types does not matter (`executeDocument_reordered`).

A schema that lists them in another order binds the same reads with their targets in another order
(`rootReads_reordered`), which answer the same (`response_reordered`) on levels of the same lengths
(`Unfolds.length_eq`).
-/

namespace GraphRead

open PerParent Success

section Reads

variable (store : Memory) (config : Config) (timing : Timing) {reads reads' : List RootRead}
  (both : List.Forall₂ RootRead.Reordered reads reads')

include both

/-- Reads in another order that answer the same are observed to answer the same. -/
theorem outcome_observe_reordered {response : Response}
    (found : (resolveReads store.connector config.maxBindValues .inOrder reads).outcome =
      .ok response)
    (found' : (resolveReads store.connector config.maxBindValues .inOrder reads').outcome =
      .ok response) :
    (observe store.connector config timing
        (resolveReads store.connector config.maxBindValues .inOrder reads')).outcome =
      (observe store.connector config timing
        (resolveReads store.connector config.maxBindValues .inOrder reads)).outcome := by
  have unfolds := resolveReads_unfolds Completion.inOrder_complete found
  have unfolds' := resolveReads_unfolds Completion.inOrder_complete found'
  exact outcome_observe_congr config timing (found'.trans found.symm)
    (unfolds.length_eq unfolds' (rootTasks_reordered both)) unfolds.succeeds unfolds'.succeeds

end Reads

/-- **The order in which interfaces list their types does not matter.** A document is answered by a
built schema exactly if it is answered by one whose interfaces list the same types in another order,
and the response is the same. -/
theorem executeDocument_reordered {declared : Declarations} {schema schema' : Schema}
    (built : Schema.build declared = .ok schema) (reorders : Schema.Reorders schema schema')
    (store : Memory) (config : Config) (timing : Timing) (document : Document)
    (response : Response) :
    (executeDocument schema store.connector config timing document).outcome = .ok response ↔
      (executeDocument schema' store.connector config timing document).outcome = .ok response := by
  cases isDocument : Selection.ofDocument document with
  | error e => rw [executeDocument, executeDocument, isDocument]
  | ok root =>
    have bound := Selection.rootReads_reordered built reorders root
    cases isBound : root.rootReads schema with
    | error e =>
      rw [isBound] at bound
      cases isBound' : root.rootReads schema' with
      | ok reads' => rw [isBound'] at bound; cases bound
      | error e' =>
        simp [executeDocument, isDocument, executeSelection, isBound, isBound', Execution.rejected]
    | ok reads =>
      rw [isBound] at bound
      obtain ⟨reads', isBound', both⟩ := Fallible.InStep.ok_iff.mp bound
      rw [executeDocument_of_asks ⟨root, isDocument, isBound⟩,
        executeDocument_of_asks ⟨root, isDocument, isBound'⟩]
      have same : (resolveReads store.connector config.maxBindValues .inOrder reads').outcome =
            .ok response ↔
          (resolveReads store.connector config.maxBindValues .inOrder reads).outcome =
            .ok response := by
        rw [← toOption_eq_some, ← toOption_eq_some,
          resolveReads_of_document store _ Completion.inOrder_complete isDocument isBound,
          resolveReads_of_document store _ Completion.inOrder_complete isDocument isBound',
          response_reordered store both]
      constructor
      · intro done
        have found := outcome_of_observe done
        rw [outcome_observe_reordered store config timing both found (same.mpr found)]
        exact done
      · intro done
        have found := outcome_of_observe done
        rw [← outcome_observe_reordered store config timing both (same.mp found) found]
        exact done

/-! ### Actors of two types, listed in both orders -/

namespace Actors

/-- The directory that lists bots before users. -/
def botsFirst : Schema := { directory with interfaces := [("actor", ⟨"actor", ["bot", "user"]⟩)] }

theorem reorders_botsFirst : Schema.Reorders directory botsFirst :=
  ⟨rfl, .cons ⟨rfl, .swap _ _ _, by decide⟩ .nil, rfl⟩

/-- A user and a bot tie, and still the page is the same if bots are read first. -/
theorem executeDocument_reordered_firstTwo :
    Schema.build declarations = .ok directory ∧ Schema.Reorders directory botsFirst ∧
      (executeDocument botsFirst store.connector .default .instant firstTwo).outcome =
        .ok [("actors", .many page)] :=
  ⟨built_directory, reorders_botsFirst,
    (executeDocument_reordered built_directory reorders_botsFirst store .default .instant firstTwo
      _).mp executed⟩

end Actors

end GraphRead
