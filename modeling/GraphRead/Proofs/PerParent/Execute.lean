import GraphRead.Execution.Run
import GraphRead.Proofs.Binding.Formed
import GraphRead.Proofs.PerParent.Roots
/-!
Executing a document: level by level and per parent come to the same
(`executeDocument_eq_perParent`).

Without a timeout and a cancellation an execution is its resolution, whatever the limits are. What
is bound to a schema asks for the associations of a record under distinct keys, so the levels can
be taken apart.
-/

namespace GraphRead.PerParent

open Success

/-- Without a timeout and a cancellation, a resolution is not interrupted. -/
theorem observe_outcome (connector : Connector) (limit : Nat) (size : Option Nat) (latency : Nat)
    (resolution : Resolution Response) :
    (observe connector ⟨limit, size, none⟩ ⟨latency, none⟩ resolution).outcome =
      resolution.outcome.mapError .ofResolve :=
  rfl

/-- Every completion order of the reads of a document finds what resolving per parent does. -/
theorem resolveReads_of_document {schema : Schema} {document : Document} {root : Selection}
    {reads : List RootRead} (store : Memory) (size : Option Nat) {completion : Completion}
    (every : completion.Complete) (built : Selection.ofDocument document = .ok root)
    (bound : root.rootReads schema = .ok reads) :
    (resolveReads store.connector size completion reads).outcome.toOption =
      (response store.connector reads).toOption :=
  resolveReads_toOption store size every fun read asked =>
    (Selection.rootReads_formed (Selection.ofDocument_wellKeyed built) bound read asked).2

/-- **Reading for all parents together is reading for each parent.** Without a timeout, the
execution of a document has a response exactly if resolving it per parent has one, and it is the
same, whatever the limits and however long the reads take. It does not matter either in which order
the reads of a level complete. -/
theorem executeDocument_eq_perParent (schema : Schema) (store : Memory) (document : Document)
    (limit : Nat) (size : Option Nat) (latency : Nat) (found : Response) :
    ((executeDocument schema store.connector ⟨limit, size, none⟩ ⟨latency, none⟩
        document).outcome = .ok found ↔
      execute schema store.connector document = .ok found) ∧
    ∀ completion : Completion, completion.Complete → ∀ root reads,
      Selection.ofDocument document = .ok root → root.rootReads schema = .ok reads →
      ((resolveReads store.connector size completion reads).outcome = .ok found ↔
        response store.connector reads = .ok found) := by
  refine ⟨?_, fun completion every root reads built bound => ?_⟩
  · rw [← toOption_eq_some, ← toOption_eq_some, execute, executeDocument]
    cases built : Selection.ofDocument document with
    | error e => exact Iff.rfl
    | ok root =>
      simp only [executeSelection, toOption_bind, toOption_mapError, toOption_ok, Option.bind_some]
      cases bound : root.rootReads schema with
      | error e => exact Iff.rfl
      | ok reads =>
        rw [observe_outcome, toOption_mapError,
          resolveReads_of_document store size Completion.inOrder_complete built bound]
        rfl
  · rw [← toOption_eq_some, ← toOption_eq_some,
      resolveReads_of_document store size every built bound]

end GraphRead.PerParent
