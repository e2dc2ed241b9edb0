import GraphRead.Execution.Run
/-!
Where the outcome of an execution comes from.

A document asks some reads of a schema (`Document.Asks`), or it is rejected before anything is read.
The execution of what it asks is observed (`executeDocument_of_asks`): it answers what the
resolution answers (`outcome_of_observe`), and it fails with an error of the resolution or because
it is stopped from outside (`error_of_observe`).
-/

namespace GraphRead

/-- What a document asks of a schema. -/
def Document.Asks (document : Document) (schema : Schema) (reads : List RootRead) : Prop :=
  ∃ root, Selection.ofDocument document = .ok root ∧ root.rootReads schema = .ok reads

/-- The errors of an execution that is stopped from outside. -/
inductive ExecutionError.Stops (config : Config) (timing : Timing) : ExecutionError → Prop where
  | cancelled (asked : timing.cancelAfter.isSome) : Stops config timing .cancelled
  | timedOut {milliseconds : Nat} (limit : config.queryTimeout = some milliseconds) :
      Stops config timing (.timedOut milliseconds)

/-! ### What is observed -/

/-- The earlier of two moments is one of them. -/
theorem earlier_eq_some {α : Type} {left right : Option (Nat × α)} {moment : Nat × α}
    (found : earlier left right = some moment) : left = some moment ∨ right = some moment := by
  unfold earlier at found
  split at found
  · split at found
    · exact .inl found
    · exact .inr found
  · exact .inl found
  · exact .inr found

section Observe

variable {connector : Connector} {config : Config} {timing : Timing}

/-- A resolution is interrupted by the caller or by the timeout. -/
theorem stops_of_interruption {duration time : Nat} {e : ExecutionError}
    (stopped : interruption? config timing duration = some (time, e)) :
    e.Stops config timing := by
  rcases earlier_eq_some (Option.filter_eq_some_iff.mp stopped).1 with caller | timeout
  · obtain ⟨after, asked, same⟩ := Option.map_eq_some_iff.mp caller
    cases same
    exact .cancelled (Option.isSome_of_eq_some asked)
  · obtain ⟨limit, configured, same⟩ := Option.map_eq_some_iff.mp timeout
    cases same
    exact .timedOut configured

/-- An execution fails with an error of its resolution, or because it is stopped. -/
theorem error_of_observe {resolution : Resolution Response} {e : ExecutionError}
    (failed : (observe connector config timing resolution).outcome = .error e) :
    (∃ error, resolution.outcome = .error error ∧ e = .ofResolve error) ∨
      e.Stops config timing := by
  unfold observe at failed
  split at failed
  · rename_i beforehand
    cases failed
    exact .inr (.cancelled (Option.isSome_of_eq_some beforehand))
  · dsimp only at failed
    split at failed
    · rename_i stopped
      cases failed
      exact .inr (stops_of_interruption stopped)
    · cases found : resolution.outcome with
      | error error =>
        rw [found] at failed
        cases failed
        exact .inl ⟨error, rfl, rfl⟩
      | ok response =>
        rw [found] at failed
        cases failed

/-- An execution that answers was not interrupted. -/
theorem outcome_of_observe {resolution : Resolution Response} {response : Response}
    (done : (observe connector config timing resolution).outcome = .ok response) :
    resolution.outcome = .ok response := by
  unfold observe at done
  split at done
  · cases done
  · dsimp only at done
    split at done
    · cases done
    · exact Fallible.mapError_eq_ok.mp done

/-- An execution goes through the levels of its resolution. -/
theorem levels_of_observe {resolution : Resolution Response} {level : List Task}
    (listed : level ∈ (observe connector config timing resolution).levels) :
    level ∈ resolution.levels := by
  unfold observe at listed
  split at listed
  · cases listed
  · dsimp only at listed
    split at listed <;> exact listed

end Observe

/-! ### Documents -/

section Documents

variable {schema : Schema} {document : Document} {reads : List RootRead}

theorem Document.Asks.unique {reads' : List RootRead} (asks : document.Asks schema reads)
    (asks' : document.Asks schema reads') : reads = reads' := by
  obtain ⟨root, built, bound⟩ := asks
  obtain ⟨root', built', bound'⟩ := asks'
  cases Except.ok.inj (built.symm.trans built')
  exact Except.ok.inj (bound.symm.trans bound')

/-- What a document asks is resolved. -/
theorem executeDocument_of_asks (asks : document.Asks schema reads) (connector : Connector)
    (config : Config) (timing : Timing) :
    executeDocument schema connector config timing document = observe connector config timing
      (resolveReads connector config.maxBindValues .inOrder reads) := by
  obtain ⟨root, built, bound⟩ := asks
  rw [executeDocument, built]
  dsimp only
  rw [executeSelection, bound]

/-- A document that asks nothing is rejected alike by all stores, before any of them is read. -/
theorem rejected_of_not_asks (nothing : ¬ ∃ reads, document.Asks schema reads) :
    ∃ e : ExecutionError, (∀ error, e ≠ .resolve error) ∧ ∀ connector config timing,
      executeDocument schema connector config timing document = .rejected e := by
  cases built : Selection.ofDocument document with
  | error e =>
    refine ⟨.query e, fun _ => by simp, fun connector config timing => ?_⟩
    rw [executeDocument, built]
  | ok root =>
    cases bound : root.rootReads schema with
    | error e =>
      refine ⟨.ofBind e, fun _ => by cases e <;> simp [ExecutionError.ofBind],
        fun connector config timing => ?_⟩
      rw [executeDocument, built]
      dsimp only
      rw [executeSelection, bound]
    | ok reads => exact absurd ⟨reads, root, built, bound⟩ nothing

/-- A document that is answered asks for something. -/
theorem exists_asks {connector : Connector} {config : Config} {timing : Timing}
    {response : Response}
    (done : (executeDocument schema connector config timing document).outcome = .ok response) :
    ∃ reads, document.Asks schema reads := by
  refine Classical.byContradiction fun nothing => ?_
  obtain ⟨e, -, rejected⟩ := rejected_of_not_asks nothing
  rw [rejected] at done
  cases done

end Documents

end GraphRead
