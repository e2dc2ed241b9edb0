import GraphRead.Proofs.Binding.Blame
import GraphRead.Proofs.Execution.Outcome
import GraphRead.Store.Memory
import Mathlib
/-!
Who is to blame when a query has no response, and what its sender is told.

A query is built and bound before anything is read, so the store has no part in a fault of the
query: it is the same against every store, and no store is read. Once a query is bound it can only
fail in its reads or be interrupted (`ExecutionError.Late`). None of these errors is a fault of the
query, and of each of them only the category is told, or how long the timeout was. So
`executeDocument_blame`: the query alone decides whether it is at fault, and nothing of what a
store answered comes out in an error.
-/

namespace GraphRead

/-- A document whose reads are known: it can be built to a selection and bound to the schema. -/
def Document.Binds (document : Document) (schema : Schema) : Prop :=
  ∃ reads, document.Asks schema reads

/-- The errors of a query that is bound: a failure of its reads, or an interruption of them. -/
inductive ExecutionError.Late (config : Config) (timing : Timing) : ExecutionError → Prop where
  | resolve (error : ResolveError) : Late config timing (.ofResolve error)
  | stopped {e : ExecutionError} (stops : e.Stops config timing) : Late config timing e

namespace ExecutionError.Late

variable {config : Config} {timing : Timing} {e : ExecutionError}

theorem isMalformedQuery (late : e.Late config timing) : e.isMalformedQuery = false := by
  cases late with
  | resolve error => cases error <;> rfl
  | stopped stops => cases stops <;> rfl

/-- An error of a query that is bound is told by its category alone. The one exception is the
timeout, which is told with its length. -/
theorem userFacing (late : e.Late config timing) :
    e.userFacing = ⟨e.category, match e.category with
      | .cancelled => if e = .cancelled then "Query resolution was cancelled." else
          "Query resolution timed out after " ++ toString (config.queryTimeout.getD 0) ++ " ms."
      | .internal => "An internal error occurred while resolving the query."
      | _ => "The data store failed to answer the query."⟩ := by
  cases late with
  | resolve error => cases error <;> rfl
  | stopped stops =>
    cases stops with
    | cancelled asked => rfl
    | timedOut limit =>
      rw [limit]
      rfl

/-- Without a caller that cancels, nothing is told to be cancelled. -/
theorem ne_cancelled (late : e.Late config timing) (uncancelled : timing.cancelAfter = none) :
    e ≠ .cancelled := by
  intro same
  cases late with
  | resolve error => cases error <;> cases same
  | stopped stops =>
    cases stops with
    | cancelled asked =>
      rw [uncancelled] at asked
      cases asked
    | timedOut limit => cases same

theorem timedOut_ne_cancelled (limit : String) :
    "Query resolution timed out after " ++ limit ++ " ms." ≠ "Query resolution was cancelled." := by
  intro same
  simpa using congrArg String.toList same

variable {config' : Config} {timing' : Timing} {e' : ExecutionError}

/-- Failures of one category are told alike, unless it is that of cancellations. -/
theorem userFacing_eq (late : e.Late config timing) (late' : e'.Late config' timing')
    (category : e.category = e'.category) (other : e.category ≠ .cancelled) :
    e.userFacing = e'.userFacing := by
  rw [late.userFacing, late'.userFacing, ← category]
  cases known : e.category with
  | queryValidation => rfl
  | dataAccess => rfl
  | internal => rfl
  | cancelled => exact absurd known other

/-- With one limit, what is stopped is told alike exactly if it is stopped for the same reason. -/
theorem userFacing_eq_iff (late : e.Late config timing) (late' : e'.Late config' timing')
    (category : e.category = e'.category) (timeout : config.queryTimeout = config'.queryTimeout)
    (stopped : e.category = .cancelled) :
    e.userFacing = e'.userFacing ↔ (e = .cancelled ↔ e' = .cancelled) := by
  rw [late.userFacing, late'.userFacing, ← category, stopped, timeout]
  by_cases here : e = .cancelled <;> by_cases there : e' = .cancelled <;>
    simp [here, there, timedOut_ne_cancelled, (timedOut_ne_cancelled _).symm]

end ExecutionError.Late

/-- A document that is bound fails late. -/
theorem late_of_binds {schema : Schema} {document : Document} (binds : document.Binds schema)
    {connector : Connector} {config : Config} {timing : Timing} {e : ExecutionError}
    (failed : (executeDocument schema connector config timing document).outcome = .error e) :
    e.Late config timing := by
  obtain ⟨reads, asks⟩ := binds
  rw [executeDocument_of_asks asks] at failed
  rcases error_of_observe failed with ⟨error, -, rfl⟩ | stops
  · exact .resolve error
  · exact .stopped stops

/-- **The query alone decides whether it is at fault, before anything is read.** Let a schema be
built, and a document be given.

* If the document fails by a fault of the query with some store and some settings, it is rejected
  with the same error, and no read, whatever the store and the settings are.
* If binding fails, the query is at fault: no error of the schema or of the domain is returned.
* If the document is bound and then fails, the query is not at fault. What the sender is told is the
  same as for any other failure of this category of any query that is bound. Of executions that no
  caller cancels this category can be that of timeouts, which are told with the limit that is
  configured. Where a caller cancels, a cancellation and a timeout are of one category and are told
  apart. -/
theorem executeDocument_blame {declared : Declarations} {schema : Schema}
    (built : Schema.build declared = .ok schema) (document : Document) :
    (∀ connector config timing e,
      (executeDocument schema connector config timing document).outcome = .error e →
      e.isMalformedQuery → ∀ connector config timing,
        executeDocument schema connector config timing document = .rejected e) ∧
    (∀ root e, Selection.ofDocument document = .ok root → root.rootReads schema = .error e →
      e.isUserError ∧ (∀ reason, e ≠ .schema reason) ∧ ∀ error, e ≠ .domain error) ∧
    (document.Binds schema → ∀ connector config timing e,
      (executeDocument schema connector config timing document).outcome = .error e →
      e.isMalformedQuery = false ∧ (timing.cancelAfter = none → e ≠ .cancelled) ∧
      ∀ schema' document' connector' config' timing' e', document'.Binds schema' →
        (executeDocument schema' connector' config' timing' document').outcome = .error e' →
        e.category = e'.category →
        (e.category ≠ .cancelled → e.userFacing = e'.userFacing) ∧
        (config.queryTimeout = config'.queryTimeout →
          (timing.cancelAfter = none → timing'.cancelAfter = none →
            e.userFacing = e'.userFacing) ∧
          (e.category = .cancelled →
            (e.userFacing = e'.userFacing ↔ (e = .cancelled ↔ e' = .cancelled))))) := by
  refine ⟨fun connector config timing e failed malformed connector' config' timing' => ?_,
    fun root e _ failed => ?_, fun binds connector config timing e failed => ?_⟩
  · by_cases binds : document.Binds schema
    · have late := (late_of_binds binds failed).isMalformedQuery
      rw [malformed] at late
      cases late
    · obtain ⟨e', -, rejected⟩ := rejected_of_not_asks binds
      rw [rejected] at failed
      cases failed
      exact rejected connector' config' timing'
  · have user := Selection.isUserError_of_rootReads built failed
    refine ⟨user, fun reason same => ?_, fun error same => ?_⟩
    · rw [same] at user
      cases user
    · rw [same] at user
      cases user
  · have late := late_of_binds binds failed
    refine ⟨late.isMalformedQuery, late.ne_cancelled, ?_⟩
    intro schema' document' connector' config' timing' e' binds' failed' category
    have late' := late_of_binds binds' failed'
    refine ⟨late.userFacing_eq late' category, fun timeout => ⟨fun uncancelled uncancelled' => ?_,
      late.userFacing_eq_iff late' category timeout⟩⟩
    by_cases stopped : e.category = .cancelled
    · exact (late.userFacing_eq_iff late' category timeout stopped).mpr
        (iff_of_false (late.ne_cancelled uncancelled) (late'.ne_cancelled uncancelled'))
    · exact late.userFacing_eq late' category stopped

/-! ### A query for a root field that is not there -/

namespace Gallery

def work : ObjectType where
  name := "Work"
  table := "works"
  primaryKey := "id"
  scope := .always
  fields := [("id", .scalar ⟨"id", .int, .column "id"⟩)]

/-- Artists have their works, which come in the order of their keys. -/
def artist : ObjectType where
  name := "Artist"
  table := "artists"
  primaryKey := "id"
  scope := .always
  fields := [("id", .scalar ⟨"id", .int, .column "id"⟩), ("works", .link
    ⟨"works", .oneToMany, "Work", "id", "artist_id", false, some [⟨"id", .ascending⟩], []⟩)]

def artists : RootField := ⟨"artists", "Artist", .connection [⟨"id", .ascending⟩], []⟩

def declared : Declarations := ⟨[artist, work], [], [artists]⟩

def gallery : Schema := ⟨[("Artist", artist), ("Work", work)], [], [("artists", artists)]⟩

theorem built : Schema.build declared = .ok gallery := by cbv

/-- Asks for a root field that the schema does not have. -/
def painters : Document := ⟨⟨⟨rootName, none, []⟩, [.field ⟨"painters", none, []⟩ []]⟩, []⟩

/-- A store without tables rejects the query, so every store does so with the same error. -/
theorem executeDocument_blame_painters : Schema.build declared = .ok gallery ∧
    ∀ connector config timing, executeDocument gallery connector config timing painters =
      .rejected (.bind (.unsupportedField "painters" "Query" ["Query", "painters"])) :=
  ⟨built, (executeDocument_blame built painters).1 Memory.empty.connector .default .instant _
    (by cbv) rfl⟩

end Gallery

end GraphRead
