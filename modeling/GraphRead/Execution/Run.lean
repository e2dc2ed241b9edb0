import GraphRead.Binding.Root
import GraphRead.Config
import GraphRead.Document.Build
import GraphRead.Execution.Error
import GraphRead.Graphql.Convert
import GraphRead.Resolve.Roots
import GraphRead.Resolve.Schedule
/-!
Executing queries: from the text of a query, a document or a selection to the response.

A query is built to a selection and bound to the schema before anything is read. The resolution of
its reads can be interrupted, by the timeout of the settings or by the caller. Then there is no
response, but some reads have been issued.
-/

namespace GraphRead

/-- The times of an execution in milliseconds: how long every read takes, and when the caller
cancels, zero standing for a call that is cancelled beforehand. -/
structure Timing where
  latency : Nat
  cancelAfter : Option Nat
  deriving DecidableEq, Repr

/-- Reads take no time, and nobody cancels. -/
def Timing.instant : Timing := ⟨0, none⟩

/-- What comes of a query, with the reads that were issued and the tasks of every level that was
executed. -/
structure Execution where
  outcome : Except ExecutionError Response
  reads : List Read
  levels : List (List Task)

namespace Execution

/-- A query that fails before anything is read. -/
def rejected (error : ExecutionError) : Execution := ⟨.error error, [], []⟩

end Execution

/-- The earlier of two moments at which something happens, and what happens there. Of two equal
moments the first counts. -/
def earlier {α : Type} : Option (Nat × α) → Option (Nat × α) → Option (Nat × α)
  | some (m, a), some (n, b) => if m ≤ n then some (m, a) else some (n, b)
  | some first, none => some first
  | none, second => second

/-- When and why a resolution that takes the given time is interrupted. -/
def interruption? (config : Config) (timing : Timing) (duration : Nat) :
    Option (Nat × ExecutionError) :=
  let cancelling := timing.cancelAfter.map fun time => (time, .cancelled)
  let timeout := config.queryTimeout.map fun time => (time, .timedOut time)
  (earlier cancelling timeout).filter fun (time, _) => time < duration

/-- What comes of a resolution in the given times. -/
def observe (connector : Connector) (config : Config) (timing : Timing)
    (resolution : Resolution Response) : Execution :=
  if timing.cancelAfter = some 0 then .rejected .cancelled
  else
    let size := config.maxBindValues
    let waves := wavesUntilFailure connector size
      (waves config.effectiveConcurrency resolution.levels)
    match interruption? config timing (waves.length * timing.latency) with
    | some (time, error) =>
      { outcome := .error error
        reads := waveReads size (startedWaves timing.latency time waves)
        levels := resolution.levels }
    | none =>
      { outcome := resolution.outcome.mapError .ofResolve
        reads :=
          if timing.latency = 0 then sequentialReads connector size resolution.levels.flatten
          else waveReads size waves
        levels := resolution.levels }

/-- Executes a selection of the query type. -/
def executeSelection (schema : Schema) (connector : Connector) (config : Config) (timing : Timing)
    (root : Selection) : Execution :=
  match root.rootReads schema with
  | .error e => .rejected (.ofBind e)
  | .ok reads =>
    observe connector config timing
      (resolveReads connector config.maxBindValues .inOrder reads)

/-- Executes a document. -/
def executeDocument (schema : Schema) (connector : Connector) (config : Config) (timing : Timing)
    (document : Document) : Execution :=
  match Selection.ofDocument document with
  | .error e => .rejected (.query e)
  | .ok root => executeSelection schema connector config timing root

/-- Executes an operation of a text in GraphQL with the values of its variables. -/
def executeGraphql (schema : Schema) (connector : Connector) (config : Config) (timing : Timing)
    (text : String) (operation : Option String) (supplied : List (String × Json)) : Execution :=
  match Graphql.document text operation supplied with
  | .error e => .rejected (.query e)
  | .ok document => executeDocument schema connector config timing document

end GraphRead
