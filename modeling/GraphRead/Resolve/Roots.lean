import GraphRead.Resolve.Level
/-!
Resolving the root fields of a query.

All root fields are resolved in one pass, so that their reads on the same level run together. The
lookup of a single record asks for two rows of each type, which is enough to tell that there is
more than one.
-/

namespace GraphRead

/-- How many rows of a type the lookup of a single record asks for. -/
def lookupLimit : Nat := 2

namespace RootRead

/-- The position of a root field. -/
def position (read : RootRead) : Path := Path.add [rootName] read.key

/-- The read of one type for a root field. -/
def task (read : RootRead) (target : Target) : Task :=
  { position := read.position
    target
    plan := match read.kind with
      | .many => .compile target read.filter none none
      | .single id =>
        .compile target (.allOf [read.filter, .equals target.type.primaryKey id]) none
          (some lookupLimit) }

/-- The reads of a root field, one for each type. -/
def tasks (read : RootRead) : Except ResolveError (List Task) := do
  checkOrders read.position read.targets
  return read.targets.map read.task

/-- What a root field answers with, from the completed outputs of its types. -/
def answer (read : RootRead) (outputs : List Output) : Except ResolveError (Answer Record) :=
  let records := outputs.flatMap Output.records
  match read.kind with
  | .single _ => (mergeOne records read.position none).map .one
  | .many => .ok (.many (mergeMany records (read.targets.head?.bind Target.connection?)
      (totalCount outputs)))

end RootRead

/-- What root fields answer with. Each of them takes its outputs from the front of the list. -/
def rootAnswers : List RootRead → List Output → Except ResolveError (List (Answer Record))
  | [], _ => .ok []
  | read :: rest, outputs => do
    let answer ← read.answer (outputs.take read.targets.length)
    return answer :: (← rootAnswers rest (outputs.drop read.targets.length))

/-- Resolves root fields together. -/
def resolveReads (connector : Connector) (maxBindValues : Option Nat) (completion : Completion)
    (reads : List RootRead) : Resolution Response :=
  match reads.mapM RootRead.tasks with
  | .error e => ⟨[], .error e⟩
  | .ok tasks =>
    let found := resolveLevel connector maxBindValues completion 0 tasks.flatten
    ⟨found.levels, do
      let answers ← rootAnswers reads (← found.outcome)
      return Keyed.ofList ((reads.map RootRead.key).zip answers)⟩

end GraphRead
