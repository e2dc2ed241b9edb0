/-!
Readers: functions that take an item off the front of a list of symbols or refuse.

A reader that refuses takes nothing, so alternatives can be tried one after the other. `many`
repeats a reader that takes at least one symbol, until it refuses; the input gets shorter with
every item, so the repetition ends before it has run as often as the input has symbols.
-/

namespace GraphRead

/-- Takes an item off the front of a list of symbols, or refuses. -/
abbrev Reader (σ α : Type) := StateT (List σ) Option α

namespace Reader

variable {σ α : Type}

/-- Refuses whatever comes. -/
def refuse : Reader σ α := fun _ => none

/-- Takes one symbol that passes the test. -/
def satisfy (test : σ → Bool) : Reader σ σ
  | c :: rest => if test c then some (c, rest) else none
  | [] => none

/-- Takes one symbol and what it is turned into, if it is turned into something. -/
def token (view : σ → Option α) : Reader σ α
  | c :: rest => (view c).map fun item => (item, rest)
  | [] => none

/-- Takes the given symbols. -/
def word [DecidableEq σ] (symbols : List σ) : Reader σ Unit :=
  fun input =>
    if symbols.isPrefixOf input then some ((), input.drop symbols.length) else none

/-- The items of a reader that is repeated until it refuses, but at most so many times, and what
is left. -/
def repeated (item : Reader σ α) : Nat → List σ → List α × List σ
  | 0, input => ([], input)
  | times + 1, input =>
    match item input with
    | none => ([], input)
    | some (a, rest) =>
      let (more, last) := repeated item times rest
      (a :: more, last)

/-- Repeats a reader until it refuses. Where every item takes a symbol away there cannot be more
items than symbols, so the limit of `repeated` is never felt. -/
def many (item : Reader σ α) : Reader σ (List α) :=
  fun input => some (repeated item input.length input)

/-- Repeats a reader until it refuses, and wants at least one item. -/
def many1 (item : Reader σ α) : Reader σ (List α) := do
  let first ← item
  let more ← many item
  return first :: more

/-- The item if the reader takes it, else nothing. -/
def opt (item : Reader σ α) : Reader σ (Option α) := fun input =>
  match item input with
  | some (a, rest) => some (some a, rest)
  | none => some (none, input)

/-- The first reader, or the second where the first refuses. -/
def either (first second : Reader σ α) : Reader σ α := fun input =>
  match first input with
  | some result => some result
  | none => second input

/-- The item that the whole of the input is. -/
def whole (item : Reader σ α) (input : List σ) : Option α :=
  match item input with
  | some (a, []) => some a
  | _ => none

end Reader

end GraphRead
