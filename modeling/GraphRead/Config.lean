import GraphRead.Json.Basic
import GraphRead.Keyed
import GraphRead.Power
import GraphRead.Text.Blank
import GraphRead.Text.Digits
/-!
The settings of a resolution, and how they are read from the environment and from JSON.
-/

namespace GraphRead

/-- The settings of a resolution. -/
structure Config where
  /-- How many tasks of one level are under way at the same time. -/
  concurrencyLimit : Nat
  /-- How many keys of parents one read may hold. -/
  maxBindValues : Option Nat
  /-- After how many milliseconds a resolution is given up. -/
  queryTimeout : Option Nat
  deriving DecidableEq, Repr

namespace Config

/-- The settings where nothing else is said. -/
def default : Config := ⟨8, none, none⟩

/-- The limit that counts: at least one task is under way. -/
def effectiveConcurrency (config : Config) : Nat := max config.concurrencyLimit 1

/-- The least number that is too large for a setting. -/
def bound : Nat := pow2 64

/-- Reads a setting from a text: digits with an optional plus sign, and white space around. -/
def number? (text : String) : Option Nat :=
  let digits := match Text.trim text.toList with
    | '+' :: rest => rest
    | rest => rest
  (Digits.toNat? digits).filter fun n => n < bound

/-- Reads a setting of the environment that has to be positive. -/
def positive? (lookup : String → Option String) (name : String) : Option Nat :=
  ((lookup name).bind number?).filter fun n => 0 < n

/-- The settings that an environment names. What cannot be read counts as absent. -/
def ofLookup (lookup : String → Option String) : Config where
  concurrencyLimit := (positive? lookup "QUERY_CONCURRENCY_LIMIT").getD default.concurrencyLimit
  maxBindValues := positive? lookup "QUERY_BATCH_SIZE"
  queryTimeout := (lookup "QUERY_TIMEOUT_MS").bind number?

/-- Reads a setting from JSON. -/
def jsonNumber? : Json → Option Nat
  | .number (.integer n) => if 0 ≤ n ∧ n < bound then some n.toNat else none
  | _ => none

/-- Reads a setting from JSON that may be absent. -/
def jsonOption? : Json → Option (Option Nat)
  | .null => some none
  | json => (jsonNumber? json).map some

/-- Reads a setting that may be missing altogether. -/
def orDefault {α : Type} (read : Json → Option α) (missing : α) : Option Json → Option α
  | none => some missing
  | some json => read json

/-- Reads settings from three items of JSON, each of which may be missing. -/
def ofItems (limit size timeout : Option Json) : Option Config := do
  let limit ← orDefault jsonNumber? default.concurrencyLimit limit
  let size ← orDefault jsonOption? none size
  let timeout ← orDefault jsonOption? none timeout
  return ⟨limit, size, timeout⟩

/-- Reads settings from a JSON object, or from an array that has them in their order. -/
def ofJson? : Json → Option Config
  | .object members =>
    ofItems (Keyed.get? members "concurrencyLimit") (Keyed.get? members "maxBindValues")
      (Keyed.get? members "queryTimeout")
  | .array items =>
    if items.length ≤ 3 then ofItems items[0]? items[1]? items[2]? else none
  | _ => none

end Config

end GraphRead
