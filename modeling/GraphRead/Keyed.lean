/-!
Keyed lists: associations from text keys that remember the order in which their keys first came.

A keyed list is a list of pairs. Storing under a key that is present replaces its value and keeps
its place; a new key goes to the end. Every ordered mapping of the library is one of these, so the
order that answers show is part of the data.
-/

namespace GraphRead

/-- Pairs of a key and a value, in the order of the first occurrence of each key. -/
abbrev Keyed (α : Type) := List (String × α)

namespace Keyed

variable {α : Type}

/-- The value filed under a key. -/
def get? (entries : Keyed α) (key : String) : Option α :=
  match entries with
  | [] => none
  | (k, value) :: rest => if k = key then some value else get? rest key

/-- Whether anything is filed under a key. -/
def hasKey (entries : Keyed α) (key : String) : Bool := (get? entries key).isSome

/-- The keys in order. -/
def keys (entries : Keyed α) : List String := entries.map Prod.fst

/-- The values in the order of their keys. -/
def values (entries : Keyed α) : List α := entries.map Prod.snd

/-- Stores a value: in the place of an earlier one with the same key, else at the end. -/
def insert (entries : Keyed α) (key : String) (value : α) : Keyed α :=
  match entries with
  | [] => [(key, value)]
  | (k, old) :: rest => if k = key then (k, value) :: rest else (k, old) :: insert rest key value

/-- Takes a key and its value out. -/
def erase (entries : Keyed α) (key : String) : Keyed α :=
  match entries with
  | [] => []
  | (k, value) :: rest => if k = key then rest else (k, value) :: erase rest key

/-- Stores the pairs of a list one after the other, so that the last value of a key stays. -/
def ofList (pairs : List (String × α)) : Keyed α :=
  pairs.foldl (fun entries (key, value) => insert entries key value) []

/-- Whether two keyed lists with distinct keys hold equal values under the same keys, in any
order. -/
def sameEntries (same : α → α → Bool) (left right : Keyed α) : Bool :=
  left.length == right.length &&
    left.all fun (key, value) =>
      match get? right key with
      | some other => same value other
      | none => false

/-- Finding a key and taking it out leaves one entry less. -/
theorem length_erase_of_get? {entries : Keyed α} {key : String} {value : α}
    (found : get? entries key = some value) : (erase entries key).length + 1 = entries.length := by
  induction entries with
  | nil => simp [get?] at found
  | cons entry rest ih =>
    obtain ⟨k, v⟩ := entry
    by_cases same : k = key
    · simp [erase, same]
    · simp only [get?, same, if_false] at found
      simp [erase, same, ih found]

/-- A stored value is found again. -/
theorem get?_insert_self (entries : Keyed α) (key : String) (value : α) :
    get? (insert entries key value) key = some value := by
  induction entries with
  | nil => simp [insert, get?]
  | cons entry rest ih =>
    obtain ⟨k, v⟩ := entry
    by_cases same : k = key <;> simp [insert, get?, same, ih]

end Keyed

end GraphRead
