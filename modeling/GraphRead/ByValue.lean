import GraphRead.Value.Order
/-!
Mappings from values. Values that are the same share an entry, however they are spelled, and the
entry keeps the spelling that came first.
-/

namespace GraphRead

/-- Pairs of a value and what is filed under it, at most one for each value. -/
abbrev ByValue (α : Type) := List (Value × α)

namespace ByValue

variable {α : Type}

/-- What is filed under a value. -/
def get? (entries : ByValue α) (key : Value) : Option α :=
  match entries with
  | [] => none
  | (k, a) :: rest => if k == key then some a else get? rest key

/-- Changes what is filed under a value; `f` is told what there is so far. -/
def alter (entries : ByValue α) (key : Value) (f : Option α → α) : ByValue α :=
  match entries with
  | [] => [(key, f none)]
  | (k, a) :: rest => if k == key then (k, f (some a)) :: rest else (k, a) :: alter rest key f

/-- Takes a value and what is filed under it out. -/
def erase (entries : ByValue α) (key : Value) : ByValue α :=
  match entries with
  | [] => []
  | (k, a) :: rest => if k == key then rest else (k, a) :: erase rest key

/-- Files the pairs of a list one after the other, so that the last one of a value stays. -/
def ofList (pairs : List (Value × α)) : ByValue α :=
  pairs.foldl (fun entries (key, a) => alter entries key fun _ => a) []

end ByValue

end GraphRead
