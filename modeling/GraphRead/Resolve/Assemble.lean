import GraphRead.Resolve.Children
import GraphRead.Resolve.Merge
/-!
Assembling: putting the children of a level into the records of their parents.

For every association of a record there are the outputs of its children, one for each type. Each
record gets the children that join it, merged to a page or to a single record. A record whose
local value is null has no children.
-/

namespace GraphRead

/-- The counts of some outputs, added up by the values of the join column. -/
def groupedCounts (outputs : List Output) : ByValue Nat :=
  outputs.foldl (fun counts output =>
    match output.tally with
    | .grouped groups =>
      groups.foldl (fun counts (key, n) => counts.alter key fun sum => sum.getD 0 + n) counts
    | _ => counts) []

/-- The counts of some outputs that were not counted by parent, added up. -/
def totalCount (outputs : List Output) : Nat :=
  outputs.foldl (fun total output =>
    match output.tally with
    | .total n => total + n
    | _ => total) 0

/-- What an association answers for one record. -/
def linkAnswer (position : Path) (l : BoundLink) (counts : ByValue Nat) (v : Value)
    (children : List Fetched) : Except ResolveError (Answer Record) :=
  if l.association.isMany then
    .ok (.many (mergeMany children (l.targets.head?.bind Target.connection?)
      ((counts.get? v).getD 0)))
  else
    let required := if !l.association.nullable && !v.isNull then some v else none
    (mergeOne children position required).map .one

/-- What an association answers for each of some records, who are served in their order. -/
def linkAnswers (position : Path) (l : BoundLink) (counts : ByValue Nat) (index : ChildIndex) :
    List Value → Except ResolveError (List (Answer Record))
  | [] => .ok []
  | v :: rest => do
    let (children, index) := if v.isNull then ([], index) else index.take v
    let answer ← linkAnswer position l counts v children
    return answer :: (← linkAnswers position l counts index rest)

namespace Fetched

/-- Adds the answer of an association to a record. -/
def attach (key : String) (r : Fetched) (answer : Answer Record) : Fetched :=
  { r with record := { r.record with links := r.record.links ++ [(key, answer)] } }

end Fetched

/-- Adds the answers of an association to the records of a level, from the outputs of its
children. -/
def attachLink (position : Path) (key : String) (l : BoundLink) (children : List Output)
    (records : List Fetched) : Except ResolveError (List Fetched) := do
  let values := records.map (joinValue l.association.localColumn)
  let index := ChildIndex.build (children.flatMap Output.records)
    (values.filter fun v => !v.isNull)
  let answers ← linkAnswers (position.add key) l (groupedCounts children) index values
  return List.zipWith (Fetched.attach key) records answers

/-- Adds the answers of some associations to the records of a position. The outputs of all their
children are given under the keys of the associations. -/
def attachLinks (position : Path) (children : List (String × Output)) :
    List (String × BoundLink) → List Fetched → Except ResolveError (List Fetched)
  | [], records => .ok records
  | (key, l) :: rest, records => do
    let mine := children.filterMap fun (k, output) => if k = key then some output else none
    let records ← attachLink position key l mine records
    attachLinks position children rest records

/-- Completes the output of a target with the outputs of its children. -/
def assemble (position : Path) (target : Target) (children : List (String × Output))
    (output : Output) : Except ResolveError Output :=
  match target.record? with
  | none => .ok output
  | some f => (attachLinks position children f.links output.records).map fun records =>
      { output with records }

end GraphRead
