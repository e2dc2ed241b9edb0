import GraphRead.Resolve.Execute
/-!
Children: which keys the children of some records are read by, and which record each child belongs
to.

The children of a level are fetched for all parents together. `ChildIndex` deals them out again:
parents that share a value of the local column each get all children of that value, and once the
last of them has been served the index holds nothing of the value any more.
-/

namespace GraphRead

/-- The distinct values of a column that are not null, in the order of the first occurrence. The
column has to be there. -/
def joinKeys (records : List Fetched) (column : String) : Except DomainError (List Value) := do
  let values ← records.mapM fun r =>
    Attribute.fetch r.record.type.name r.record.get? column
  return Value.distinct (values.filter fun v => !v.isNull)

/-- The value that joins a record to its children. A column that is not there counts as null. -/
def joinValue (column : String) (r : Fetched) : Value := (r.record.get? column).getD .null

/-- Children by the value that joins them to their parents, and how many parents with each value
have still to be served. -/
structure ChildIndex where
  children : ByValue (List Fetched)
  pending : ByValue Nat

namespace ChildIndex

/-- Files a child under the value that joins it to its parents. -/
def file (children : ByValue (List Fetched)) (child : Fetched) : ByValue (List Fetched) :=
  match child.parentKey with
  | some key => children.alter key fun filed => filed.getD [] ++ [child]
  | none => children

/-- Children and the values of the parents that are to be served. -/
def build (children : List Fetched) (parents : List Value) : ChildIndex :=
  { children := children.foldl file []
    pending := parents.foldl (fun counts key => counts.alter key fun n => n.getD 0 + 1) [] }

/-- The children of a value. -/
def lookup (index : ChildIndex) (key : Value) : List Fetched := (index.children.get? key).getD []

/-- Serves a parent: its children, and the index after that. The children of a value are taken
out for the last parent that waits for them. -/
def take (index : ChildIndex) (key : Value) : List Fetched × ChildIndex :=
  match index.pending.get? key with
  | none => (index.lookup key, index)
  | some waiting =>
    let pending := index.pending.alter key fun _ => waiting - 1
    let children := if waiting ≤ 1 then index.children.erase key else index.children
    (index.lookup key, ⟨children, pending⟩)

end ChildIndex

end GraphRead
