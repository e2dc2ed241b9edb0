import GraphRead.Document.Selection
/-!
Building selections from documents.

Fields are merged as they come. A fragment is expanded where it is spread and filed under its type
condition; while it is being expanded it is taken out of the fragments that can be spread, so a
fragment that leads back to itself is noticed, and the expansion ends.
-/

namespace GraphRead.Selection

/-- The first argument name that an earlier argument has too. -/
def repeatedArgument? (seen : List String) : List (String × Value) → Option String
  | [] => none
  | (name, _) :: rest =>
    if seen.contains name then some name else repeatedArgument? (name :: seen) rest

/-- A field without children. Its arguments have different names. -/
def ofHead (path : Path) (head : FieldHead Value) : Except QueryError Selection :=
  match repeatedArgument? [] head.arguments with
  | some argument => .error ⟨path, .duplicateArgument argument⟩
  | none => .ok ⟨head.name, head.aliasName, head.arguments, [], []⟩

/-- The selection after a change, or the query's fault at a path. -/
def Change.orFault (change : Change) (path : Path) : Except QueryError Selection :=
  change.result.mapError fun field => ⟨path, .duplicateField field⟩

/-- Adds the items of a selection set to a selection. `fragments` are all fragments of the
document, and `available` those that are not being expanded around these items. -/
def fill (fragments available : Keyed Fragment) (path : Path) (target : Selection) :
    List (Item Value) → Except QueryError Selection
  | [] => .ok target
  | .field head items :: rest => do
    let childPath := path.add head.outputKey
    let child ← fill fragments available childPath (← ofHead childPath head) items
    let target ← (target.push child).orFault childPath
    fill fragments available path target rest
  | .spread name :: rest =>
    if Keyed.hasKey fragments name then
      match _found : Keyed.get? available name with
      | none => .error ⟨path, .fragmentCycle name⟩
      | some fragment => do
        let expanded ←
          fill fragments (Keyed.erase available name) path (named fragment.condition) fragment.items
        fill fragments available path (target.pushFragment fragment.condition expanded) rest
    else .error ⟨path, .unknownFragment name⟩
  | .inline (some condition) items :: rest => do
    let expanded ← fill fragments available path (named condition) items
    fill fragments available path (target.pushFragment condition expanded) rest
  | .inline none items :: rest => do
    let target ← fill fragments available path target items
    fill fragments available path target rest
termination_by items => (available.length, sizeOf items)
decreasing_by
  · exact .right _ (by simp only [List.cons.sizeOf_spec, Item.field.sizeOf_spec]; omega)
  · exact .right _ (by simp only [List.cons.sizeOf_spec]; omega)
  · have := Keyed.length_erase_of_get? _found
    exact .left _ _ (by omega)
  · exact .right _ (by simp only [List.cons.sizeOf_spec]; omega)
  · exact .right _ (by simp only [List.cons.sizeOf_spec, Item.inline.sizeOf_spec]; omega)
  · exact .right _ (by simp only [List.cons.sizeOf_spec]; omega)
  · exact .right _ (by simp only [List.cons.sizeOf_spec, Item.inline.sizeOf_spec]; omega)
  · exact .right _ (by simp only [List.cons.sizeOf_spec]; omega)

/-- The selection of a field whose items may spread some fragments. -/
def ofField (fragments : Keyed Fragment) (field : WrittenField) : Except QueryError Selection := do
  let path : Path := [field.head.name]
  fill fragments fragments path (← ofHead path field.head) field.items

/-- The selection of a document. -/
def ofDocument (document : Document) : Except QueryError Selection :=
  ofField document.fragments document.root

end GraphRead.Selection
