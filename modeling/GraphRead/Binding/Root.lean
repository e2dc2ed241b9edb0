import GraphRead.Binding.Bind
/-!
Binding the query type: every field of it becomes a read.

Fragments at the top of a query can only be conditioned on the query type itself, so all of them
are taken over. A connection reads many records, and a single lookup the record of its `id`
argument, which has to be there.
-/

namespace GraphRead.Selection

/-- The path of the query type. -/
def rootPath : Path := [rootName]

mutual

/-- A selection of the query type with its fragments taken over. -/
def resolveRoot : Selection → Except BindError Selection
  | ⟨name, aliasName, arguments, children, fragments⟩ =>
    spliceConditions ⟨name, aliasName, arguments, children, []⟩ fragments

/-- Takes over fragments under their conditions, each of which has to be the query type. -/
def spliceConditions (target : Selection) :
    List (String × List Selection) → Except BindError Selection
  | [] => .ok target
  | (condition, members) :: rest =>
    if condition = rootName then do
      let target ← spliceMembers target members
      spliceConditions target rest
    else .error (.typeNotFound condition rootPath)

/-- Takes over fragments one after the other, each with the fragments inside it. -/
def spliceMembers (target : Selection) : List Selection → Except BindError Selection
  | [] => .ok target
  | member :: rest => do
    let resolved ← resolveRoot member
    let target ← (target.splice resolved).result.mapError fun field =>
      .query ⟨rootPath, .duplicateField field⟩
    spliceMembers target rest

end

/-- The primary key that a single lookup asks for. -/
def lookupKey (s : Selection) (root : RootField) (path : Path) : Except BindError Value :=
  let reason := "`" ++ root.name ++ "` requires a non-null `id`"
  let missing := .error (.invalidArgument "id" reason path)
  match s.argument? "id" with
  | none => missing
  | some id => if id.isNull then missing else .ok id

/-- Binds a field of the query type. -/
def bindRoot (schema : Schema) (key : String) (s : Selection) : Except BindError RootRead := do
  let path := Path.add rootPath key
  match Keyed.get? schema.roots s.name with
  | none => .error (.unsupportedField s.name rootName path)
  | some root =>
    match root.kind with
    | .connection order => do
      let filter ← s.declaredFilter root.filters paginationArguments path
      let targets ← bindTargets schema (.connection order) root.target path s
      return ⟨key, filter, targets, .many⟩
    | .single => do
      let id ← s.lookupKey root path
      let filter ← s.declaredFilter root.filters ["id"] path
      let targets ← bindTargets schema .field root.target path s
      return ⟨key, filter, targets, .single id⟩

/-- The reads that a query asks for, in the order of its fields. -/
def rootReads (schema : Schema) (root : Selection) : Except BindError (List RootRead) := do
  let resolved ← resolveRoot root
  let asked := resolved.children.filter fun (_, child) => child.name ≠ typeName
  asked.mapM fun (key, child) => bindRoot schema key child

end GraphRead.Selection
