import GraphRead.Binding.Parts
/-!
Binding selections to types.

A record's fields are its attributes, its associations and `id`, which stands for the primary key
where no field has that name. An association is entered as a connection if it leads to many
records, else as a record, once per type that it reaches. Every step goes down to a child of the
selection, and resolving fragments never makes a selection deeper, so binding comes to an end.
-/

namespace GraphRead

/-- How a selection is entered. -/
inductive EntryPoint where
  | field
  | connection (order : Order)
  | edge
  deriving DecidableEq, Repr

namespace Selection

/-- What is wrong with the cursor of a page of a list: it has to have a value per column of the
order, and the name of a type at the end where records of several types are merged. -/
def cursorFault? (order : Order) (typed : Bool) (cursor : Cursor) : Option String :=
  let expected := order.length + if typed then 1 else 0
  if cursor.values.length ≠ expected then
    some ("expected " ++ toString expected ++ " values for `" ++ order.text ++ "`, got " ++
      toString cursor.values.length)
  else if typed && !(cursor.values.getLast?.bind Value.string?).isSome then
    some "the last value must name the type of the record"
  else none

/-- The page that a connection asks for, with a cursor that fits its order. -/
def boundPagination (s : Selection) (order : Order) (typed : Bool) (path : Path) :
    Except BindError Pagination := do
  let page ← s.pagination path
  match page.cursor?.bind (cursorFault? order typed) with
  | some reason => .error (.invalidCursor s.name reason path)
  | none => return page

/-- The fields that are answered without the data: they are left out. -/
def isElided (name : String) : Bool := name = typeName || name = "clientMutationId"

/-- The object types behind the target of a root field or an association. -/
def targetTypes (schema : Schema) (target : String) (path : Path) :
    Except BindError (List ObjectType) :=
  (schema.coveredTypes target).mapError fun _ => .typeNotFound target path

mutual

/-- Binds what is asked of a record of a type. -/
def bindField (schema : Schema) (type : ObjectType) (path : Path) (s : Selection) :
    Except BindError BoundField :=
  match _resolved : resolveFragments (appliesTo schema type.name path) path s with
  | .error e => .error e
  | .ok resolved => (bindItems schema type path resolved.children).map (BoundField.mk type)
termination_by (s.depth, 2, 0)
decreasing_by
  have := depth_resolveFragments_le _resolved
  have := childrenDepth_le_depth resolved
  rcases Nat.lt_or_eq_of_le (Nat.le_trans ‹_› ‹_›) with less | same
  · exact .left _ _ less
  · rw [same]; exact .right _ (.left _ _ (by omega))

/-- Binds the fields of a record one after the other. -/
def bindItems (schema : Schema) (type : ObjectType) (path : Path) :
    List (String × Selection) → Except BindError (List (String × BoundItem))
  | [] => .ok []
  | (key, child) :: rest => do
    let childPath := path.add key
    let item : Option BoundItem ← match type.field? child.name with
      | some (.scalar a) => do
        child.withoutArguments childPath
        pure (some (.scalar a))
      | some (.link l) => (bindLink schema l childPath child).map fun bound => some (.link bound)
      | none =>
        if child.name = "id" then do
          child.withoutArguments childPath
          pure (some .id)
        else if isElided child.name then pure none
        else .error (.unsupportedField child.name type.name childPath)
    let more ← bindItems schema type path rest
    return match item with
      | some bound => (key, bound) :: more
      | none => more
termination_by children => (childrenDepth children, 1, children.length)
decreasing_by
  · simp only [childrenDepth]
    rcases Nat.lt_or_ge (childrenDepth rest) (max (child.depth + 1) (childrenDepth rest))
      with less | same
    · exact .left _ _ less
    · have equal : childrenDepth rest = max (child.depth + 1) (childrenDepth rest) := by omega
      rw [← equal]
      exact .right _ (.right _ (by simp))
  · exact .left _ _ (depth_lt_childrenDepth List.mem_cons_self)

/-- Binds an association. -/
def bindLink (schema : Schema) (association : Association) (path : Path) (s : Selection) :
    Except BindError BoundLink :=
  if association.isMany then
    match association.order with
    | none =>
      .error (.schema ("one-to-many association `" ++ association.name ++
        "` has no declared order"))
    | some order => do
      let filter ← s.declaredFilter association.filters paginationArguments path
      let targets ← bindTargets schema (.connection order) association.target path s
      return ⟨association, filter, targets⟩
  else do
    let filter ← s.declaredFilter association.filters [] path
    let targets ← bindTargets schema .field association.target path s
    return ⟨association, filter, targets⟩
termination_by (s.depth, 6, 0)

/-- Binds a selection once per object type behind the name of a type or an interface. -/
def bindTargets (schema : Schema) (entry : EntryPoint) (target : String) (path : Path)
    (s : Selection) : Except BindError (List Target) := do
  let types ← targetTypes schema target path
  bindEach schema entry (decide (1 < types.length)) path s types
termination_by (s.depth, 5, 0)

/-- Binds a selection to every type of a list. -/
def bindEach (schema : Schema) (entry : EntryPoint) (typed : Bool) (path : Path) (s : Selection) :
    List ObjectType → Except BindError (List Target)
  | [] => .ok []
  | type :: rest => do
    let first ← bindTarget schema entry typed type path s
    return first :: (← bindEach schema entry typed path s rest)
termination_by types => (s.depth, 4, types.length)

/-- Binds a selection to one type, as it is entered. -/
def bindTarget (schema : Schema) (entry : EntryPoint) (typed : Bool) (type : ObjectType)
    (path : Path) (s : Selection) : Except BindError Target :=
  match entry with
  | .field => (bindField schema type path s).map .field
  | .connection order => (bindConnection schema order typed type path s).map .connection
  | .edge => (bindEdge schema type path s).map .edge
termination_by (s.depth, 3, 0)

/-- Binds what is asked of a list of records of a type. -/
def bindConnection (schema : Schema) (order : Order) (typed : Bool) (type : ObjectType)
    (path : Path) (s : Selection) : Except BindError BoundConnection := do
  let page ← s.boundPagination (order.withTiebreaker type.primaryKey) typed path
  match _resolved : resolveFragments always path s with
  | .error e => .error e
  | .ok resolved =>
    match _split : connectionParts type.name path resolved.children with
    | .error e => .error e
    | .ok ⟨none, pageInfo, count⟩ => return ⟨type, order, page, none, pageInfo, count, typed⟩
    | .ok ⟨some edges, pageInfo, count⟩ =>
      let bound ← bindEdge schema type (path.add "edges") edges
      return ⟨type, order, page, some bound, pageInfo, count, typed⟩
termination_by (s.depth, 2, 0)
decreasing_by
  have := depth_resolveFragments_le _resolved
  have := childrenDepth_le_depth resolved
  have := depth_connectionParts_lt _split rfl
  exact .left _ _ (by omega)

/-- Binds what is asked of an edge. -/
def bindEdge (schema : Schema) (type : ObjectType) (path : Path) (s : Selection) :
    Except BindError BoundEdge :=
  match _resolved : resolveFragments always path s with
  | .error e => .error e
  | .ok resolved =>
    match _split : edgeParts type.name path resolved.children with
    | .error e => .error e
    | .ok ⟨none, cursor⟩ => .ok ⟨type, none, cursor⟩
    | .ok ⟨some node, cursor⟩ => do
      let bound ← bindField schema type (path.add "node") node
      return ⟨type, some bound, cursor⟩
termination_by (s.depth, 2, 0)
decreasing_by
  have := depth_resolveFragments_le _resolved
  have := childrenDepth_le_depth resolved
  have := depth_edgeParts_lt _split rfl
  exact .left _ _ (by omega)

end

end Selection

end GraphRead
