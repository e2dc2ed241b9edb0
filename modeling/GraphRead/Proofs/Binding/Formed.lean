import GraphRead.Proofs.Binding.WellKeyed
import GraphRead.Proofs.Resolve.Formed
/-!
What binding guarantees of its targets.

The targets of one position are bound from one selection, so they belong together
(`Schema.Together`): their types are types of the schema, and if they are lists they ask for the
same page of the declared order, with cursors that fit it. A record asks for its associations under
distinct keys, and all this holds of the targets of every association in turn
(`rootReads_formed`). The names in error messages are all that depends on the type.
-/

namespace GraphRead

/-- What the lists of one position have in common, whatever their types. -/
structure Shared where
  order : Order
  pagination : Pagination
  pageInfo : Option PageInfoRequest
  count : Bool
  cursors : Bool
  typed : Bool

namespace BoundConnection

/-- What a list has in common with the other lists of its position. -/
def shared (c : BoundConnection) : Shared :=
  ⟨c.order, c.pagination, c.pageInfo, c.count, c.needsCursors, c.typedCursors⟩

/-- The cursor of a page has a value for every column of its order. -/
def Fits (c : BoundConnection) : Prop :=
  ∀ cursor, c.pagination.cursor? = some cursor →
    Selection.cursorFault? c.effectiveOrder c.typedCursors cursor = none

/-- A cursor that fits has a value for each column, and one more where it names a type. -/
theorem Fits.length {c : BoundConnection} (fits : c.Fits) {cursor : Cursor}
    (given : c.pagination.cursor? = some cursor) :
    cursor.values.length = c.effectiveOrder.length + if c.typedCursors then 1 else 0 := by
  have none := fits cursor given
  unfold Selection.cursorFault? at none
  refine Decidable.byContradiction fun other => ?_
  rw [if_pos other] at none
  cases none

end BoundConnection

/-- The targets of one position: of types of the schema, one for each type, and lists that ask the
same or no lists. -/
structure Schema.Together (schema : Schema) (targets : List Target) : Prop where
  declared : ∀ target ∈ targets, target.type ∈ Keyed.values schema.types
  single : ∀ target ∈ targets, ∀ other ∈ targets, target.type = other.type → target = other
  alike : (∀ target ∈ targets, target.connection? = none) ∨
    ∃ shared : Shared, shared.typed = decide (1 < targets.length) ∧
      ∀ target ∈ targets, ∃ c, target = .connection c ∧ c.shared = shared ∧ c.Fits

/-- A record asks for its associations under distinct keys, and their targets are formed. -/
structure BoundField.Formed (together : List Target → Prop) (f : BoundField) : Prop where
  distinct : (f.links.map Prod.fst).Nodup
  grouped : ∀ key l, (key, l) ∈ f.links → together l.targets
  below : ∀ key l, (key, l) ∈ f.links → ∀ child ∈ l.targets, child.Formed together

theorem Target.Formed.of_record {together : List Target → Prop} {target : Target}
    (record : ∀ f, target.record? = some f → f.Formed together) : target.Formed together :=
  .intro (fun f asked => (record f asked).distinct) (fun f asked => (record f asked).grouped)
    fun f asked => (record f asked).below

namespace Selection

open Fallible

/-! ### Types -/

theorem mem_values_of_coveredTypes {schema : Schema} {name : String} {types : List ObjectType}
    (done : schema.coveredTypes name = .ok types) :
    ∀ type ∈ types, type ∈ Keyed.values schema.types := by
  have declared {name : String} {type : ObjectType}
      (found : Keyed.get? schema.types name = some type) : type ∈ Keyed.values schema.types :=
    List.mem_map.mpr ⟨(name, type), Keyed.mem_of_get? found, rfl⟩
  unfold Schema.coveredTypes at done
  split at done
  · rename_i type found
    cases done
    intro type' present
    rw [List.mem_singleton.mp present]
    exact declared found
  · split at done
    · rename_i face found
      generalize face.covered = covered at done
      clear found
      induction covered generalizing types with
      | nil =>
        cases pure_eq_ok.mp done
        intro type present
        cases present
      | cons first rest ih =>
        rw [List.mapM_cons] at done
        obtain ⟨type, here, done⟩ := bind_eq_ok.mp done
        obtain ⟨more, later, done⟩ := bind_eq_ok.mp done
        cases pure_eq_ok.mp done
        rw [List.forall_mem_cons]
        refine ⟨?_, ih later⟩
        unfold Schema.objectType at here
        split at here
        · rename_i found
          cases here
          exact declared found
        · cases here
    · cases done

/-! ### What the type of a target does not matter for -/

theorem connectionField_type {type : String} (other : String) {path : Path}
    {parts next : ConnectionParts} {key : String} {child : Selection}
    (done : connectionField type path parts key child = .ok next) :
    connectionField other path parts key child = .ok next := by
  unfold connectionField at done ⊢
  split at done
  · rename_i edges
    rw [if_pos edges]
    exact done
  · rename_i edges
    rw [if_neg edges]
    split at done
    · rename_i info
      rw [if_pos info]
      exact done
    · rename_i info
      rw [if_neg info]
      split at done
      · rename_i count
        rw [if_pos count]
        exact done
      · rename_i count
        rw [if_neg count]
        split at done
        · rename_i name
          rw [if_pos name]
          exact done
        · cases done

theorem connectionParts_type {type : String} (other : String) {path : Path}
    {children : List (String × Selection)} {parts : ConnectionParts}
    (done : connectionParts type path children = .ok parts) :
    connectionParts other path children = .ok parts := by
  unfold connectionParts at done ⊢
  generalize (⟨none, none, false⟩ : ConnectionParts) = before at done
  induction children generalizing before with
  | nil => exact done
  | cons entry rest ih =>
    rw [List.foldlM_cons] at done ⊢
    obtain ⟨next, step, done⟩ := bind_eq_ok.mp done
    exact bind_eq_ok.mpr ⟨next, connectionField_type other step, ih next done⟩

theorem edgeField_type {type : String} (other : String) {path : Path} {parts next : EdgeParts}
    {key : String} {child : Selection} (done : edgeField type path parts key child = .ok next) :
    edgeField other path parts key child = .ok next := by
  unfold edgeField at done ⊢
  split at done
  · rename_i node
    rw [if_pos node]
    exact done
  · rename_i node
    rw [if_neg node]
    split at done
    · rename_i cursor
      rw [if_pos cursor]
      exact done
    · rename_i cursor
      rw [if_neg cursor]
      split at done
      · rename_i name
        rw [if_pos name]
        exact done
      · cases done

theorem edgeParts_type {type : String} (other : String) {path : Path}
    {children : List (String × Selection)} {parts : EdgeParts}
    (done : edgeParts type path children = .ok parts) :
    edgeParts other path children = .ok parts := by
  unfold edgeParts at done ⊢
  generalize (⟨none, false⟩ : EdgeParts) = before at done
  induction children generalizing before with
  | nil => exact done
  | cons entry rest ih =>
    rw [List.foldlM_cons] at done ⊢
    obtain ⟨next, step, done⟩ := bind_eq_ok.mp done
    exact bind_eq_ok.mpr ⟨next, edgeField_type other step, ih next done⟩

/-! ### Edges and connections, taken apart -/

section Parts

variable {schema : Schema} {order : Order} {typed : Bool} {type : ObjectType} {path : Path}
  {s : Selection}

/-- A record is made of its fields, with the fragments that apply to its type. -/
theorem bindField_eq : bindField schema type path s = (do
    let resolved ← resolveFragments (appliesTo schema type.name path) path s
    let items ← bindItems schema type path resolved.children
    return ⟨type, items⟩) := by
  rw [bindField]
  split
  · rename_i e failed
    rw [failed]
    rfl
  · rename_i resolved isResolved
    rw [isResolved]
    show _ = Except.bind (bindItems schema type path resolved.children) _
    cases bindItems schema type path resolved.children <;> rfl

/-- An edge is made of its parts, one after the other. -/
theorem bindEdge_eq : bindEdge schema type path s = (do
    let resolved ← resolveFragments always path s
    let parts ← edgeParts type.name path resolved.children
    let node ← parts.node.mapM fun node => bindField schema type (path.add "node") node
    return ⟨type, node, parts.cursor⟩) := by
  rw [bindEdge]
  split
  · rename_i e failed
    rw [failed]
    rfl
  · rename_i resolved isResolved
    rw [isResolved]
    show _ = Except.bind (edgeParts type.name path resolved.children) _
    split
    · rename_i e failed
      rw [failed]
      rfl
    · rename_i cursor split
      rw [split]
      rfl
    · rename_i node cursor split
      rw [split]
      show _ = Except.bind (Except.bind (bindField schema type (path.add "node") node) _) _
      cases bindField schema type (path.add "node") node <;> rfl

/-- An edge is made of its parts, with the node bound to the type. -/
theorem bindEdge_ok {e : BoundEdge} (done : bindEdge schema type path s = .ok e) :
    ∃ resolved parts, resolveFragments always path s = .ok resolved ∧
      edgeParts type.name path resolved.children = .ok parts ∧ e.cursor = parts.cursor ∧
      e.type = type ∧ ∀ node, e.node = some node → ∃ asked, parts.node = some asked ∧
        bindField schema type (path.add "node") asked = .ok node := by
  rw [bindEdge_eq] at done
  obtain ⟨resolved, isResolved, done⟩ := bind_eq_ok.mp done
  obtain ⟨parts, isParts, done⟩ := bind_eq_ok.mp done
  obtain ⟨node, isNode, done⟩ := bind_eq_ok.mp done
  cases pure_eq_ok.mp done
  refine ⟨resolved, parts, isResolved, isParts, rfl, rfl, fun bound same => ?_⟩
  cases asked : parts.node with
  | none =>
    rw [asked] at isNode
    cases pure_eq_ok.mp isNode
    cases same
  | some inner =>
    rw [asked] at isNode
    obtain ⟨own, isBound, rfl⟩ := map_eq_ok.mp isNode
    cases same
    exact ⟨inner, rfl, isBound⟩

/-- A connection as it is made of its page and its parts, with the edges bound to the type. -/
structure ConnectionOf (schema : Schema) (order : Order) (typed : Bool) (type : ObjectType)
    (path : Path) (s : Selection) (parts : ConnectionParts) (c : BoundConnection) : Prop where
  split : ∃ resolved, resolveFragments always path s = .ok resolved ∧
    connectionParts type.name path resolved.children = .ok parts
  page : s.boundPagination (order.withTiebreaker type.primaryKey) typed path = .ok c.pagination
  ofType : c.type = type
  inOrder : c.order = order
  info : c.pageInfo = parts.pageInfo
  counted : c.count = parts.count
  tagged : c.typedCursors = typed
  edges : c.edges = none ∧ parts.edges = none ∨ ∃ asked bound, parts.edges = some asked ∧
    bindEdge schema type (path.add "edges") asked = .ok bound ∧ c.edges = some bound

/-- A connection is made of its page and its parts, one after the other. -/
theorem bindConnection_eq : bindConnection schema order typed type path s = (do
    let page ← s.boundPagination (order.withTiebreaker type.primaryKey) typed path
    let resolved ← resolveFragments always path s
    let parts ← connectionParts type.name path resolved.children
    let edges ← parts.edges.mapM fun edges => bindEdge schema type (path.add "edges") edges
    return ⟨type, order, page, edges, parts.pageInfo, parts.count, typed⟩) := by
  rw [bindConnection]
  refine congrArg (Except.bind _) (funext fun page => ?_)
  split
  · rename_i e failed
    rw [failed]
    rfl
  · rename_i resolved isResolved
    rw [isResolved]
    show _ = Except.bind (connectionParts type.name path resolved.children) _
    split
    · rename_i e failed
      rw [failed]
      rfl
    · rename_i info count split
      rw [split]
      rfl
    · rename_i edges info count split
      rw [split]
      show _ = Except.bind (Except.bind (bindEdge schema type (path.add "edges") edges) _) _
      cases bindEdge schema type (path.add "edges") edges <;> rfl

theorem bindConnection_ok {c : BoundConnection}
    (done : bindConnection schema order typed type path s = .ok c) :
    ∃ parts, ConnectionOf schema order typed type path s parts c := by
  rw [bindConnection_eq] at done
  obtain ⟨page, isPage, done⟩ := bind_eq_ok.mp done
  obtain ⟨resolved, isResolved, done⟩ := bind_eq_ok.mp done
  obtain ⟨parts, isParts, done⟩ := bind_eq_ok.mp done
  obtain ⟨edges, isEdges, done⟩ := bind_eq_ok.mp done
  cases pure_eq_ok.mp done
  refine ⟨parts, ⟨resolved, isResolved, isParts⟩, isPage, rfl, rfl, rfl, rfl, rfl, ?_⟩
  cases asked : parts.edges with
  | none =>
    rw [asked] at isEdges
    cases pure_eq_ok.mp isEdges
    exact .inl ⟨rfl, rfl⟩
  | some inner =>
    rw [asked] at isEdges
    obtain ⟨bound, isBound, rfl⟩ := map_eq_ok.mp isEdges
    exact .inr ⟨inner, bound, rfl, isBound, rfl⟩

theorem boundPagination_ok {page : Pagination}
    (done : s.boundPagination order typed path = .ok page) :
    s.pagination path = .ok page ∧
      ∀ cursor, page.cursor? = some cursor → cursorFault? order typed cursor = none := by
  unfold boundPagination at done
  obtain ⟨page', isPage, done⟩ := bind_eq_ok.mp done
  split at done
  · cases done
  · rename_i fits
    cases pure_eq_ok.mp done
    refine ⟨isPage, fun cursor same => ?_⟩
    rw [same] at fits
    exact fits

/-- Whatever the type, an edge asks for the cursor or does not. -/
theorem bindEdge_cursor {other : ObjectType} {e e' : BoundEdge}
    (done : bindEdge schema type path s = .ok e) (done' : bindEdge schema other path s = .ok e') :
    e.cursor = e'.cursor := by
  obtain ⟨resolved, parts, isResolved, isParts, cursor, -, -⟩ := bindEdge_ok done
  obtain ⟨resolved', parts', isResolved', isParts', cursor', -, -⟩ := bindEdge_ok done'
  rw [isResolved] at isResolved'
  cases isResolved'
  rw [edgeParts_type other.name isParts] at isParts'
  cases isParts'
  rw [cursor, cursor']

/-- Whatever the type, a connection asks for the same page. -/
theorem bindConnection_shared {other : ObjectType} {c c' : BoundConnection}
    (done : bindConnection schema order typed type path s = .ok c)
    (done' : bindConnection schema order typed other path s = .ok c') : c.shared = c'.shared := by
  obtain ⟨parts, made⟩ := bindConnection_ok done
  obtain ⟨parts', made'⟩ := bindConnection_ok done'
  obtain rfl : parts = parts' := by
    obtain ⟨resolved, isResolved, split⟩ := made.split
    obtain ⟨resolved', isResolved', split'⟩ := made'.split
    rw [isResolved] at isResolved'
    cases isResolved'
    rw [connectionParts_type other.name split] at split'
    exact Except.ok.inj split'
  have page : c.pagination = c'.pagination := by
    have pages := (boundPagination_ok made.page).1
    rw [(boundPagination_ok made'.page).1] at pages
    exact (Except.ok.inj pages).symm
  have edges : c.edges.any BoundEdge.cursor = c'.edges.any BoundEdge.cursor := by
    rcases made.edges with ⟨none, missing⟩ | ⟨asked, bound, there, isBound, some⟩
    · rcases made'.edges with ⟨none', -⟩ | ⟨_, _, there, -, -⟩
      · rw [none, none']
      · rw [missing] at there
        cases there
    · rcases made'.edges with ⟨-, missing⟩ | ⟨asked', bound', there', isBound', some'⟩
      · rw [missing] at there
        cases there
      · rw [there] at there'
        cases there'
        rw [some, some', Option.any_some, Option.any_some, bindEdge_cursor isBound isBound']
  rw [BoundConnection.shared, BoundConnection.shared, BoundConnection.needsCursors,
    BoundConnection.needsCursors, made.inOrder, made'.inOrder, page, made.info, made'.info,
    made.counted, made'.counted, edges, made.tagged, made'.tagged]

theorem bindConnection_fits {c : BoundConnection}
    (done : bindConnection schema order typed type path s = .ok c) : c.Fits := by
  obtain ⟨parts, made⟩ := bindConnection_ok done
  have fits := (boundPagination_ok made.page).2
  intro cursor same
  rw [BoundConnection.effectiveOrder, made.inOrder, made.ofType, made.tagged]
  exact fits cursor same

/-! ### The targets of a position -/

theorem bindField_type {f : BoundField} (done : bindField schema type path s = .ok f) :
    f.type = type := by
  unfold bindField at done
  split at done
  · cases done
  · obtain ⟨items, -, rfl⟩ := map_eq_ok.mp done
    rfl

/-- A target is of the type that it is bound to. -/
theorem bindTarget_type {entry : EntryPoint} {target : Target}
    (done : bindTarget schema entry typed type path s = .ok target) : target.type = type := by
  unfold bindTarget at done
  split at done
  · obtain ⟨f, bound, rfl⟩ := map_eq_ok.mp done
    exact bindField_type bound
  · obtain ⟨c, bound, rfl⟩ := map_eq_ok.mp done
    exact (bindConnection_ok bound).choose_spec.ofType
  · obtain ⟨e, bound, rfl⟩ := map_eq_ok.mp done
    obtain ⟨_, _, _, _, _, same, _⟩ := bindEdge_ok bound
    exact same

/-- Every target of a position is bound to one of the types. -/
theorem bindEach_ok {entry : EntryPoint} {types : List ObjectType} {targets : List Target}
    (done : bindEach schema entry typed path s types = .ok targets) :
    targets.map Target.type = types ∧ ∀ target ∈ targets, ∃ type ∈ types,
      bindTarget schema entry typed type path s = .ok target := by
  induction types generalizing targets with
  | nil =>
    rw [bindEach] at done
    cases done
    exact ⟨rfl, fun _ present => by cases present⟩
  | cons first rest ih =>
    rw [bindEach] at done
    obtain ⟨target, here, done⟩ := bind_eq_ok.mp done
    obtain ⟨more, later, done⟩ := bind_eq_ok.mp done
    cases pure_eq_ok.mp done
    obtain ⟨types, others⟩ := ih later
    refine ⟨by rw [List.map_cons, types, bindTarget_type here], ?_⟩
    rw [List.forall_mem_cons]
    refine ⟨⟨first, List.mem_cons_self, here⟩, fun target present => ?_⟩
    obtain ⟨type, known, bound⟩ := others target present
    exact ⟨type, List.mem_cons_of_mem _ known, bound⟩

/-- The targets of a position belong together. -/
theorem bindTargets_together {entry : EntryPoint} {name : String} {targets : List Target}
    (done : bindTargets schema entry name path s = .ok targets) : schema.Together targets := by
  rw [bindTargets] at done
  obtain ⟨types, isTypes, done⟩ := bind_eq_ok.mp done
  obtain ⟨same, each⟩ := bindEach_ok done
  refine ⟨fun target present => ?_, fun target present other known same => ?_, ?_⟩
  · obtain ⟨type, known, bound⟩ := each target present
    rw [bindTarget_type bound]
    exact mem_values_of_coveredTypes (mapError_eq_ok.mp isTypes) type known
  · obtain ⟨type, -, bound⟩ := each target present
    obtain ⟨type', -, bound'⟩ := each other known
    rw [bindTarget_type bound, bindTarget_type bound'] at same
    rw [same, bound'] at bound
    exact (Except.ok.inj bound).symm
  · have long : targets.length = types.length := by rw [← same, List.length_map]
    cases entry with
    | field =>
      refine .inl fun target present => ?_
      obtain ⟨type, -, bound⟩ := each target present
      rw [bindTarget] at bound
      obtain ⟨f, -, rfl⟩ := map_eq_ok.mp bound
      rfl
    | edge =>
      refine .inl fun target present => ?_
      obtain ⟨type, -, bound⟩ := each target present
      rw [bindTarget] at bound
      obtain ⟨f, -, rfl⟩ := map_eq_ok.mp bound
      rfl
    | connection order =>
      cases targets with
      | nil => exact .inl fun target present => by cases present
      | cons first rest =>
        obtain ⟨type, -, bound⟩ := each first List.mem_cons_self
        rw [bindTarget] at bound
        obtain ⟨c, isConnection, -⟩ := map_eq_ok.mp bound
        refine .inr ⟨c.shared, ?_, fun target present => ?_⟩
        · rw [long]
          exact (bindConnection_ok isConnection).choose_spec.tagged
        · obtain ⟨type', -, bound'⟩ := each target present
          rw [bindTarget] at bound'
          obtain ⟨c', isConnection', rfl⟩ := map_eq_ok.mp bound'
          exact ⟨c', rfl, bindConnection_shared isConnection' isConnection,
            bindConnection_fits isConnection'⟩

end Parts

/-! ### Everything that is bound is formed -/

section Formed

variable (schema : Schema)

/-- What a connection or an edge asks inside lies less deep. -/
theorem depth_lt_of_parts {s resolved asked : Selection} {path : Path}
    (isResolved : resolveFragments always path s = .ok resolved)
    (below : asked.depth < childrenDepth resolved.children) : asked.depth < s.depth := by
  have := depth_resolveFragments_le isResolved
  have := childrenDepth_le_depth resolved
  omega

theorem links_keys_sublist (type : ObjectType) (items : List (String × BoundItem)) :
    ((BoundField.links ⟨type, items⟩).map Prod.fst).Sublist (items.map Prod.fst) := by
  unfold BoundField.links
  induction items with
  | nil => exact .slnil
  | cons entry rest ih =>
    obtain ⟨key, item⟩ := entry
    cases item with
    | id => exact ih.cons key
    | scalar a => exact ih.cons key
    | link l => exact ih.cons_cons key

theorem mem_items {type : ObjectType} {items : List (String × BoundItem)} {key : String}
    {l : BoundLink} (linked : (key, l) ∈ BoundField.links ⟨type, items⟩) :
    (key, BoundItem.link l) ∈ items := by
  obtain ⟨⟨k, item⟩, present, same⟩ := List.mem_filterMap.mp linked
  cases item with
  | id => cases same
  | scalar a => cases same
  | link l' =>
    cases same
    exact present

/-- An association is bound, and then what follows it. -/
theorem bindItems_link {type : ObjectType} {path : Path} {key : String} {child : Selection}
    {rest : List (String × Selection)} {association : Association}
    (asked : type.field? child.name = some (.link association)) :
    bindItems schema type path ((key, child) :: rest) = do
      let l ← bindLink schema association (path.add key) child
      let more ← bindItems schema type path rest
      return (key, .link l) :: more := by
  rw [bindItems]
  simp only [asked]
  cases bindLink schema association (path.add key) child <;> rfl

/-- A bound item is that of its child, and only associations have targets. -/
theorem bindItems_cons {type : ObjectType} {path : Path} {key : String} {child : Selection}
    {rest : List (String × Selection)} {items : List (String × BoundItem)}
    (done : bindItems schema type path ((key, child) :: rest) = .ok items) :
    ∃ more, bindItems schema type path rest = .ok more ∧
      (items = more ∨ ∃ item, items = (key, item) :: more ∧ ∀ l, item = .link l →
        ∃ association, type.field? child.name = some (.link association) ∧
          bindLink schema association (path.add key) child = .ok l) := by
  rw [bindItems] at done
  split at done
  · rename_i a _
    obtain ⟨_, _, done⟩ := bind_eq_ok.mp done
    obtain ⟨item, same, done⟩ := bind_eq_ok.mp done
    cases pure_eq_ok.mp same
    obtain ⟨more, later, done⟩ := bind_eq_ok.mp done
    cases pure_eq_ok.mp done
    exact ⟨more, later, .inr ⟨.scalar a, rfl, fun _ same => by cases same⟩⟩
  · rename_i association found
    obtain ⟨item, isItem, done⟩ := bind_eq_ok.mp done
    obtain ⟨bound, isBound, rfl⟩ := map_eq_ok.mp isItem
    obtain ⟨more, later, done⟩ := bind_eq_ok.mp done
    cases pure_eq_ok.mp done
    refine ⟨more, later, .inr ⟨.link bound, rfl, fun l same => ?_⟩⟩
    cases same
    exact ⟨association, found, isBound⟩
  · split at done
    · obtain ⟨_, _, done⟩ := bind_eq_ok.mp done
      obtain ⟨item, same, done⟩ := bind_eq_ok.mp done
      cases pure_eq_ok.mp same
      obtain ⟨more, later, done⟩ := bind_eq_ok.mp done
      cases pure_eq_ok.mp done
      exact ⟨more, later, .inr ⟨.id, rfl, fun _ same => by cases same⟩⟩
    · split at done
      · obtain ⟨item, same, done⟩ := bind_eq_ok.mp done
        cases pure_eq_ok.mp same
        obtain ⟨more, later, done⟩ := bind_eq_ok.mp done
        cases pure_eq_ok.mp done
        exact ⟨more, later, .inl rfl⟩
      · cases done

/-- An association is bound by binding its targets. -/
theorem bindLink_ok {association : Association} {path : Path} {s : Selection} {l : BoundLink}
    (done : bindLink schema association path s = .ok l) :
    ∃ entry, bindTargets schema entry association.target path s = .ok l.targets := by
  rw [bindLink] at done
  split at done
  · split at done
    · cases done
    · rename_i order _
      obtain ⟨filter, _, done⟩ := bind_eq_ok.mp done
      obtain ⟨targets, isTargets, done⟩ := bind_eq_ok.mp done
      cases pure_eq_ok.mp done
      exact ⟨.connection order, isTargets⟩
  · obtain ⟨filter, _, done⟩ := bind_eq_ok.mp done
    obtain ⟨targets, isTargets, done⟩ := bind_eq_ok.mp done
    cases pure_eq_ok.mp done
    exact ⟨.field, isTargets⟩

/-- Binding a record from a selection that is less deep gives formed targets. -/
def FieldsFormed (depth : Nat) : Prop :=
  ∀ s : Selection, s.depth < depth → s.WellKeyed → ∀ type path f,
    bindField schema type path s = .ok f → f.Formed schema.Together

variable {schema} {depth : Nat} (below : FieldsFormed schema depth)

include below

theorem bindEdge_formed {type : ObjectType} {path : Path} {s : Selection} (lower : s.depth ≤ depth)
    (keyed : s.WellKeyed) {e : BoundEdge} (done : bindEdge schema type path s = .ok e)
    {f : BoundField} (asked : e.node = some f) : f.Formed schema.Together := by
  obtain ⟨resolved, parts, isResolved, split, -, -, node⟩ := bindEdge_ok done
  obtain ⟨inner, there, isBound⟩ := node f asked
  have own := edgeParts_wellKeyed (fun entry present =>
    (resolveFragments_wellKeyed keyed isResolved).child present) split inner there
  have deeper := depth_lt_of_parts isResolved (depth_edgeParts_lt split there)
  exact below inner (Nat.lt_of_lt_of_le deeper lower) own _ _ f isBound

/-- The targets of a position are formed. -/
theorem bindTargets_formed {entry : EntryPoint} {name : String} {path : Path} {s : Selection}
    (lower : s.depth < depth) (keyed : s.WellKeyed) {targets : List Target}
    (done : bindTargets schema entry name path s = .ok targets) :
    ∀ target ∈ targets, target.Formed schema.Together := by
  rw [bindTargets] at done
  obtain ⟨types, _, done⟩ := bind_eq_ok.mp done
  intro target present
  obtain ⟨type, -, bound⟩ := (bindEach_ok done).2 target present
  refine .of_record fun f asked => ?_
  unfold bindTarget at bound
  split at bound
  · obtain ⟨own, isBound, rfl⟩ := map_eq_ok.mp bound
    cases asked
    exact below s lower keyed _ _ f isBound
  · obtain ⟨c, isBound, rfl⟩ := map_eq_ok.mp bound
    obtain ⟨parts, made⟩ := bindConnection_ok isBound
    rcases made.edges with ⟨none, -⟩ | ⟨edges, e, there, isEdge, some⟩
    · rw [Target.record?, BoundConnection.node, none] at asked
      cases asked
    · rw [Target.record?, BoundConnection.node, some] at asked
      obtain ⟨resolved, isResolved, split⟩ := made.split
      have own := connectionParts_wellKeyed (fun entry present =>
        (resolveFragments_wellKeyed keyed isResolved).child present) split edges there
      have deeper := depth_lt_of_parts isResolved (depth_connectionParts_lt split there)
      exact bindEdge_formed below (Nat.le_of_lt (Nat.lt_trans deeper lower)) own isEdge asked
  · obtain ⟨e, isEdge, rfl⟩ := map_eq_ok.mp bound
    exact bindEdge_formed below (Nat.le_of_lt lower) keyed isEdge asked

/-- Items are bound under the keys of their children, and the targets of associations are formed. -/
theorem bindItems_formed {type : ObjectType} {path : Path} {children : List (String × Selection)}
    (lower : childrenDepth children ≤ depth) (keyed : ∀ entry ∈ children, entry.2.WellKeyed)
    {items : List (String × BoundItem)}
    (done : bindItems schema type path children = .ok items) :
    (items.map Prod.fst).Sublist (children.map Prod.fst) ∧ ∀ key l, (key, .link l) ∈ items →
      schema.Together l.targets ∧ ∀ child ∈ l.targets, child.Formed schema.Together := by
  induction children generalizing items with
  | nil =>
    rw [bindItems] at done
    cases done
    exact ⟨.slnil, fun _ _ present => by cases present⟩
  | cons entry rest ih =>
    obtain ⟨key, child⟩ := entry
    simp only [childrenDepth] at lower
    obtain ⟨more, later, shape⟩ := bindItems_cons schema done
    obtain ⟨listed, others⟩ := ih (by omega)
      (fun entry present => keyed entry (List.mem_cons_of_mem _ present)) later
    rcases shape with rfl | ⟨item, rfl, made⟩
    · exact ⟨listed.cons key, others⟩
    · refine ⟨listed.cons_cons key, fun k l present => ?_⟩
      rcases List.mem_cons.mp present with here | there
      · cases here
        obtain ⟨association, -, isBound⟩ := made l rfl
        obtain ⟨entry, isTargets⟩ := bindLink_ok schema isBound
        have deeper : child.depth < depth := by omega
        exact ⟨bindTargets_together isTargets, bindTargets_formed below deeper
          (keyed (key, child) List.mem_cons_self) isTargets⟩
      · exact others k l there

omit below

/-- The associations of a bound record have distinct keys and formed targets, however deep the
selection is. -/
theorem fieldsFormed (schema : Schema) (depth : Nat) : FieldsFormed schema depth := by
  induction depth with
  | zero => exact fun s lower => absurd lower (Nat.not_lt_zero _)
  | succ depth ih =>
    intro s lower keyed type path f done
    rw [bindField] at done
    split at done
    · cases done
    · rename_i resolved isResolved
      obtain ⟨items, isItems, rfl⟩ := map_eq_ok.mp done
      have own := resolveFragments_wellKeyed keyed isResolved
      have deeper := depth_resolveFragments_le isResolved
      have children := childrenDepth_le_depth resolved
      obtain ⟨listed, each⟩ := bindItems_formed ih (by omega)
        (fun entry present => own.child present) isItems
      exact ⟨own.distinct.sublist ((links_keys_sublist type items).trans listed),
        fun key l linked => (each key l (mem_items linked)).1,
        fun key l linked => (each key l (mem_items linked)).2⟩

/-! ### Root fields -/

theorem bindRoot_targets {key : String} {s : Selection} {read : RootRead}
    (done : bindRoot schema key s = .ok read) :
    ∃ entry name path, bindTargets schema entry name path s = .ok read.targets := by
  unfold bindRoot at done
  dsimp only at done
  split at done
  · cases done
  · rename_i root _
    split at done
    · rename_i order _
      obtain ⟨filter, _, done⟩ := bind_eq_ok.mp done
      obtain ⟨targets, isTargets, done⟩ := bind_eq_ok.mp done
      cases pure_eq_ok.mp done
      exact ⟨_, _, _, isTargets⟩
    · obtain ⟨id, _, done⟩ := bind_eq_ok.mp done
      obtain ⟨filter, _, done⟩ := bind_eq_ok.mp done
      obtain ⟨targets, isTargets, done⟩ := bind_eq_ok.mp done
      cases pure_eq_ok.mp done
      exact ⟨_, _, _, isTargets⟩

theorem bindRoot_key {key : String} {s : Selection} {read : RootRead}
    (done : bindRoot schema key s = .ok read) : read.key = key := by
  unfold bindRoot at done
  dsimp only at done
  split at done
  · cases done
  · split at done
    · obtain ⟨_, _, done⟩ := bind_eq_ok.mp done
      obtain ⟨_, _, done⟩ := bind_eq_ok.mp done
      cases pure_eq_ok.mp done
      rfl
    · obtain ⟨_, _, done⟩ := bind_eq_ok.mp done
      obtain ⟨_, _, done⟩ := bind_eq_ok.mp done
      obtain ⟨_, _, done⟩ := bind_eq_ok.mp done
      cases pure_eq_ok.mp done
      rfl

/-- Root fields are read under distinct keys. -/
theorem rootReads_keys_nodup {root : Selection} (keyed : root.WellKeyed) {reads : List RootRead}
    (done : root.rootReads schema = .ok reads) : (reads.map RootRead.key).Nodup := by
  unfold rootReads at done
  obtain ⟨resolved, isResolved, isReads⟩ := bind_eq_ok.mp done
  clear done
  have distinct := (resolveRoot_wellKeyed root keyed isResolved).distinct.sublist
    (List.filter_sublist.map _ :
      ((resolved.children.filter fun entry => entry.2.name ≠ typeName).map Prod.fst).Sublist _)
  dsimp only at isReads
  generalize (resolved.children.filter fun entry => entry.2.name ≠ typeName) = asked
    at isReads distinct
  suffices same : reads.map RootRead.key = asked.map Prod.fst by
    rw [same]
    exact distinct
  clear distinct
  induction asked generalizing reads with
  | nil =>
    cases pure_eq_ok.mp isReads
    rfl
  | cons entry rest ih =>
    rw [List.mapM_cons] at isReads
    obtain ⟨read, here, done⟩ := bind_eq_ok.mp isReads
    obtain ⟨more, later, done⟩ := bind_eq_ok.mp done
    cases pure_eq_ok.mp done
    rw [List.map_cons, List.map_cons, bindRoot_key here, ih later]

/-- The targets of every root field belong together and are formed. -/
theorem rootReads_formed {root : Selection} (keyed : root.WellKeyed) {reads : List RootRead}
    (done : root.rootReads schema = .ok reads) :
    ∀ read ∈ reads, schema.Together read.targets ∧
      ∀ target ∈ read.targets, target.Formed schema.Together := by
  unfold rootReads at done
  obtain ⟨resolved, isResolved, isReads⟩ := bind_eq_ok.mp done
  clear done
  have own := resolveRoot_wellKeyed root keyed isResolved
  have each : ∀ entry ∈ resolved.children.filter fun entry => entry.2.name ≠ typeName,
      entry.2.WellKeyed := fun entry present => own.child (List.mem_filter.mp present).1
  dsimp only at isReads
  generalize (resolved.children.filter fun entry => entry.2.name ≠ typeName) = asked
    at isReads each
  induction asked generalizing reads with
  | nil =>
    cases pure_eq_ok.mp isReads
    exact fun _ present => nomatch present
  | cons entry rest ih =>
    rw [List.mapM_cons] at isReads
    obtain ⟨read, here, done⟩ := bind_eq_ok.mp isReads
    obtain ⟨more, later, done⟩ := bind_eq_ok.mp done
    cases pure_eq_ok.mp done
    rw [List.forall_mem_cons]
    refine ⟨?_, ih later fun entry present => each entry (List.mem_cons_of_mem _ present)⟩
    obtain ⟨_, _, _, isTargets⟩ := bindRoot_targets here
    exact ⟨bindTargets_together isTargets, bindTargets_formed (fieldsFormed schema _)
      (Nat.lt_succ_self _) (each entry List.mem_cons_self) isTargets⟩

end Formed

end Selection

end GraphRead
