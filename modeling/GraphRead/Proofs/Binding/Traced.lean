import GraphRead.Proofs.Binding.Item
import GraphRead.Proofs.Binding.Origin
/-!
Bindings are traced back to what is asked.

Going down a query, what is bound at a position stays gathered from selections that are reached
there: from a record to its associations, and from a list to its edges and their nodes. So whatever
lies below a record that is bound has a page that was asked for (`Selection.Paged`), and if nothing
is bound, something that is asked is at fault (`Selection.fieldsTraced`). A schema that is built is
not: every association leads to something that is declared, and has an order if it needs one.
-/

namespace GraphRead.Selection

open Fallible

/-! ### The parts of lists and edges -/

/-- The edges of a list or the node of an edge are gathered from all that is asked of their name. -/
def NamedFrom (asked : Selection → Prop) (field : String) (there : Option Selection) : Prop :=
  ∀ s, there = some s → Form.filed.Gathered (fun v => asked v ∧ v.name = field) s

theorem Form.Gathered.named {asked : Selection → Prop} {field : String} {s : Selection}
    (gathered : Form.filed.Gathered (fun v => asked v ∧ v.name = field) s) : s.name = field := by
  obtain ⟨v, ⟨-, same⟩, head⟩ := gathered.origin
  exact (congrArg FieldHead.name head).symm.trans same

section Parts

variable {schema : Schema} {start here : Context} {top : Selection} {written : Selection → Prop}
  {path : Path}

/-- What is gathered under a key is gathered from what is asked of its name there. -/
theorem gathered_named {asked : Selection → Prop} {field key : String} {child : Selection}
    (called : child.name = field) (own : Form.filed.Gathered (Form.filed.Under asked key) child) :
    Form.filed.Gathered (fun v => Form.filed.Under asked key v ∧ v.name = field) child :=
  own.mono fun _ known same => ⟨known, same.trans called⟩

/-- What is gathered under a key is gathered from what is asked of its name, whatever the key. -/
theorem gathered_pooled {asked : Selection → Prop} {field key : String} {child : Selection}
    (called : child.name = field) (own : Form.filed.Gathered (Form.filed.Under asked key) child) :
    Form.filed.Gathered (fun v => asked v ∧ v.name = field) child :=
  own.mono fun _ known same => ⟨known.1, same.trans called⟩

/-- What is asked under a key and a name stands at one position where it is entered. -/
theorem Placed.under (placed : Placed schema start top here written) {name : String}
    {offer : Offer} {next : Context} (offered : here.offer? schema name = some offer)
    (enters : offer.Enters schema next) (key : String) :
    Placed schema start top next fun v =>
      Form.filed.Under (AskedOf schema here written) key v ∧ v.name = name :=
  placed.next offered enters (fun _ known => ⟨known.1.1, known.2⟩)
    (.inr ⟨key, fun _ known => known.1.2⟩)

/-- Invocations that are put together are gathered from what is asked of their name, and if they
cannot be put together they are at fault. -/
theorem mergeInto_gathered (placed : Placed schema start top here written) {field : String}
    {offer : Offer} (offered : here.offer? schema field = some offer)
    (pooled : offer.isPooled = true) {there : Option Selection} {child : Selection}
    (before : NamedFrom (AskedOf schema here written) field there)
    (own : Form.filed.Gathered (fun v => AskedOf schema here written v ∧ v.name = field) child) :
    Yields (Form.filed.Gathered fun v => AskedOf schema here written v ∧ v.name = field)
      (Fault schema start top) (mergeInto there child path) := by
  unfold mergeInto
  split
  · exact .ok own
  · rename_i old
    have there := before old rfl
    refine (there.merge own (there.named.trans own.named.symm)).mapError fun key unlike => ?_
    obtain ⟨v, w, ⟨⟨s, above, left⟩, name⟩, ⟨⟨t, above', right⟩, name'⟩, differ⟩ := unlike
    exact .inr (.inr (.pooled path (placed.meets s t above above') left right
      (name.trans name'.symm) (name ▸ offered) pooled differ))

theorem pageInfoField_faults (placed : Placed schema start top .pageInfo written) {key : String}
    {child : Selection}
    (own : Form.filed.Gathered (Form.filed.Under (AskedOf schema .pageInfo written) key) child)
    (asked : PageInfoRequest) :
    Yields (fun _ => True) (Fault schema start top) (pageInfoField path asked key child) := by
  unfold pageInfoField
  split
  · exact .ok trivial
  · rename_i notNext
    split
    · exact .ok trivial
    · rename_i notPrevious
      split
      · exact .ok trivial
      · rename_i notStart
        split
        · exact .ok trivial
        · rename_i notEnd
          split
          · exact .ok trivial
          · rename_i notType
            have missing : Context.pageInfo.offer? schema child.name = none := by
              simp [Context.offer?, notNext, notPrevious, notStart, notEnd, notType]
            exact .error (placed.missesField own (by simp) missing _)

theorem pageInfoRequest_faults (placed : Placed schema start top .pageInfo written) {s : Selection}
    (gathered : Form.filed.Gathered written s) :
    Yields (fun _ => True) (Fault schema start top) (pageInfoRequest path s) :=
  (resolveFragments_gathered placed (always_admits fun _ => trivial) path gathered).bind
    fun _ _ children => .foldlM trivial fun asked _ _ present =>
      pageInfoField_faults placed (children _ present) asked

theorem connectionField_gathered {type : ObjectType}
    (placed : Placed schema start top (.list type) written) {parts : ConnectionParts}
    {key : String} {child : Selection}
    (before : NamedFrom (AskedOf schema (.list type) written) "edges" parts.edges)
    (own : Form.filed.Gathered
      (Form.filed.Under (AskedOf schema (.list type) written) key) child) :
    Yields (fun next => NamedFrom (AskedOf schema (.list type) written) "edges" next.edges)
      (Fault schema start top) (connectionField type.name path parts key child) := by
  unfold connectionField
  split
  · rename_i edges
    refine (mergeInto_gathered placed rfl rfl before (gathered_pooled edges own)).bind
      fun merged _ both => .ok ?_
    rintro s same
    cases same
    exact both
  · rename_i notEdges
    split
    · rename_i info
      have offered : (Context.list type).offer? schema "pageInfo" = some (.fixed .pageInfo) := rfl
      exact (pageInfoRequest_faults (placed.under offered .fixed key)
        (gathered_named info own)).bind fun _ _ _ => .ok before
    · rename_i notInfo
      split
      · exact .ok before
      · rename_i notCount
        split
        · exact .ok before
        · rename_i notType
          have missing : (Context.list type).offer? schema child.name = none := by
            have others := not_or.mp notCount
            simp [Context.offer?, notEdges, notInfo, others, notType]
          exact .error (placed.missesField own (by simp) missing _)

theorem connectionParts_gathered {type : ObjectType}
    (placed : Placed schema start top (.list type) written) {children : List (String × Selection)}
    (gathered : Form.filed.GatheredUnder (AskedOf schema (.list type) written) children) :
    Yields (fun parts => NamedFrom (AskedOf schema (.list type) written) "edges" parts.edges)
      (Fault schema start top) (connectionParts type.name path children) :=
  .foldlM (fun _ none => nomatch none) fun _ before _ present =>
    connectionField_gathered placed before (gathered _ present)

theorem edgeField_gathered {type : ObjectType}
    (placed : Placed schema start top (.edge type) written) {parts : EdgeParts} {key : String}
    {child : Selection} (before : NamedFrom (AskedOf schema (.edge type) written) "node" parts.node)
    (own : Form.filed.Gathered
      (Form.filed.Under (AskedOf schema (.edge type) written) key) child) :
    Yields (fun next => NamedFrom (AskedOf schema (.edge type) written) "node" next.node)
      (Fault schema start top) (edgeField type.name path parts key child) := by
  unfold edgeField
  split
  · rename_i node
    refine (mergeInto_gathered placed rfl rfl before (gathered_pooled node own)).bind
      fun merged _ both => .ok ?_
    rintro s same
    cases same
    exact both
  · rename_i notNode
    split
    · exact .ok before
    · rename_i notCursor
      split
      · exact .ok before
      · rename_i notType
        have missing : (Context.edge type).offer? schema child.name = none := by
          simp [Context.offer?, notNode, notCursor, notType]
        exact .error (placed.missesField own (by simp) missing _)

theorem edgeParts_gathered {type : ObjectType}
    (placed : Placed schema start top (.edge type) written) {children : List (String × Selection)}
    (gathered : Form.filed.GatheredUnder (AskedOf schema (.edge type) written) children) :
    Yields (fun parts => NamedFrom (AskedOf schema (.edge type) written) "node" parts.node)
      (Fault schema start top) (edgeParts type.name path children) :=
  .foldlM (fun _ none => nomatch none) fun _ before _ present =>
    edgeField_gathered placed before (gathered _ present)

end Parts

/-! ### Targets -/

/-- What lies below a record has pages that were asked for. -/
def RecordTraced (schema : Schema) (start : Context) (top : Selection) (f : BoundField) : Prop :=
  ∀ l, f.Asks l → Paged schema start top l

/-- The page of a target is read from the arguments of one of the selections of its position, and
those of the lists below it were asked for too. -/
structure TargetTraced (schema : Schema) (start : Context) (top : Selection)
    (written : Selection → Prop) (target : Target) : Prop where
  page : ∀ c, target = .connection c → ∃ s, written s ∧ c.pagination.ReadFrom s.arguments
  below : ∀ f, target.record? = some f → RecordTraced schema start top f

/-- Selections stand at one position where they are entered, and if they are entered as lists they
are asked as such. -/
structure Entered (schema : Schema) (start : Context) (top : Selection) (entry : EntryPoint)
    (typed : Bool) (type : ObjectType) (written : Selection → Prop) : Prop where
  placed : Placed schema start top (entry.context type) written
  lists : ∀ order, entry = .connection order → ∀ v, written v →
    AskedAsList schema start top order typed type v

/-- What is asked of an association to many is asked as lists. -/
theorem Placed.entered_list {schema : Schema} {start here : Context} {top : Selection}
    {written : Selection → Prop} (placed : Placed schema start top here written) {name key : String}
    {a : Association} (offered : here.offer? schema name = some (.association a))
    (many : a.isMany = true) {order : Order} (ordered : a.order = some order)
    {types : List ObjectType} (behind : schema.coveredTypes a.target = .ok types)
    {type : ObjectType} (covered : type ∈ types) :
    Entered schema start top (.connection order) (decide (1 < types.length)) type fun v =>
      Form.filed.Under (AskedOf schema here written) key v ∧ v.name = name := by
  refine ⟨placed.under offered (.toMany many behind covered) key, ?_⟩
  rintro order' same v ⟨⟨⟨s, above, asked⟩, -⟩, rfl⟩
  cases same
  exact ⟨here, s, _, types, placed.leads above, asked, offered, .association many ordered behind,
    covered, rfl⟩

/-- Records are traced by selections that are less deep. -/
def FieldsTraced (declared : Declarations) (schema : Schema) (start : Context) (top : Selection)
    (depth : Nat) : Prop :=
  ∀ s : Selection, s.depth < depth → ∀ type ∈ declared.types, ∀ (written : Selection → Prop),
    Placed schema start top (.record type) written → Form.filed.Gathered written s → ∀ path,
      Yields (RecordTraced schema start top) (Fault schema start top)
        (bindField schema type path s)

section Targets

variable {declared : Declarations} {schema : Schema} {start : Context} {top : Selection}
  {depth : Nat} (below : FieldsTraced declared schema start top depth)
  {written : Selection → Prop} {s : Selection} (gathered : Form.filed.Gathered written s)
  {type : ObjectType} (known : type ∈ declared.types)

include below gathered known

theorem bindEdge_traced (placed : Placed schema start top (.edge type) written)
    (lower : s.depth ≤ depth) (path : Path) :
    Yields (fun e => ∀ f, e.node = some f → RecordTraced schema start top f)
      (Fault schema start top) (bindEdge schema type path s) := by
  rw [bindEdge_eq]
  refine (resolveFragments_gathered placed (always_admits fun _ => trivial) path gathered).bind
    fun resolved isResolved children => ?_
  refine (edgeParts_gathered placed children).bind fun parts isParts named => ?_
  cases asked : parts.node with
  | none => exact .ok fun f none => nomatch none
  | some node =>
    have deeper := depth_lt_of_parts isResolved (depth_edgeParts_lt isParts asked)
    have offered : (Context.edge type).offer? schema "node" = some (.fixed (.record type)) := rfl
    have inner := below node (Nat.lt_of_lt_of_le deeper lower) type known _
      (placed.next offered .fixed (fun _ own => own) (.inl rfl)) (named node asked)
      (path.add "node")
    have whole : Yields (fun bound : Option BoundField => ∀ f, bound = some f →
        RecordTraced schema start top f) (Fault schema start top)
        ((some node).mapM fun node => bindField schema type (path.add "node") node) :=
      inner.map fun f traced f' same => Option.some.inj same ▸ traced
    exact whole.bind fun _ _ traced => .ok traced

theorem bindConnection_traced {order : Order} {typed : Bool}
    (entered : Entered schema start top (.connection order) typed type written)
    (lower : s.depth < depth) (path : Path) :
    Yields (fun c => TargetTraced schema start top written (.connection c))
      (Fault schema start top) (bindConnection schema order typed type path s) := by
  have placed := entered.placed
  have paged : FailsOnly (Fault schema start top)
      (s.boundPagination (order.withTiebreaker type.primaryKey) typed path) := by
    intro e failed
    obtain ⟨v, known, head⟩ := gathered.origin
    obtain ⟨-, -, -, -, same⟩ := of_head head
    rw [same] at failed
    exact .inr (.inr (.page (entered.lists order rfl v known) failed))
  rw [bindConnection_eq]
  refine (Yields.of_failsOnly paged).bind fun page isPage _ => ?_
  refine (resolveFragments_gathered placed (always_admits fun _ => trivial) path gathered).bind
    fun resolved isResolved children => ?_
  refine (connectionParts_gathered placed children).bind fun parts isParts named => ?_
  have read : ∃ v, written v ∧ page.ReadFrom v.arguments := by
    obtain ⟨v, known, head⟩ := gathered.origin
    refine ⟨v, known, ?_⟩
    rw [show v.arguments = s.arguments from congrArg FieldHead.arguments head]
    exact pagination_readFrom (boundPagination_ok isPage).1
  have page_ {c : BoundConnection} (same : c.pagination = page) :
      ∀ c', Target.connection c = .connection c' →
        ∃ v, written v ∧ c'.pagination.ReadFrom v.arguments := by
    rintro c' same'
    cases same'
    rw [same]
    exact read
  cases asked : parts.edges with
  | none => exact .ok ⟨page_ rfl, fun f none => nomatch none⟩
  | some edges =>
    have deeper := depth_lt_of_parts isResolved (depth_connectionParts_lt isParts asked)
    have offered : (Context.list type).offer? schema "edges" = some (.fixed (.edge type)) := rfl
    have inner := bindEdge_traced below (named edges asked) known
      (placed.next offered .fixed (fun _ own => own) (.inl rfl))
      (Nat.le_of_lt (Nat.lt_trans deeper lower)) (path.add "edges")
    have whole : Yields (fun bound : Option BoundEdge => ∀ f, bound.bind BoundEdge.node = some f →
        RecordTraced schema start top f) (Fault schema start top)
        ((some edges).mapM fun edges => bindEdge schema type (path.add "edges") edges) :=
      inner.map fun e traced => traced
    exact whole.bind fun bound _ traced => .ok ⟨page_ rfl, traced⟩

theorem bindTarget_traced {entry : EntryPoint} {typed : Bool}
    (entered : Entered schema start top entry typed type written) (lower : s.depth < depth)
    (path : Path) :
    Yields (TargetTraced schema start top written) (Fault schema start top)
      (bindTarget schema entry typed type path s) := by
  unfold bindTarget
  cases entry with
  | field =>
    exact (below s lower type known written entered.placed gathered path).map fun f traced =>
      ⟨(fun c other => nomatch other), fun f' same => Option.some.inj same ▸ traced⟩
  | connection order =>
    exact (bindConnection_traced below gathered known entered lower path).map
      fun c traced => traced
  | edge =>
    exact (bindEdge_traced below gathered known entered.placed (Nat.le_of_lt lower) path).map
      fun e traced => ⟨(fun c other => nomatch other), traced⟩

omit known in
theorem bindEach_traced {entry : EntryPoint} {typed : Bool} {types : List ObjectType}
    (known : ∀ type ∈ types, type ∈ declared.types)
    (entered : ∀ type ∈ types, Entered schema start top entry typed type written)
    (lower : s.depth < depth) (path : Path) :
    Yields (fun targets => ∀ target ∈ targets, TargetTraced schema start top written target)
      (Fault schema start top) (bindEach schema entry typed path s types) := by
  induction types with
  | nil =>
    rw [bindEach]
    exact .ok (List.forall_mem_nil _)
  | cons type rest ih =>
    obtain ⟨here, others⟩ := List.forall_mem_cons.mp known
    obtain ⟨own, later⟩ := List.forall_mem_cons.mp entered
    rw [bindEach]
    exact (bindTarget_traced below gathered here own lower path).bind fun first _ traced =>
      (ih others later).bind fun more _ all => .ok (List.forall_mem_cons.mpr ⟨traced, all⟩)

omit known in
/-- Against a built schema, targets are traced if the name of their position is declared. -/
theorem bindTargets_traced (shape : Schema.Shape declared schema) (entry : EntryPoint)
    {name : String} (there : name ∈ declared.names)
    (entered : ∀ types, schema.coveredTypes name = .ok types → ∀ type ∈ types,
      Entered schema start top entry (decide (1 < types.length)) type written)
    (lower : s.depth < depth) (path : Path) :
    Yields (fun targets => ∀ target ∈ targets, TargetTraced schema start top written target)
      (Fault schema start top) (bindTargets schema entry name path s) := by
  obtain ⟨types, behind⟩ := (shape.exists_coveredTypes_iff name).mpr there
  have found : targetTypes schema name path = .ok types := mapError_eq_ok.mpr behind
  rw [bindTargets, found]
  exact bindEach_traced below gathered (shape.behind_name behind).2.1 (entered types behind) lower
    path

end Targets

/-! ### Records -/

section Records

variable {declared : Declarations} {schema : Schema} (shape : Schema.Shape declared schema)
  {start : Context} {top : Selection} {depth : Nat}
  (below : FieldsTraced declared schema start top depth) {type : ObjectType}
  (known : type ∈ declared.types) {written : Selection → Prop}
  (placed : Placed schema start top (.record type) written)

/-- An association has pages that were asked for, and so has whatever lies below it. -/
def LinkTraced (schema : Schema) (start : Context) (top : Selection) (l : BoundLink) : Prop :=
  Paged schema start top l ∧ ∀ target ∈ l.targets, ∀ f, target.record? = some f →
    RecordTraced schema start top f

include shape below known placed

theorem bindLink_traced {a : Association} {key : String} {child : Selection}
    (found : type.field? child.name = some (.link a))
    (gathered : Form.filed.Gathered
      (Form.filed.Under (AskedOf schema (.record type) written) key) child)
    (lower : child.depth < depth) (path : Path) :
    Yields (LinkTraced schema start top) (Fault schema start top)
      (bindLink schema a path child) := by
  have offered : (Context.record type).offer? schema child.name = some (.association a) := by
    simp [Context.offer?, found]
  have there : a.target ∈ declared.names :=
    (shape.associations type known a (mem_associations found)).2
  have own := gathered_named rfl gathered
  have filtered {allowed : List String} (same : (Offer.association a).allowed = allowed) :
      FailsOnly (Fault schema start top) (child.declaredFilter a.filters allowed path) :=
    same ▸ placed.declaredFilter_faults gathered offered rfl path
  have traced {filter : Filter} {targets : List Target} (each : ∀ target ∈ targets,
      TargetTraced schema start top (fun v => Form.filed.Under
        (AskedOf schema (.record type) written) key v ∧ v.name = child.name) target) :
      LinkTraced schema start top ⟨a, filter, targets⟩ := by
    refine ⟨fun c reached => ?_, fun target reached => (each target reached).below⟩
    obtain ⟨v, ⟨⟨⟨s, above, asked⟩, -⟩, same⟩, read⟩ := (each _ reached).page c rfl
    exact ⟨_, s, v, placed.leads above, asked, same ▸ offered, read⟩
  rw [bindLink]
  split
  · rename_i many
    split
    · rename_i unordered
      have ordered := (shape.associations type known a (mem_associations found)).1
      rw [Association.orderFault?, many, unordered] at ordered
      cases ordered
    · rename_i order ordered
      refine (Yields.of_failsOnly (filtered (if_pos many))).bind fun filter _ _ => ?_
      exact (bindTargets_traced below own shape (.connection order) there
        (fun types behind inner covered => placed.entered_list offered many ordered behind covered)
        lower path).bind fun targets _ each => .ok (traced each)
  · rename_i one
    refine (Yields.of_failsOnly (filtered (if_neg one))).bind fun filter _ _ => ?_
    exact (bindTargets_traced below own shape .field there
      (fun types behind inner covered =>
        ⟨placed.under offered (.toOne (Bool.eq_false_iff.mpr one) behind covered) key,
          fun _ other => by cases other⟩)
      lower path).bind fun targets _ each => .ok (traced each)

theorem bindItem_traced {key : String} {child : Selection}
    (gathered : Form.filed.Gathered
      (Form.filed.Under (AskedOf schema (.record type) written) key) child)
    (lower : child.depth < depth) (path : Path) :
    Yields (fun item => ∀ l, item = some (.link l) → LinkTraced schema start top l)
      (Fault schema start top) (bindItem schema type path child) := by
  have plain (offered : (Context.record type).offer? schema child.name = some .plain) :
      Yields (fun _ => True) (Fault schema start top) (child.withoutArguments path) :=
    .intro (placed.withoutArguments_faults gathered offered rfl path rfl rfl) fun _ _ => trivial
  unfold bindItem
  split
  · rename_i a found
    exact (plain (by simp [Context.offer?, found])).bind fun _ _ _ =>
      .ok fun _ other => by cases other
  · rename_i a found
    refine (bindLink_traced shape below known placed found gathered lower path).map ?_
    intro l traced l' same
    cases same
    exact traced
  · rename_i other
    split
    · rename_i id
      have offered : (Context.record type).offer? schema child.name = some .plain := by
        simp only [Context.offer?, other]
        exact if_pos id
      exact (plain offered).bind fun _ _ _ => .ok fun _ other => by cases other
    · rename_i notId
      split
      · exact .ok fun _ other => by cases other
      · rename_i shown
        have missing : (Context.record type).offer? schema child.name = none := by
          simp [Context.offer?, other, notId, shown]
        exact .error (placed.missesField gathered (by simp) missing path)

theorem bindItems_traced {path : Path} {children : List (String × Selection)}
    (gathered : Form.filed.GatheredUnder (AskedOf schema (.record type) written) children)
    (lower : childrenDepth children ≤ depth) :
    Yields (fun items => ∀ key l, (key, .link l) ∈ items → LinkTraced schema start top l)
      (Fault schema start top) (bindItems schema type path children) := by
  induction children with
  | nil =>
    rw [bindItems]
    exact .ok fun _ _ present => absurd present List.not_mem_nil
  | cons entry rest ih =>
    obtain ⟨key, child⟩ := entry
    obtain ⟨here, later⟩ := List.forall_mem_cons.mp gathered
    simp only [childrenDepth] at lower
    have deeper : child.depth < depth := by omega
    rw [bindItems_cons_eq]
    refine (bindItem_traced shape below known placed here deeper _).bind
      fun item _ own => (ih later (by omega)).bind fun more _ others => .ok ?_
    intro k l present
    cases item with
    | none => exact others k l present
    | some bound =>
      rcases List.mem_cons.mp present with same | there
      · cases same
        exact own l rfl
      · exact others k l there

omit below known placed

/-- **Records are traced back to what is asked**, however deep the selection is. -/
theorem fieldsTraced (depth : Nat) : FieldsTraced declared schema start top depth := by
  induction depth with
  | zero => exact fun s lower => absurd lower (Nat.not_lt_zero _)
  | succ depth ih =>
    intro s lower type known written placed gathered path
    have there : Keyed.hasKey schema.types type.name = true := by
      rw [Keyed.hasKey, shape.get?_types.mpr ⟨known, rfl⟩]
      rfl
    rw [bindField_eq]
    refine (resolveFragments_gathered placed (appliesTo_admits there placed path) path
      gathered).bind fun resolved isResolved children => ?_
    have deeper := depth_resolveFragments_le isResolved
    have inside := childrenDepth_le_depth resolved
    refine (bindItems_traced shape ih known placed children (by omega)).bind
      fun items _ traced => .ok ?_
    intro l asks
    cases asks with
    | here linked => exact (traced _ _ (mem_items linked)).1
    | deeper linked reached record asks =>
      exact (traced _ _ (mem_items linked)).2 _ reached _ record _ asks

end Records

end GraphRead.Selection
