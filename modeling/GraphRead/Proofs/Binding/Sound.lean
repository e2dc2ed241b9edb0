import GraphRead.Proofs.Binding.Traced
/-!
What an accepted query is bound to.

The targets of a position are bound from one selection, one per type behind its name, so they are
lists or records together, and lists that ask the same (`Schema.Sound`). This holds of root fields
and of the associations below them, however deep these lie, and the pages of their lists are read
from the arguments of fields that are asked (`Selection.rootReads_sound`).
-/

namespace GraphRead

open Fallible

/-- Two lists ask the same, whatever their types. -/
structure BoundConnection.Agrees (c c' : BoundConnection) : Prop where
  order : c.order = c'.order
  pagination : c.pagination = c'.pagination
  pageInfo : c.pageInfo = c'.pageInfo
  count : c.count = c'.count
  typed : c.typedCursors = c'.typedCursors
  cursors : c.edges.map BoundEdge.cursor = c'.edges.map BoundEdge.cursor
  node : c.node.isSome = c'.node.isSome

/-- A cursor has a value for every column of the order, and if the list holds several types the name
of a type behind them. -/
def BoundConnection.Encloses (c : BoundConnection) (cursor : Cursor) : Prop :=
  if c.typedCursors then cursor.values.length = c.effectiveOrder.length + 1 ∧
    ∃ type, cursor.values.getLast? = some (.string type)
  else cursor.values.length = c.effectiveOrder.length

/-- A target is entered as its position is. -/
def EntryPoint.Opens : EntryPoint → Target → Prop
  | .field, target => ∃ f, target = .field f
  | .connection order, target => ∃ c, target = .connection c ∧ c.order = order
  | .edge, target => ∃ e, target = .edge e

/-- The targets of a position: one for each type behind its name, at least one, all entered in the
same way, and lists that ask the same, with cursors that fit them. -/
structure Schema.Sound (schema : Schema) (name : String) (entry : EntryPoint)
    (targets : List Target) : Prop where
  covered : schema.coveredTypes name = .ok (targets.map Target.type)
  inhabited : targets ≠ []
  entered : ∀ target ∈ targets, entry.Opens target
  typed : ∀ c, .connection c ∈ targets → (c.typedCursors = true ↔ 1 < targets.length)
  agree : ∀ c c', .connection c ∈ targets → .connection c' ∈ targets → c.Agrees c'
  cursors : ∀ c cursor, .connection c ∈ targets → c.pagination.cursor? = some cursor →
    c.Encloses cursor

/-- How a root field is entered: as a list in its order, or as a record. -/
def RootField.entry (field : RootField) : EntryPoint :=
  match field.kind with
  | .connection order => .connection order
  | .single => .field

/-- How an association is entered: as a list in its order if it leads to many records, else as a
record. -/
inductive Association.EntersAs (a : Association) : EntryPoint → Prop
  | list {order : Order} (many : a.isMany = true) (ordered : a.order = some order) :
    EntersAs a (.connection order)
  | record (one : a.isMany = false) : EntersAs a .field

namespace Selection

variable {schema : Schema} {path : Path} {s : Selection}

/-! ### Positions -/

/-- A node is bound exactly if one is asked. -/
theorem bindEdge_node {type : ObjectType} {e : BoundEdge}
    (done : bindEdge schema type path s = .ok e) :
    ∃ resolved parts, resolveFragments always path s = .ok resolved ∧
      edgeParts type.name path resolved.children = .ok parts ∧ e.cursor = parts.cursor ∧
        e.node.isSome = parts.node.isSome := by
  rw [bindEdge_eq] at done
  obtain ⟨resolved, isResolved, done⟩ := bind_eq_ok.mp done
  obtain ⟨parts, isParts, done⟩ := bind_eq_ok.mp done
  obtain ⟨node, isNode, done⟩ := bind_eq_ok.mp done
  cases pure_eq_ok.mp done
  refine ⟨resolved, parts, isResolved, isParts, rfl, ?_⟩
  cases asked : parts.node with
  | none =>
    rw [asked] at isNode
    cases pure_eq_ok.mp isNode
    rfl
  | some inner =>
    rw [asked] at isNode
    obtain ⟨own, -, rfl⟩ := map_eq_ok.mp isNode
    rfl

/-- Whatever the types, two edges ask the same. -/
theorem bindEdge_agree {type other : ObjectType} {e e' : BoundEdge}
    (done : bindEdge schema type path s = .ok e) (done' : bindEdge schema other path s = .ok e') :
    e.cursor = e'.cursor ∧ e.node.isSome = e'.node.isSome := by
  obtain ⟨resolved, parts, isResolved, isParts, cursor, node⟩ := bindEdge_node done
  obtain ⟨resolved', parts', isResolved', isParts', cursor', node'⟩ := bindEdge_node done'
  rw [isResolved] at isResolved'
  cases isResolved'
  rw [edgeParts_type other.name isParts] at isParts'
  cases isParts'
  exact ⟨cursor.trans cursor'.symm, node.trans node'.symm⟩

/-- Whatever the types, two lists ask the same. -/
theorem bindConnection_agree {order : Order} {typed : Bool} {type other : ObjectType}
    {c c' : BoundConnection} (done : bindConnection schema order typed type path s = .ok c)
    (done' : bindConnection schema order typed other path s = .ok c') : c.Agrees c' := by
  have shared := bindConnection_shared done done'
  obtain ⟨parts, made⟩ := bindConnection_ok done
  obtain ⟨parts', made'⟩ := bindConnection_ok done'
  obtain ⟨resolved, isResolved, split⟩ := made.split
  obtain ⟨resolved', isResolved', split'⟩ := made'.split
  rw [isResolved] at isResolved'
  cases isResolved'
  rw [connectionParts_type other.name split] at split'
  cases split'
  have edges : c.edges.map BoundEdge.cursor = c'.edges.map BoundEdge.cursor ∧
      c.node.isSome = c'.node.isSome := by
    unfold BoundConnection.node
    rcases made.edges with ⟨none, missing⟩ | ⟨asked, e, there, isEdge, some⟩
    · rcases made'.edges with ⟨none', -⟩ | ⟨_, _, there, -, -⟩
      · rw [none, none']
        exact ⟨rfl, rfl⟩
      · rw [missing] at there
        cases there
    · rcases made'.edges with ⟨-, missing⟩ | ⟨asked', e', there', isEdge', some'⟩
      · rw [missing] at there
        cases there
      · rw [there] at there'
        cases there'
        obtain ⟨cursor, node⟩ := bindEdge_agree isEdge isEdge'
        rw [some, some']
        exact ⟨congrArg Option.some cursor, node⟩
  exact ⟨congrArg Shared.order shared, congrArg Shared.pagination shared,
    congrArg Shared.pageInfo shared, congrArg Shared.count shared, congrArg Shared.typed shared,
    edges.1, edges.2⟩

theorem encloses_of_fits {c : BoundConnection} (fits : c.Fits) {cursor : Cursor}
    (asked : c.pagination.cursor? = some cursor) : c.Encloses cursor := by
  have length := fits.length asked
  have fits := fits cursor asked
  unfold cursorFault? at fits
  dsimp only at fits
  rw [if_neg (not_not.mpr length)] at fits
  unfold BoundConnection.Encloses
  cases typed : c.typedCursors with
  | false =>
    rw [typed] at length
    exact length
  | true =>
    rw [typed] at length fits
    refine ⟨length, ?_⟩
    cases last : cursor.values.getLast? with
    | none => simp [last] at fits
    | some value =>
      cases value with
      | string type => exact ⟨type, rfl⟩
      | _ => simp [last, Value.string?] at fits

/-- A list among the targets of a position was bound as a list. -/
theorem list_of_bindTargets {entry : EntryPoint} {name : String} {targets : List Target}
    (done : bindTargets schema entry name path s = .ok targets) {c : BoundConnection}
    (present : .connection c ∈ targets) : ∃ type order typed, entry = .connection order ∧
      typed = decide (1 < targets.length) ∧
        bindConnection schema order typed type path s = .ok c := by
  rw [bindTargets] at done
  obtain ⟨types, -, done⟩ := bind_eq_ok.mp done
  obtain ⟨rfl, each⟩ := bindEach_ok done
  obtain ⟨type, -, bound⟩ := each _ present
  unfold bindTarget at bound
  cases entry with
  | connection order =>
    obtain ⟨own, isBound, same⟩ := map_eq_ok.mp bound
    cases same
    exact ⟨type, order, _, rfl, by rw [List.length_map], isBound⟩
  | field | edge =>
    obtain ⟨_, -, other⟩ := map_eq_ok.mp bound
    cases other

/-- A target is entered as its position is. -/
theorem opens_of_bindTarget {entry : EntryPoint} {typed : Bool} {type : ObjectType}
    {target : Target} (done : bindTarget schema entry typed type path s = .ok target) :
    entry.Opens target := by
  unfold bindTarget at done
  split at done
  · obtain ⟨f, -, rfl⟩ := map_eq_ok.mp done
    exact ⟨f, rfl⟩
  · obtain ⟨c, isBound, rfl⟩ := map_eq_ok.mp done
    exact ⟨c, rfl, (bindConnection_ok isBound).choose_spec.inOrder⟩
  · obtain ⟨e, -, rfl⟩ := map_eq_ok.mp done
    exact ⟨e, rfl⟩

/-- What is bound at a position is sound, whatever it is bound from. -/
theorem bindTargets_sound {declared : Declarations} (shape : Schema.Shape declared schema)
    {entry : EntryPoint} {name : String} {targets : List Target}
    (done : bindTargets schema entry name path s = .ok targets) :
    schema.Sound name entry targets where
  covered := types_of_bindTargets done
  inhabited none := by
    have covered := types_of_bindTargets done
    rw [none] at covered
    exact (shape.behind_name covered).1 rfl
  entered target present := by
    rw [bindTargets] at done
    obtain ⟨types, -, done⟩ := bind_eq_ok.mp done
    obtain ⟨type, -, bound⟩ := (bindEach_ok done).2 target present
    exact opens_of_bindTarget bound
  typed c present := by
    obtain ⟨type, order, typed, -, rfl, isBound⟩ := list_of_bindTargets done present
    rw [(bindConnection_ok isBound).choose_spec.tagged, decide_eq_true_iff]
  agree c c' present present' := by
    obtain ⟨type, order, typed, rfl, rfl, isBound⟩ := list_of_bindTargets done present
    obtain ⟨type', order', typed', same, rfl, isBound'⟩ := list_of_bindTargets done present'
    cases same
    exact bindConnection_agree isBound isBound'
  cursors c cursor present asked := by
    obtain ⟨type, order, typed, -, -, isBound⟩ := list_of_bindTargets done present
    exact encloses_of_fits (bindConnection_fits isBound) asked

theorem readFrom_of_bindTargets {entry : EntryPoint} {name : String} {targets : List Target}
    (done : bindTargets schema entry name path s = .ok targets) {c : BoundConnection}
    (present : .connection c ∈ targets) : c.pagination.ReadFrom s.arguments := by
  obtain ⟨type, order, typed, -, -, isBound⟩ := list_of_bindTargets done present
  obtain ⟨parts, made⟩ := bindConnection_ok isBound
  exact pagination_readFrom (boundPagination_ok made.page).1

/-! ### Associations -/

theorem bindLink_sound {declared : Declarations} (shape : Schema.Shape declared schema)
    {a : Association} {l : BoundLink} (done : bindLink schema a path s = .ok l) :
    ∃ entry, l.association.EntersAs entry ∧ schema.Sound l.association.target entry l.targets := by
  rw [bindLink] at done
  split at done
  · rename_i many
    split at done
    · cases done
    · rename_i order ordered
      obtain ⟨filter, -, done⟩ := bind_eq_ok.mp done
      obtain ⟨targets, isTargets, done⟩ := bind_eq_ok.mp done
      cases pure_eq_ok.mp done
      exact ⟨_, .list many ordered, bindTargets_sound shape isTargets⟩
  · rename_i one
    obtain ⟨filter, -, done⟩ := bind_eq_ok.mp done
    obtain ⟨targets, isTargets, done⟩ := bind_eq_ok.mp done
    cases pure_eq_ok.mp done
    exact ⟨_, .record (Bool.eq_false_iff.mpr one), bindTargets_sound shape isTargets⟩

/-- Every association below a record is bound to the schema. -/
theorem binds_of_asks {f : BoundField} {l : BoundLink} (asks : f.Asks l)
    (bound : ∀ link ∈ f.links, schema.Binds link.2) : schema.Binds l := by
  induction asks with
  | here linked => exact bound _ linked
  | deeper linked reached record _ ih =>
    exact ih fun link inner => (bound _ linked).below reached
      (Target.mem_links.mpr ⟨_, record, inner⟩)

/-! ### Root fields -/

section Root

variable {root : Selection}

mutual

theorem resolveRoot_gathered (tidy : root.Tidy) : ∀ s : Selection, Opens schema .query root s →
    Yields (fun resolved =>
        Form.filed.GatheredUnder (AskedOf schema .query (· = root)) resolved.children)
      (Fault schema .query root) (resolveRoot s)
  | ⟨name, aliasName, arguments, children, fragments⟩, opens => by
    have own : Form.filed.GatheredUnder (AskedOf schema .query (· = root)) children :=
      (Placed.top tidy).gathered_of_opens rfl opens
    rw [resolveRoot]
    exact spliceConditions_gathered tidy fragments own opens fun _ present => present

theorem spliceConditions_gathered (tidy : root.Tidy) :
    ∀ (fragments : List (String × List Selection)) {target s : Selection},
    Form.filed.GatheredUnder (AskedOf schema .query (· = root)) target.children →
    Opens schema .query root s → (∀ entry ∈ fragments, entry ∈ s.fragments) →
    Yields (fun resolved =>
        Form.filed.GatheredUnder (AskedOf schema .query (· = root)) resolved.children)
      (Fault schema .query root) (spliceConditions target fragments)
  | [], target, s, gathered, _, _ => by
    rw [spliceConditions]
    exact .ok gathered
  | (condition, members) :: rest, target, s, gathered, opens, filed => by
    obtain ⟨here, later⟩ := List.forall_mem_cons.mp filed
    rw [spliceConditions]
    split
    · rename_i same
      have inside : ∀ member ∈ members, Opens schema .query root member := fun member listed =>
        opens.snoc (mem_fragmentList.mpr ⟨members, here, listed⟩) same
      exact (spliceMembers_gathered tidy members gathered inside).bind fun next _ gathered =>
        spliceConditions_gathered tidy rest gathered opens later
    · rename_i other
      exact .error (.inr (.inr (.outermost rfl opens here other)))

theorem spliceMembers_gathered (tidy : root.Tidy) :
    ∀ (members : List Selection) {target : Selection},
    Form.filed.GatheredUnder (AskedOf schema .query (· = root)) target.children →
    (∀ member ∈ members, Opens schema .query root member) →
    Yields (fun resolved =>
        Form.filed.GatheredUnder (AskedOf schema .query (· = root)) resolved.children)
      (Fault schema .query root) (spliceMembers target members)
  | [], target, gathered, _ => by
    rw [spliceMembers]
    exact .ok gathered
  | member :: rest, target, gathered, opens => by
    obtain ⟨here, later⟩ := List.forall_mem_cons.mp opens
    rw [spliceMembers]
    refine (resolveRoot_gathered tidy member here).bind fun resolved _ inside => ?_
    have spliced := Form.splice_gathered resolved gathered inside
    exact (spliced.mapError fun _ clash => (Placed.top tidy).clash clash rootPath).bind
      fun next _ gathered => spliceMembers_gathered tidy rest gathered later

end

/-- Once its fragments are taken over, the fields of a query are gathered from what is asked. -/
theorem gathered_of_resolveRoot (tidy : root.Tidy) {resolved : Selection}
    (done : resolveRoot root = .ok resolved) :
    Form.filed.GatheredUnder (AskedOf schema .query (· = root)) resolved.children := by
  have gathered : Yields (fun resolved =>
      Form.filed.GatheredUnder (AskedOf schema .query (· = root)) resolved.children)
      (Fault schema .query root) (resolveRoot root) := resolveRoot_gathered tidy root (.self root)
  rw [done] at gathered
  obtain ⟨gathered⟩ := gathered
  exact gathered

/-- What is asked of a root field stands at one position where the field is entered. -/
theorem entered_root (tidy : root.Tidy) {key : String} {s : Selection} (listed : s.name ≠ typeName)
    {field : RootField} (found : Keyed.get? schema.roots s.name = some field)
    {types : List ObjectType} (behind : schema.coveredTypes field.target = .ok types)
    {type : ObjectType} (covered : type ∈ types) :
    Entered schema .query root field.entry (decide (1 < types.length)) type fun v =>
      Form.filed.Under (AskedOf schema .query (· = root)) key v ∧ v.name = s.name := by
  have offered : Context.query.offer? schema s.name = some (.root field) := by
    rw [Context.offer?, if_neg listed, found]
    rfl
  refine ⟨(Placed.top tidy).under offered ?_ key, ?_⟩
  · unfold RootField.entry
    cases kind : field.kind with
    | connection order => exact .list kind behind covered
    | single => exact .lookup kind behind covered
  · rintro order same v ⟨⟨⟨t, rfl, asked⟩, -⟩, name⟩
    have many : field.kind = .connection order := by
      unfold RootField.entry at same
      cases kind : field.kind with
      | connection own =>
        rw [kind] at same
        cases same
        rfl
      | single =>
        rw [kind] at same
        cases same
    exact ⟨_, t, _, types, .top, asked, name ▸ offered, .root many behind, covered, rfl⟩

section Targets

variable (tidy : root.Tidy) {declared : Declarations} (shape : Schema.Shape declared schema)
  {key : String} {s : Selection} (listed : s.name ≠ typeName)
  (gathered : Form.filed.Gathered (Form.filed.Under (AskedOf schema .query (· = root)) key) s)

include tidy shape listed gathered

theorem rootTargets_traced {field : RootField}
    (found : Keyed.get? schema.roots s.name = some field) (path : Path) :
    Yields (fun targets => ∀ target ∈ targets, TargetTraced schema .query root (fun v =>
        Form.filed.Under (AskedOf schema .query (· = root)) key v ∧ v.name = s.name) target)
      (Fault schema .query root) (bindTargets schema field.entry field.target path s) := by
  have there : field.target ∈ declared.names := by
    rw [shape.get?_roots] at found
    exact (shape.rootFields field (List.mem_reverse.mp (List.mem_of_find?_eq_some found))).1
  have below : FieldsTraced declared schema .query root (s.depth + 1) := fieldsTraced shape _
  exact bindTargets_traced below (gathered_named rfl gathered) shape field.entry there
    (fun types behind type covered => entered_root tidy listed found behind covered)
    (Nat.lt_succ_self _) path

/-- If a root field cannot be bound, something that is asked there is at fault. -/
theorem bindRoot_faults : FailsOnly (Fault schema .query root) (bindRoot schema key s) := by
  have placed : Placed schema .query root .query (· = root) := .top tidy
  unfold bindRoot
  dsimp only
  split
  · rename_i unknown
    have missing : Context.query.offer? schema s.name = none := by
      rw [Context.offer?, if_neg listed, unknown]
      rfl
    exact .error (placed.missesField gathered (by simp) missing _)
  · rename_i field found
    have offered : Context.query.offer? schema s.name = some (.root field) := by
      rw [Context.offer?, if_neg listed, found]
      rfl
    have filtered {allowed : List String} (same : (Offer.root field).allowed = allowed) :
        FailsOnly (Fault schema .query root) (s.declaredFilter field.filters allowed _) :=
      same ▸ placed.declaredFilter_faults gathered offered rfl (Path.add rootPath key)
    have targets := (rootTargets_traced tidy shape listed gathered found
      (Path.add rootPath key)).failsOnly
    split
    · rename_i order kind
      rw [RootField.entry, kind] at targets
      exact (filtered (by rw [Offer.allowed, kind])).bind fun _ _ => targets.bind fun _ _ => .ok _
    · rename_i kind
      rw [RootField.entry, kind] at targets
      have named : FailsOnly (Fault schema .query root)
          (s.lookupKey field (Path.add rootPath key)) := by
        intro e failed
        obtain ⟨v, ⟨⟨t, rfl, asked⟩, -⟩, head⟩ := gathered.origin
        obtain ⟨name, -, same, -⟩ := of_head head
        rw [same] at failed
        exact .inr (.inr (.lookup .top asked (name ▸ offered) kind failed))
      exact named.bind fun _ _ => (filtered (by rw [Offer.allowed, kind])).bind fun _ _ =>
        targets.bind fun _ _ => .ok _

end Targets

/-- A read is bound from a root field that is asked. -/
theorem bindRoot_sound (tidy : root.Tidy) {declared : Declarations}
    (shape : Schema.Shape declared schema)
    {key : String} {s : Selection} (listed : s.name ≠ typeName) {read : RootRead}
    (done : bindRoot schema key s = .ok read) (gathered : Form.filed.Gathered
      (Form.filed.Under (AskedOf schema .query (· = root)) key) s) :
    (∃ child field, Asked schema .query root child ∧ child.outputKey = read.key ∧
      Keyed.get? schema.roots child.name = some field ∧
      schema.Sound field.target field.entry read.targets ∧
      ∀ c, .connection c ∈ read.targets → c.pagination.ReadFrom child.arguments) ∧
    ∀ target ∈ read.targets, ∀ f, target.record? = some f → RecordTraced schema .query root f := by
  obtain ⟨field, path, entry, found, -, isTargets, entered⟩ := bindRoot_parts done
  obtain rfl : entry = field.entry := by
    rcases entered with ⟨order, kind, rfl⟩ | ⟨kind, rfl⟩ <;> rw [RootField.entry, kind]
  have traced := rootTargets_traced tidy shape listed gathered found path
  rw [isTargets] at traced
  obtain ⟨each⟩ := traced
  refine ⟨?_, fun target reached => (each target reached).below⟩
  obtain ⟨child, ⟨⟨_, rfl, asked⟩, own⟩, head⟩ := gathered.origin
  have name : child.name = s.name := congrArg FieldHead.name head
  have arguments : child.arguments = s.arguments := congrArg FieldHead.arguments head
  refine ⟨child, field, asked, own.trans (bindRoot_key done).symm, name ▸ found,
    bindTargets_sound shape isTargets, fun c present => ?_⟩
  rw [arguments]
  exact readFrom_of_bindTargets isTargets present

/-- **If a query cannot be bound, something that it asks is at fault.** -/
theorem fault_of_rootReads {declared : Declarations} (built : Schema.build declared = .ok schema)
    (tidy : root.Tidy) {e : BindError} (failed : root.rootReads schema = .error e) :
    Fault schema .query root e := by
  refine FailsOnly.bind (resolveRoot_gathered tidy root (.self root)).failsOnly
    (fun resolved isResolved => .mapM fun entry listed => ?_) e failed
  obtain ⟨present, shown⟩ := List.mem_filter.mp listed
  exact bindRoot_faults tidy (Schema.shape_of_build built) (by simpa using shown)
    (gathered_of_resolveRoot tidy isResolved _ present)

end Root

/-- **Every accepted query is bound to what can be relied on.** At every root field and every
association below, there is a target for each type behind its name, at least one, all of them are
lists if many records are led to, and records otherwise, and the lists ask the same, for a page that
is read from the arguments of a field that is asked there, with a cursor that fits. -/
theorem rootReads_sound {declared : Declarations} (built : Schema.build declared = .ok schema)
    {root : Selection} (tidy : root.Tidy) {reads : List RootRead}
    (done : root.rootReads schema = .ok reads) : ∀ read ∈ reads,
    (∃ child field, Asked schema .query root child ∧ child.outputKey = read.key ∧
      Keyed.get? schema.roots child.name = some field ∧
      schema.Sound field.target field.entry read.targets ∧
      ∀ c, .connection c ∈ read.targets → c.pagination.ReadFrom child.arguments) ∧
    ∀ target ∈ read.targets, ∀ f, target.record? = some f → ∀ l, f.Asks l →
      (∃ entry, l.association.EntersAs entry ∧
        schema.Sound l.association.target entry l.targets) ∧ Paged schema .query root l := by
  intro read asked
  have shape := Schema.shape_of_build built
  unfold rootReads at done
  obtain ⟨resolved, isResolved, isReads⟩ := bind_eq_ok.mp done
  obtain ⟨⟨key, s⟩, listed, isRoot⟩ := Success.exists_of_mem_mapM_ok isReads asked
  obtain ⟨present, shown⟩ := List.mem_filter.mp listed
  obtain ⟨position, traced⟩ := bindRoot_sound tidy shape (by simpa using shown) isRoot
    (gathered_of_resolveRoot tidy isResolved _ present)
  refine ⟨position, fun target reached f record l asks =>
    ⟨?_, traced target reached f record l asks⟩⟩
  obtain ⟨entry, name, path, isTargets⟩ := bindRoot_targets isRoot
  obtain ⟨_, path, s, isLink⟩ := binds_of_asks asks fun link linked =>
    binds_of_bindTargets isTargets target reached link (Target.mem_links.mpr ⟨f, record, linked⟩)
  exact bindLink_sound shape isLink

/-! ### A wall of posts and photos -/

namespace Wall

def post : ObjectType := ⟨"Post", "posts", "id", .always, []⟩

def photo : ObjectType := ⟨"Photo", "photos", "id", .always, []⟩

def newest : Order := [⟨"at", .descending⟩]

def declared : Declarations :=
  ⟨[post, photo], [⟨"Media", ["Post", "Photo"]⟩], [⟨"wall", "Media", .connection newest, []⟩]⟩

def site : Schema :=
  ⟨[("Post", post), ("Photo", photo)], [("Media", ⟨"Media", ["Post", "Photo"]⟩)],
    [("wall", ⟨"wall", "Media", .connection newest, []⟩)]⟩

def asked : Document :=
  ⟨⟨⟨rootName, none, []⟩,
    [.field ⟨"wall", none, [("first", .int 2)]⟩ [.field ⟨"count", none, []⟩ []]]⟩, []⟩

def root : Selection :=
  ⟨rootName, none, [],
    [("wall", ⟨"wall", none, [("first", .int 2)], [("count", named "count")], []⟩)], []⟩

def list (type : ObjectType) : Target :=
  .connection ⟨type, newest, .forward 2 none, none, none, true, true⟩

theorem built : Schema.build declared = .ok site := by
  cbv

theorem written : ofDocument asked = .ok root := by
  cbv

/-- The page is asked of the posts and of the photos alike, by cursors that tell the type. -/
theorem rootReads_wall :
    root.rootReads site = .ok [⟨"wall", .always, [list post, list photo], .many⟩] := by
  let page : Selection := ⟨"wall", none, [("first", .int 2)], [("count", named "count")], []⟩
  have list (type : ObjectType) : bindConnection site newest true type ["Query", "wall"] page =
      .ok ⟨type, newest, .forward 2 none, none, none, true, true⟩ := by
    have parts : connectionParts type.name ["Query", "wall"] page.children =
        .ok ⟨none, none, true⟩ := rfl
    rw [bindConnection_eq]
    exact bind_eq_ok.mpr ⟨.forward 2 none, rfl, bind_eq_ok.mpr ⟨_, resolveFragments_self _ _ rfl,
      bind_eq_ok.mpr ⟨_, parts, rfl⟩⟩⟩
  have targets : bindTargets site (.connection newest) "Media" ["Query", "wall"] page =
      .ok [Wall.list post, Wall.list photo] := by
    have types : targetTypes site "Media" ["Query", "wall"] = .ok [post, photo] := by cbv
    have both : bindEach site (.connection newest) true ["Query", "wall"] page [post, photo] =
        .ok [Wall.list post, Wall.list photo] := by
      simp only [bindEach, bindTarget, list]
      rfl
    rw [bindTargets, types]
    exact both
  have read : bindRoot site "wall" page =
      .ok ⟨"wall", .always, [Wall.list post, Wall.list photo], .many⟩ := by
    rw [bindRoot]
    exact bind_eq_ok.mpr ⟨.always, rfl, bind_eq_ok.mpr ⟨_, targets, rfl⟩⟩
  rw [root, rootReads_single, if_neg (by decide), read]
  rfl

/-- The posts and the photos of the wall are asked for alike. -/
theorem rootReads_sound_wall : Schema.build declared = .ok site ∧ root.Tidy ∧
    site.Sound "Media" (.connection newest) [list post, list photo] := by
  obtain ⟨⟨child, field, -, -, found, sound, -⟩, -⟩ :=
    rootReads_sound built (ofDocument_tidy written) rootReads_wall _ List.mem_cons_self
  obtain ⟨-, rfl⟩ : _ ∧ (⟨"wall", "Media", .connection newest, []⟩ : RootField) = field := by
    simpa [site, Keyed.get?] using found
  exact ⟨built, ofDocument_tidy written, sound⟩

end Wall

end Selection

end GraphRead
