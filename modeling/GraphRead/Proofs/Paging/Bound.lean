import GraphRead.Proofs.Binding.Below
import GraphRead.Proofs.Paging.Parts
/-!
Queries that are the same but for their pages are bound to targets that list the same rows.

Under every key two such queries follow the same association. So their targets are of the same
types, they ask for the same counts, and lists have the same filters (`bindTargets_alike`,
`rootReads_alike`), whatever pages they ask for. What is not a list may have another filter, because
its arguments are all filters.
-/

namespace GraphRead

/-- Two lists of targets with their filters list the same rows, as far as they are lists. -/
structure SameRows (filter other : Filter) (targets others : List Target) : Prop where
  types : targets.map Target.type = others.map Target.type
  filter : ∀ c, .connection c ∈ targets → filter = other

/-- Two targets ask for the same counts, and for the same associations below. -/
inductive Target.Alike : Target → Target → Prop
  | intro {target other : Target}
    (counts : target.connection?.map BoundConnection.count =
      other.connection?.map BoundConnection.count)
    (associations : ∀ key l l', (key, l) ∈ target.links → (key, l') ∈ other.links →
      l.association = l'.association)
    (rows : ∀ key l l', (key, l) ∈ target.links → (key, l') ∈ other.links →
      SameRows l.filter l'.filter l.targets l'.targets)
    (below : ∀ key l l', (key, l) ∈ target.links → (key, l') ∈ other.links →
      ∀ child ∈ l.targets, ∀ child' ∈ l'.targets, child.type = child'.type → child.Alike child') :
    Target.Alike target other

/-- Targets of the same types are alike type by type. -/
def Target.AlikeEach (targets others : List Target) : Prop :=
  ∀ target ∈ targets, ∀ other ∈ others, target.type = other.type → target.Alike other

/-- Two associations lead the same way, to targets that are alike. -/
structure BoundLink.Alike (l other : BoundLink) : Prop where
  association : l.association = other.association
  rows : SameRows l.filter other.filter l.targets other.targets
  each : Target.AlikeEach l.targets other.targets

/-- Two records ask for associations that are alike under the same keys. -/
def BoundField.Alike (f other : BoundField) : Prop :=
  ∀ key l l', (key, l) ∈ f.links → (key, l') ∈ other.links → l.Alike l'

namespace Target

variable {target other : Target}

theorem Alike.counts (alike : target.Alike other) :
    target.connection?.map BoundConnection.count =
      other.connection?.map BoundConnection.count := by
  cases alike with
  | intro counts => exact counts

theorem Alike.link {key : String} {l l' : BoundLink} (alike : target.Alike other)
    (linked : (key, l) ∈ target.links) (linked' : (key, l') ∈ other.links) : l.Alike l' := by
  cases alike with
  | intro _ associations rows below =>
    exact ⟨associations key l l' linked linked', rows key l l' linked linked',
      below key l l' linked linked'⟩

theorem Alike.of_record (counts : target.connection?.map BoundConnection.count =
      other.connection?.map BoundConnection.count)
    (record : ∀ f f', target.record? = some f → other.record? = some f' → f.Alike f') :
    target.Alike other := by
  have each (key : String) (l l' : BoundLink) (linked : (key, l) ∈ target.links)
      (linked' : (key, l') ∈ other.links) : l.Alike l' := by
    obtain ⟨f, asked, linked⟩ := mem_links.mp linked
    obtain ⟨f', asked', linked'⟩ := mem_links.mp linked'
    exact record f f' asked asked' key l l' linked linked'
  exact .intro counts
    (fun key l l' linked linked' => (each key l l' linked linked').association)
    (fun key l l' linked linked' => (each key l l' linked linked').rows)
    fun key l l' linked linked' => (each key l l' linked linked').each

end Target

namespace Selection

open Fallible Success

variable {schema : Schema}

/-! ### Records, associations and targets -/

theorem argumentFilter_toOption (s : Selection) (declared : List DeclaredFilter) (path : Path)
    (argument : String) (value : Value) :
    (s.argumentFilter declared path argument value).toOption =
      (DeclaredFilter.find? declared argument).bind fun filter =>
        (filter.apply value).toOption := by
  unfold argumentFilter
  cases DeclaredFilter.find? declared argument with
  | none => rfl
  | some filter => exact toOption_mapError ..

/-- The filter of a list does not depend on its page. -/
theorem declaredFilter_alike {declared : List DeclaredFilter} {path path' : Path} {s t : Selection}
    (alike : Alike s t) {filter filter' : Filter}
    (done : s.declaredFilter declared paginationArguments path = .ok filter)
    (done' : t.declaredFilter declared paginationArguments path' = .ok filter') :
    filter = filter' := by
  obtain ⟨filters, made, done⟩ := bind_eq_ok.mp done
  obtain ⟨filters', made', done'⟩ := bind_eq_ok.mp done'
  have made := toOption_eq_some.mpr made
  have made' := toOption_eq_some.mpr made'
  have arguments : (s.arguments.filter fun entry => !paginationArguments.contains entry.1) =
      t.arguments.filter fun entry => !paginationArguments.contains entry.1 := alike.arguments
  simp only [toOption_mapM, argumentFilter_toOption] at made made'
  rw [arguments, made'] at made
  cases made
  exact Except.ok.inj (done.symm.trans done')

/-- Selections that are less deep and the same but for pages are bound to records that are
alike. -/
def FieldsAlike (schema : Schema) (depth : Nat) : Prop :=
  ∀ s : Selection, s.depth < depth → s.WellKeyed → ∀ t : Selection, t.WellKeyed → Alike s t →
    ∀ type path path' f f', bindField schema type path s = .ok f →
      bindField schema type path' t = .ok f' → f.Alike f'

section Below

variable {depth : Nat} (below : FieldsAlike schema depth) {s t : Selection} (keyed : s.WellKeyed)
  (keyed' : t.WellKeyed) (alike : Alike s t) {path path' : Path}

include below keyed keyed' alike

theorem bindEdge_alike (lower : s.depth ≤ depth) {type : ObjectType} {e e' : BoundEdge}
    (done : bindEdge schema type path s = .ok e) (done' : bindEdge schema type path' t = .ok e')
    {f f' : BoundField} (asked : e.node = some f) (asked' : e'.node = some f') : f.Alike f' := by
  obtain ⟨resolved, parts, isResolved, split, -, -, node⟩ := bindEdge_ok done
  obtain ⟨resolved', parts', isResolved', split', -, -, node'⟩ := bindEdge_ok done'
  obtain ⟨inner, there, isBound⟩ := node f asked
  obtain ⟨inner', there', isBound'⟩ := node' f' asked'
  have nodes := edgeParts_alike (resolveFragments_alike always_agree alike isResolved
    isResolved').children split split'
  rw [there, there'] at nodes
  have own := edgeParts_wellKeyed (fun entry present =>
    (resolveFragments_wellKeyed keyed isResolved).child present) split inner there
  have own' := edgeParts_wellKeyed (fun entry present =>
    (resolveFragments_wellKeyed keyed' isResolved').child present) split' inner' there'
  have deeper := depth_lt_of_parts isResolved (depth_edgeParts_lt split there)
  exact below inner (Nat.lt_of_lt_of_le deeper lower) own inner' own' nodes.alike _ _ _ f f'
    isBound isBound'

theorem bindConnection_alike (lower : s.depth ≤ depth) {type : ObjectType} {order : Order}
    {typed : Bool} {c c' : BoundConnection}
    (done : bindConnection schema order typed type path s = .ok c)
    (done' : bindConnection schema order typed type path' t = .ok c') :
    (Target.connection c).Alike (.connection c') := by
  obtain ⟨parts, made⟩ := bindConnection_ok done
  obtain ⟨parts', made'⟩ := bindConnection_ok done'
  obtain ⟨resolved, isResolved, split⟩ := made.split
  obtain ⟨resolved', isResolved', split'⟩ := made'.split
  have both := connectionParts_alike (resolveFragments_alike always_agree alike isResolved
    isResolved').children split split'
  have count : c.count = c'.count := by rw [made.counted, made'.counted, both.count]
  refine .of_record (congrArg some count) fun f f' asked asked' => ?_
  rcases made.edges with ⟨none, -⟩ | ⟨edges, e, there, isEdge, some⟩
  · rw [Target.record?, BoundConnection.node, none] at asked
    cases asked
  · rcases made'.edges with ⟨none, -⟩ | ⟨edges', e', there', isEdge', some'⟩
    · rw [Target.record?, BoundConnection.node, none] at asked'
      cases asked'
    · rw [Target.record?, BoundConnection.node, some] at asked
      rw [Target.record?, BoundConnection.node, some'] at asked'
      have asEdges := both.edges
      rw [there, there'] at asEdges
      have own := connectionParts_wellKeyed (fun entry present =>
        (resolveFragments_wellKeyed keyed isResolved).child present) split edges there
      have own' := connectionParts_wellKeyed (fun entry present =>
        (resolveFragments_wellKeyed keyed' isResolved').child present) split' edges' there'
      have deeper := depth_lt_of_parts isResolved (depth_connectionParts_lt split there)
      exact bindEdge_alike below own own' asEdges.alike (Nat.le_trans (Nat.le_of_lt deeper) lower)
        isEdge isEdge' asked asked'

/-- The targets of a position are alike type by type. -/
theorem bindTargets_alike (lower : s.depth < depth) {entry : EntryPoint} {name : String}
    {targets targets' : List Target}
    (done : bindTargets schema entry name path s = .ok targets)
    (done' : bindTargets schema entry name path' t = .ok targets') :
    targets.map Target.type = targets'.map Target.type ∧ Target.AlikeEach targets targets' := by
  rw [bindTargets] at done done'
  obtain ⟨types, isTypes, done⟩ := bind_eq_ok.mp done
  obtain ⟨types', isTypes', done'⟩ := bind_eq_ok.mp done'
  cases Except.ok.inj ((mapError_eq_ok.mp isTypes).symm.trans (mapError_eq_ok.mp isTypes'))
  obtain ⟨listed, each⟩ := bindEach_ok done
  obtain ⟨listed', each'⟩ := bindEach_ok done'
  refine ⟨listed.trans listed'.symm, fun target reached other reached' same => ?_⟩
  obtain ⟨type, -, bound⟩ := each target reached
  obtain ⟨type', -, bound'⟩ := each' other reached'
  rw [bindTarget_type bound, bindTarget_type bound'] at same
  cases same
  unfold bindTarget at bound bound'
  cases entry with
  | field =>
    obtain ⟨f, isBound, rfl⟩ := map_eq_ok.mp bound
    obtain ⟨f', isBound', rfl⟩ := map_eq_ok.mp bound'
    refine .of_record rfl fun own own' asked asked' => ?_
    cases asked
    cases asked'
    exact below s lower keyed t keyed' alike _ _ _ f f' isBound isBound'
  | connection order =>
    obtain ⟨c, isBound, rfl⟩ := map_eq_ok.mp bound
    obtain ⟨c', isBound', rfl⟩ := map_eq_ok.mp bound'
    exact bindConnection_alike below keyed keyed' alike (Nat.le_of_lt lower) isBound isBound'
  | edge =>
    obtain ⟨e, isBound, rfl⟩ := map_eq_ok.mp bound
    obtain ⟨e', isBound', rfl⟩ := map_eq_ok.mp bound'
    exact .of_record rfl fun f f' asked asked' =>
      bindEdge_alike below keyed keyed' alike (Nat.le_of_lt lower) isBound isBound' asked asked'

/-- An association is bound alike, and to the same filter if it leads to lists. -/
theorem bindLink_alike (lower : s.depth < depth) {association : Association} {l l' : BoundLink}
    (done : bindLink schema association path s = .ok l)
    (done' : bindLink schema association path' t = .ok l') : l.Alike l' := by
  rw [bindLink] at done done'
  split at done
  · rename_i many
    rw [if_pos many] at done'
    split at done
    · cases done
    · rename_i order isOrder
      rw [isOrder] at done'
      obtain ⟨filter, filtered, done⟩ := bind_eq_ok.mp done
      obtain ⟨targets, isTargets, done⟩ := bind_eq_ok.mp done
      cases pure_eq_ok.mp done
      obtain ⟨filter', filtered', done'⟩ := bind_eq_ok.mp done'
      obtain ⟨targets', isTargets', done'⟩ := bind_eq_ok.mp done'
      cases pure_eq_ok.mp done'
      obtain ⟨types, each⟩ := bindTargets_alike below keyed keyed' alike lower isTargets isTargets'
      exact ⟨rfl, ⟨types, fun _ _ => declaredFilter_alike alike filtered filtered'⟩, each⟩
  · rename_i one
    rw [if_neg one] at done'
    obtain ⟨filter, -, done⟩ := bind_eq_ok.mp done
    obtain ⟨targets, isTargets, done⟩ := bind_eq_ok.mp done
    cases pure_eq_ok.mp done
    obtain ⟨filter', -, done'⟩ := bind_eq_ok.mp done'
    obtain ⟨targets', isTargets', done'⟩ := bind_eq_ok.mp done'
    cases pure_eq_ok.mp done'
    obtain ⟨types, each⟩ := bindTargets_alike below keyed keyed' alike lower isTargets isTargets'
    exact ⟨rfl, ⟨types, fun _ reached => absurd reached (not_connection_of_field isTargets)⟩, each⟩

end Below

/-- Under the same key selections that are the same but for pages have children that are. -/
theorem child_alike {children others : List (String × Selection)}
    (same : Keyed.mapValues unpaged children = Keyed.mapValues unpaged others)
    (distinct : (children.map Prod.fst).Nodup) (distinct' : (others.map Prod.fst).Nodup)
    {key : String} {child other : Selection} (present : (key, child) ∈ children)
    (present' : (key, other) ∈ others) : Alike child other := by
  have found := congrArg (fun entries => Keyed.get? entries key) same
  simp only [Keyed.get?_mapValues, Keyed.get?_of_mem distinct present,
    Keyed.get?_of_mem distinct' present', Option.map_some] at found
  exact alike_iff.mpr (Option.some.inj found)

/-- Records are bound alike, however deep their selections are. -/
theorem fieldsAlike (schema : Schema) (depth : Nat) : FieldsAlike schema depth := by
  induction depth with
  | zero => exact fun s lower => absurd lower (Nat.not_lt_zero _)
  | succ depth ih =>
    intro s lower keyed t keyed' alike type path path' f f' done done'
    rw [bindField_eq] at done done'
    obtain ⟨resolved, isResolved, done⟩ := bind_eq_ok.mp done
    obtain ⟨items, isItems, done⟩ := bind_eq_ok.mp done
    cases pure_eq_ok.mp done
    obtain ⟨resolved', isResolved', done'⟩ := bind_eq_ok.mp done'
    obtain ⟨items', isItems', done'⟩ := bind_eq_ok.mp done'
    cases pure_eq_ok.mp done'
    have own := resolveFragments_wellKeyed keyed isResolved
    have own' := resolveFragments_wellKeyed keyed' isResolved'
    have both := resolveFragments_alike appliesTo_agree alike isResolved isResolved'
    intro key l l' linked linked'
    obtain ⟨child, association, known, asked, isBound⟩ :=
      child_of_mem_items isItems (mem_items linked)
    obtain ⟨child', association', known', asked', isBound'⟩ :=
      child_of_mem_items isItems' (mem_items linked')
    have children := child_alike both.children own.distinct own'.distinct known known'
    rw [children.name, asked'] at asked
    cases asked
    have deeper := depth_resolveFragments_le isResolved
    have inside := childrenDepth_le_depth resolved
    have lies : child.depth < childrenDepth resolved.children := depth_lt_childrenDepth known
    have lower : child.depth < depth := by omega
    exact bindLink_alike ih (own.child known) (own'.child known') children lower isBound isBound'

/-! ### Root fields -/

mutual

/-- The fragments of the query type are taken over alike. -/
theorem resolveRoot_alike : ∀ (s : Selection) {t resolved resolved' : Selection}, Alike s t →
    resolveRoot s = .ok resolved → resolveRoot t = .ok resolved' → Alike resolved resolved'
  | ⟨_, _, _, _, fragments⟩, ⟨_, _, _, _, _⟩, resolved, resolved', alike, done, done' => by
    rw [resolveRoot] at done done'
    exact spliceConditions_alike fragments alike.withoutFragments alike.fragments done done'

theorem spliceConditions_alike : ∀ (fragments : List (String × List Selection))
    {others : List (String × List Selection)} {s t resolved resolved' : Selection}, Alike s t →
    Keyed.mapValues (List.map unpaged) fragments = Keyed.mapValues (List.map unpaged) others →
    spliceConditions s fragments = .ok resolved → spliceConditions t others = .ok resolved' →
    Alike resolved resolved'
  | [], others, s, t, resolved, resolved', alike, same, done, done' => by
    cases List.map_eq_nil_iff.mp same.symm
    cases done
    cases done'
    exact alike
  | (condition, members) :: rest, [], s, t, resolved, resolved', alike, same, done, done' => by
    cases same
  | (condition, members) :: rest, (condition', members') :: rest', s, t, resolved, resolved', alike,
      same, done, done' => by
    obtain ⟨first, later⟩ := List.cons.inj same
    obtain ⟨rfl, own⟩ := Prod.mk.inj first
    rw [spliceConditions] at done done'
    split at done
    · rename_i accepted
      rw [if_pos accepted] at done'
      obtain ⟨next, spliced, done⟩ := bind_eq_ok.mp done
      obtain ⟨next', spliced', done'⟩ := bind_eq_ok.mp done'
      exact spliceConditions_alike rest (spliceMembers_alike members alike own spliced spliced')
        later done done'
    · cases done

theorem spliceMembers_alike : ∀ (members : List Selection) {others : List Selection}
    {s t resolved resolved' : Selection}, Alike s t →
    members.map unpaged = others.map unpaged → spliceMembers s members = .ok resolved →
    spliceMembers t others = .ok resolved' → Alike resolved resolved'
  | [], others, s, t, resolved, resolved', alike, same, done, done' => by
    cases List.map_eq_nil_iff.mp same.symm
    cases done
    cases done'
    exact alike
  | member :: rest, [], s, t, resolved, resolved', alike, same, done, done' => by
    cases same
  | member :: rest, member' :: rest', s, t, resolved, resolved', alike, same, done, done' => by
    obtain ⟨first, later⟩ := List.cons.inj same
    rw [spliceMembers] at done done'
    obtain ⟨inner, isInner, done⟩ := bind_eq_ok.mp done
    obtain ⟨next, spliced, done⟩ := bind_eq_ok.mp done
    obtain ⟨inner', isInner', done'⟩ := bind_eq_ok.mp done'
    obtain ⟨next', spliced', done'⟩ := bind_eq_ok.mp done'
    obtain ⟨none, rfl⟩ := conflict_of_result (mapError_eq_ok.mp spliced)
    obtain ⟨none', rfl⟩ := conflict_of_result (mapError_eq_ok.mp spliced')
    have own := resolveRoot_alike member (alike_iff.mpr first) isInner isInner'
    exact spliceMembers_alike rest (splice_alike inner alike own none none') later done done'

end

/-- Two root fields read the same rows as far as they are lists, for targets that are alike. -/
structure RootsAlike (read other : RootRead) : Prop where
  rows : SameRows read.filter other.filter read.targets other.targets
  each : Target.AlikeEach read.targets other.targets

theorem bindRoot_alike {key : String} {s t : Selection} (keyed : s.WellKeyed)
    (keyed' : t.WellKeyed) (alike : Alike s t) {read read' : RootRead}
    (done : bindRoot schema key s = .ok read) (done' : bindRoot schema key t = .ok read') :
    RootsAlike read read' := by
  have below := fieldsAlike schema (s.depth + 1)
  have lower := Nat.lt_succ_self s.depth
  unfold bindRoot at done done'
  rw [← alike.name] at done'
  dsimp only at done done'
  split at done
  · cases done
  · rename_i root isRoot
    rw [isRoot] at done'
    dsimp only at done'
    split at done
    · rename_i order isOrder
      rw [isOrder] at done'
      obtain ⟨filter, filtered, done⟩ := bind_eq_ok.mp done
      obtain ⟨targets, isTargets, done⟩ := bind_eq_ok.mp done
      cases pure_eq_ok.mp done
      obtain ⟨filter', filtered', done'⟩ := bind_eq_ok.mp done'
      obtain ⟨targets', isTargets', done'⟩ := bind_eq_ok.mp done'
      cases pure_eq_ok.mp done'
      obtain ⟨types, each⟩ := bindTargets_alike below keyed keyed' alike lower isTargets isTargets'
      exact ⟨⟨types, fun _ _ => declaredFilter_alike alike filtered filtered'⟩, each⟩
    · rename_i isSingle
      rw [isSingle] at done'
      obtain ⟨id, -, done⟩ := bind_eq_ok.mp done
      obtain ⟨filter, -, done⟩ := bind_eq_ok.mp done
      obtain ⟨targets, isTargets, done⟩ := bind_eq_ok.mp done
      cases pure_eq_ok.mp done
      obtain ⟨id', -, done'⟩ := bind_eq_ok.mp done'
      obtain ⟨filter', -, done'⟩ := bind_eq_ok.mp done'
      obtain ⟨targets', isTargets', done'⟩ := bind_eq_ok.mp done'
      cases pure_eq_ok.mp done'
      obtain ⟨types, each⟩ := bindTargets_alike below keyed keyed' alike lower isTargets isTargets'
      exact ⟨⟨types, fun _ reached => absurd reached (not_connection_of_field isTargets)⟩, each⟩

/-- **The root fields of queries that are the same but for their pages are alike** under every
key. -/
theorem rootReads_alike {s t : Selection} (keyed : s.WellKeyed) (keyed' : t.WellKeyed)
    (alike : Alike s t) {reads reads' : List RootRead} (done : s.rootReads schema = .ok reads)
    (done' : t.rootReads schema = .ok reads') {read read' : RootRead} (asked : read ∈ reads)
    (asked' : read' ∈ reads') (same : read.key = read'.key) : RootsAlike read read' := by
  obtain ⟨resolved, isResolved, isReads⟩ := bind_eq_ok.mp done
  obtain ⟨resolved', isResolved', isReads'⟩ := bind_eq_ok.mp done'
  obtain ⟨⟨key, child⟩, known, isRoot⟩ := exists_of_mem_mapM_ok isReads asked
  obtain ⟨⟨key', child'⟩, known', isRoot'⟩ := exists_of_mem_mapM_ok isReads' asked'
  obtain rfl : key = key' := by rw [← bindRoot_key isRoot, same, bindRoot_key isRoot']
  have own := resolveRoot_wellKeyed s keyed isResolved
  have own' := resolveRoot_wellKeyed t keyed' isResolved'
  have known := (List.mem_filter.mp known).1
  have known' := (List.mem_filter.mp known').1
  have both := resolveRoot_alike s alike isResolved isResolved'
  exact bindRoot_alike (own.child known) (own'.child known')
    (child_alike both.children own.distinct own'.distinct known known') isRoot isRoot'

end Selection

end GraphRead
