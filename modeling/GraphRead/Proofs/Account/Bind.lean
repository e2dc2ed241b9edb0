import GraphRead.Proofs.Account.Filed
import GraphRead.Proofs.Binding.Below
import GraphRead.Proofs.Filter.Lists
import GraphRead.Proofs.Repeat.Bind
/-!
What is bound stands for what is asked.

A part of a bound query carries a selection if it was bound from one that holds it
(`Part.Carries`). Then every field that the selection asks is one that its context has, the
arguments of associations and root fields are accounted for, and wherever the field is entered
there is a part below that carries it (`Part.Answers`). Each kind of context is checked by code of
its own, so there is one lemma per kind, and `answers_of_carries` puts them together.
-/

namespace GraphRead

open Fallible Selection

variable {schema : Schema}

/-! ### Arguments -/

/-- The conditions of a conjunction of filters on columns are these filters. -/
theorem Filter.conjuncts_allOf {filters : List Filter} (each : ∀ f ∈ filters, f.conjuncts = [f]) :
    (Filter.allOf filters).conjuncts = filters := by
  have all : filters.flatMap conjuncts = filters := by
    induction filters with
    | nil => rfl
    | cons f rest ih =>
      rw [List.forall_mem_cons] at each
      rw [List.flatMap_cons, each.1, ih each.2, List.singleton_append]
  rw [allOf, all]
  split
  · rfl
  · exact each _ List.mem_cons_self
  · rfl

/-- Every argument that is not allowed otherwise makes a condition of the filter. -/
theorem Selection.declaredFilter_ok {s : Selection} {declared : List DeclaredFilter}
    {allowed : List String} {path : Path} {filter : Filter}
    (done : s.declaredFilter declared allowed path = .ok filter) :
    ∀ argument ∈ s.arguments, argument.1 ∈ allowed ∨ ∃ own predicate,
      DeclaredFilter.find? declared argument.1 = some own ∧
        own.apply argument.2 = .ok predicate ∧ predicate ∈ filter.conjuncts := by
  obtain ⟨predicates, made, done⟩ := bind_eq_ok.mp done
  cases pure_eq_ok.mp done
  have scalar : ∀ predicate ∈ predicates, predicate.conjuncts = [predicate] := by
    intro predicate present
    obtain ⟨argument, -, applied⟩ := Success.exists_of_mem_mapM_ok made present
    obtain ⟨own, -, applied⟩ := argumentFilter_eq_ok.mp applied
    obtain ⟨condition, -, rfl⟩ := map_eq_ok.mp applied
    rfl
  rw [Filter.conjuncts_allOf scalar]
  intro argument present
  by_cases isAllowed : argument.1 ∈ allowed
  · exact .inl isAllowed
  · have restricting : argument ∈ s.arguments.filter fun entry => !allowed.contains entry.1 :=
      List.mem_filter.mpr ⟨present, by simpa using isAllowed⟩
    obtain ⟨predicate, known, applied⟩ :=
      Success.exists_mem_of_mapM_ok made argument restricting
    obtain ⟨own, found, applied⟩ := argumentFilter_eq_ok.mp applied
    exact .inr ⟨own, predicate, found, applied, known⟩

/-- The same of the arguments of an invocation that was merged into the one that is bound. -/
theorem Selection.accounted {s child s' : Selection} {declared : List DeclaredFilter}
    {allowed : List String} {path : Path} {filter : Filter} (tidy : Repeats s s')
    (same : sameArguments s.arguments child.arguments = true)
    (done : s.declaredFilter declared allowed path = .ok filter) :
    ∀ argument ∈ child.arguments, argument.1 ∈ allowed ∨ ∃ own value predicate,
      DeclaredFilter.find? declared argument.1 = some own ∧ Value.same value argument.2 = true ∧
        own.apply value = .ok predicate ∧ predicate ∈ filter.conjuncts := by
  intro argument present
  obtain ⟨value, known, sameValue⟩ := exists_of_sameArguments same tidy.named argument present
  rcases declaredFilter_ok done _ known with isAllowed | ⟨own, predicate, found, applied, conjunct⟩
  · exact .inl isAllowed
  · exact .inr ⟨own, value, predicate, found, sameValue, applied, conjunct⟩

/-! ### Parts that carry selections -/

/-- A selection that is filed among the children of another one is held by one of them. -/
theorem Selection.Filed.exists_mem {child resolved resolved' : Selection}
    (filed : Filed child resolved.children) (tidy : Repeats resolved resolved') :
    ∃ there there', (child.outputKey, there) ∈ resolved.children ∧ Repeats there there' ∧
      there.name = child.name ∧ sameArguments there.arguments child.arguments = true ∧
      Within child there := by
  obtain ⟨found, name, arguments, inside⟩ := filed
  have present := Keyed.mem_of_get? found
  obtain ⟨there', -, own⟩ := tidy.children.exists_of_mem present
  exact ⟨_, there', present, own, name, arguments, inside⟩

/-- What is asked is held by a child, once fragments are resolved. -/
theorem Selection.exists_of_resolveFragments {here : Context}
    {accept : String → Except BindError Bool}
    (agrees : ∀ condition, here.Applies schema condition → accept condition = .ok true)
    {path : Path} {s t t' resolved child : Selection} (tidy : Repeats t t') (within : Within s t)
    (done : resolveFragments accept path t = .ok resolved) (asked : Asked schema here s child) :
    ∃ resolved' there there', Repeats resolved resolved' ∧
      (child.outputKey, there) ∈ resolved.children ∧ Repeats there there' ∧
      there.name = child.name ∧ sameArguments there.arguments child.arguments = true ∧
      Within child there := by
  have both := resolveFragments_inStep tidy accept path
  rw [done] at both
  obtain ⟨resolved', -, both⟩ := InStep.ok_iff.mp both
  exact ⟨resolved', (filed_of_resolveFragments agrees tidy within done asked).exists_mem both
    |>.imp fun _ => Exists.imp fun _ held => ⟨both, held⟩⟩

/-- A part of a bound query was bound from a selection that holds another one. -/
inductive Part.Carries (schema : Schema) : Context → Selection → Part → Prop
  | query {root root' : Selection} {reads : List RootRead} (tidy : Repeats root root')
    (done : root.rootReads schema = .ok reads) : Carries schema .query root (.reads reads)
  | record {type : ObjectType} {path : Path} {s t t' : Selection} {f : BoundField}
    (tidy : Repeats t t') (within : Within s t) (done : bindField schema type path t = .ok f) :
    Carries schema (.record type) s (.target (.field f))
  | list {type : ObjectType} {order : Order} {typed : Bool} {path : Path} {s t t' : Selection}
    {c : BoundConnection} (tidy : Repeats t t') (within : Within s t)
    (done : bindConnection schema order typed type path t = .ok c) :
    Carries schema (.list type) s (.target (.connection c))
  | edge {type : ObjectType} {path : Path} {s t t' : Selection} {e : BoundEdge}
    (tidy : Repeats t t') (within : Within s t) (done : bindEdge schema type path t = .ok e) :
    Carries schema (.edge type) s (.target (.edge e))
  | pageInfo {path : Path} {s t t' : Selection} {request : PageInfoRequest} (tidy : Repeats t t')
    (within : Within s t) (done : pageInfoRequest path t = .ok request) :
    Carries schema .pageInfo s .nothing
  | leaf {s : Selection} : Carries schema .leaf s .nothing

/-- A field that is asked is one that its context has, its arguments are accounted for unless it is
one of those that stand in every schema, and there is a part below wherever it is entered. -/
def Part.Answers (schema : Schema) (here : Context) (part : Part) (child : Selection) : Prop :=
  ∃ offer, here.offer? schema child.name = some offer ∧
    (offer.isFixed = false → ∀ argument ∈ child.arguments,
      part.Accounts child.outputKey offer argument) ∧
    ∀ next, offer.Enters schema next → (∃ inner, part.Leads child.outputKey next inner) ∧
      ∀ inner, part.Leads child.outputKey next inner → Carries schema next child inner

/-- The context in which a selection is entered. -/
def EntryPoint.context (type : ObjectType) : EntryPoint → Context
  | .field => .record type
  | .connection _ => .list type
  | .edge => .edge type

/-- Every target carries what it was bound from, in the context of its type. -/
theorem Part.carries_target {entry : EntryPoint} {name : String} {path : Path}
    {child there there' : Selection} {targets : List Target} (tidy : Repeats there there')
    (within : Within child there)
    (done : bindTargets schema entry name path there = .ok targets) :
    ∀ target ∈ targets, Part.contextOf target = entry.context target.type ∧
      Part.Carries schema (Part.contextOf target) child (.target target) := by
  intro target reached
  rw [bindTargets] at done
  obtain ⟨types, -, done⟩ := bind_eq_ok.mp done
  obtain ⟨type, -, bound⟩ := (bindEach_ok done).2 target reached
  obtain rfl := bindTarget_type bound
  unfold bindTarget at bound
  cases entry with
  | field =>
    obtain ⟨f, isBound, rfl⟩ := map_eq_ok.mp bound
    exact ⟨rfl, .record tidy within isBound⟩
  | connection order =>
    obtain ⟨c, isBound, rfl⟩ := map_eq_ok.mp bound
    exact ⟨rfl, .list tidy within isBound⟩
  | edge =>
    obtain ⟨e, isBound, rfl⟩ := map_eq_ok.mp bound
    exact ⟨rfl, .edge tidy within isBound⟩

/-- Only a target stands for what is entered at a position of its own. -/
theorem Part.Leads.exists_target {part inner : Part} {key : String} {entry : EntryPoint}
    {type : ObjectType} (leads : part.Leads key (entry.context type) inner) :
    (∃ reads read target, part = .reads reads ∧ read ∈ reads ∧ read.key = key ∧
        target ∈ read.targets ∧ contextOf target = entry.context type ∧ inner = .target target) ∨
      (∃ f l target, part = .target (.field f) ∧ (key, .link l) ∈ f.items ∧ target ∈ l.targets ∧
        contextOf target = entry.context type ∧ inner = .target target) ∨
      (∃ c, part = .target (.connection c)) ∨ ∃ e, part = .target (.edge e) := by
  generalize known : entry.context type = next at leads
  cases leads with
  | read asked named bound context =>
    exact .inl ⟨_, _, _, rfl, asked, named, bound, context, rfl⟩
  | link asked bound context => exact .inr (.inl ⟨_, _, _, rfl, asked, bound, context, rfl⟩)
  | edges => exact .inr (.inr (.inl ⟨_, rfl⟩))
  | node => exact .inr (.inr (.inr ⟨_, rfl⟩))
  | pageInfo => cases entry <;> cases known
  | leaf => cases entry <;> cases known

/-- Nothing stands for a page info and for a field without fields of its own. -/
theorem Part.Leads.eq_nothing {part inner : Part} {key : String} {next : Context}
    (leads : part.Leads key next inner) (plain : next = .pageInfo ∨ next = .leaf) :
    inner = .nothing := by
  have none (target : Target) : ¬(contextOf target = .pageInfo ∨ contextOf target = .leaf) := by
    cases target <;> simp [contextOf]
  cases leads with
  | read _ _ _ context => exact absurd (context ▸ plain) (none _)
  | link _ _ context => exact absurd (context ▸ plain) (none _)
  | @edges _ _ e => exact absurd plain (none (.edge e))
  | @node _ _ f => exact absurd plain (none (.field f))
  | pageInfo => rfl
  | leaf => rfl

theorem Part.Leads.edge_eq {c : BoundConnection} {inner : Part} {key : String} {type : ObjectType}
    (leads : (Part.target (.connection c)).Leads key (.edge type) inner) :
    ∃ e, c.edges = some e ∧ inner = .target (.edge e) := by
  cases leads with
  | edges asked => exact ⟨_, asked, rfl⟩

theorem Part.Leads.node_eq {e : BoundEdge} {inner : Part} {key : String} {type : ObjectType}
    (leads : (Part.target (.edge e)).Leads key (.record type) inner) :
    ∃ f, e.node = some f ∧ inner = .target (.field f) := by
  cases leads with
  | node asked => exact ⟨_, asked, rfl⟩

/-- There is a target for every type behind the name that a position is bound to. -/
theorem Part.exists_target {entry : EntryPoint} {name : String} {path : Path}
    {child there there' : Selection} {targets : List Target} (tidy : Repeats there there')
    (within : Within child there)
    (done : bindTargets schema entry name path there = .ok targets) {types : List ObjectType}
    {type : ObjectType} (behind : schema.coveredTypes name = .ok types) (covered : type ∈ types) :
    ∃ target ∈ targets, Part.contextOf target = entry.context type := by
  have listed := (types_of_bindTargets done).symm.trans behind
  rw [← Except.ok.inj listed] at covered
  obtain ⟨target, reached, rfl⟩ := List.mem_map.mp covered
  exact ⟨target, reached, (carries_target tidy within done target reached).1⟩

/-! ### Records -/

theorem Selection.arguments_eq_nil {there child : Selection} {path : Path} {u : Unit}
    (same : sameArguments there.arguments child.arguments = true)
    (none : there.withoutArguments path = .ok u) : child.arguments = [] := by
  have length := (sameArguments_iff.mp same).1
  unfold withoutArguments at none
  split at none
  · rename_i empty
    rw [empty] at length
    exact List.length_eq_zero_iff.mp length.symm
  · cases none

/-- An association is bound to the filter of its arguments and to its targets. -/
theorem Selection.bindLink_parts {a : Association} {path : Path} {s : Selection} {l : BoundLink}
    (done : bindLink schema a path s = .ok l) :
    ∃ entry, s.declaredFilter a.filters (Offer.association a).allowed path = .ok l.filter ∧
      bindTargets schema entry a.target path s = .ok l.targets ∧
      ((a.isMany = true ∧ ∃ order, entry = .connection order) ∨
        (a.isMany = false ∧ entry = .field)) := by
  have allowed : (Offer.association a).allowed = if a.isMany then paginationArguments else [] := rfl
  rw [bindLink] at done
  rw [allowed]
  split at done
  · rename_i many
    rw [if_pos many]
    split at done
    · cases done
    · rename_i order _
      obtain ⟨filter, filtered, done⟩ := bind_eq_ok.mp done
      obtain ⟨targets, isTargets, done⟩ := bind_eq_ok.mp done
      cases pure_eq_ok.mp done
      exact ⟨.connection order, filtered, isTargets, .inl ⟨many, order, rfl⟩⟩
  · rename_i one
    rw [if_neg one]
    obtain ⟨filter, filtered, done⟩ := bind_eq_ok.mp done
    obtain ⟨targets, isTargets, done⟩ := bind_eq_ok.mp done
    cases pure_eq_ok.mp done
    exact ⟨.field, filtered, isTargets, .inr ⟨by simpa using one, rfl⟩⟩

/-- An association is entered once per type, as it is bound. -/
theorem Offer.Enters.association {a : Association} {next : Context} {entry : EntryPoint}
    (enters : Offer.Enters schema (.association a) next)
    (entered : (a.isMany = true ∧ ∃ order, entry = .connection order) ∨
      (a.isMany = false ∧ entry = .field)) :
    ∃ types type, schema.coveredTypes a.target = .ok types ∧ type ∈ types ∧
      next = entry.context type := by
  cases enters with
  | toMany many behind covered =>
    rcases entered with ⟨-, order, rfl⟩ | ⟨one, -⟩
    · exact ⟨_, _, behind, covered, rfl⟩
    · rw [many] at one
      cases one
  | toOne one behind covered =>
    rcases entered with ⟨many, -⟩ | ⟨-, rfl⟩
    · rw [one] at many
      cases many
    · exact ⟨_, _, behind, covered, rfl⟩

/-- A root field is bound to the filter of its arguments and to its targets. -/
theorem Selection.bindRoot_parts {key : String} {s : Selection} {read : RootRead}
    (done : bindRoot schema key s = .ok read) :
    ∃ field path entry, Keyed.get? schema.roots s.name = some field ∧
      s.declaredFilter field.filters (Offer.root field).allowed path = .ok read.filter ∧
      bindTargets schema entry field.target path s = .ok read.targets ∧
      ((∃ order, field.kind = .connection order ∧ entry = .connection order) ∨
        (field.kind = .single ∧ entry = .field)) := by
  unfold bindRoot at done
  dsimp only at done
  split at done
  · cases done
  · rename_i field known
    refine ⟨field, Path.add rootPath key, ?_⟩
    split at done
    · rename_i order many
      obtain ⟨filter, filtered, done⟩ := bind_eq_ok.mp done
      obtain ⟨targets, isTargets, done⟩ := bind_eq_ok.mp done
      cases pure_eq_ok.mp done
      refine ⟨.connection order, known, ?_, isTargets, .inl ⟨order, many, rfl⟩⟩
      rwa [Offer.allowed, many]
    · rename_i single
      obtain ⟨id, -, done⟩ := bind_eq_ok.mp done
      obtain ⟨filter, filtered, done⟩ := bind_eq_ok.mp done
      obtain ⟨targets, isTargets, done⟩ := bind_eq_ok.mp done
      cases pure_eq_ok.mp done
      refine ⟨.field, known, ?_, isTargets, .inr ⟨single, rfl⟩⟩
      rwa [Offer.allowed, single]

/-- A root field is entered once per type, as it is bound. -/
theorem Offer.Enters.root {field : RootField} {next : Context} {entry : EntryPoint}
    (enters : Offer.Enters schema (.root field) next)
    (entered : (∃ order, field.kind = .connection order ∧ entry = .connection order) ∨
      (field.kind = .single ∧ entry = .field)) :
    ∃ types type, schema.coveredTypes field.target = .ok types ∧ type ∈ types ∧
      next = entry.context type := by
  cases enters with
  | list many behind covered =>
    rcases entered with ⟨order, -, rfl⟩ | ⟨single, -⟩
    · exact ⟨_, _, behind, covered, rfl⟩
    · rw [many] at single
      cases single
  | lookup single behind covered =>
    rcases entered with ⟨order, many, -⟩ | ⟨-, rfl⟩
    · rw [single] at many
      cases many
    · exact ⟨_, _, behind, covered, rfl⟩

namespace Part

variable {here : Context} {path : Path} {s t t' child : Selection} {type : ObjectType}

/-- A field without arguments and without fields of its own. -/
theorem answers_leaf {part : Part} {offer : Offer}
    (offered : here.offer? schema child.name = some offer)
    (leads : ∀ next, offer.Enters schema next → next = .leaf)
    (unasked : offer.isFixed = false → child.arguments = []) : part.Answers schema here child := by
  refine ⟨offer, offered, fun plain argument present => ?_, fun next enters => ?_⟩
  · rw [unasked plain] at present
    cases present
  · rw [leads next enters]
    exact ⟨⟨.nothing, .leaf⟩, fun inner below => below.eq_nothing (.inr rfl) ▸ .leaf⟩

theorem enters_plain {next : Context} (enters : Offer.plain.Enters schema next) :
    next = .leaf := by
  cases enters
  rfl

theorem enters_fixed {next inner : Context} (enters : (Offer.fixed inner).Enters schema next) :
    next = inner := by
  cases enters
  rfl

/-- The fields of a record are attributes, associations and `id`, or they are left out. -/
theorem answers_record {f : BoundField} (tidy : Repeats t t') (within : Within s t)
    (done : bindField schema type path t = .ok f) (asked : Asked schema (.record type) s child) :
    Answers schema (.record type) (.target (.field f)) child := by
  rw [bindField_eq] at done
  obtain ⟨resolved, isResolved, done⟩ := bind_eq_ok.mp done
  obtain ⟨items, isItems, done⟩ := bind_eq_ok.mp done
  cases pure_eq_ok.mp done
  have agrees (condition : String) (applies : (Context.record type).Applies schema condition) :
      appliesTo schema type.name path condition = .ok true := mapError_eq_ok.mpr applies
  obtain ⟨resolved', there, there', both, present, own, name, arguments, inside⟩ :=
    exists_of_resolveFragments agrees tidy within isResolved asked
  obtain ⟨item, isItem, listed⟩ := bindItem_of_mem isItems _ present
  unfold bindItem at isItem
  rw [name] at isItem
  cases known : type.field? child.name with
  | some kind =>
    rw [known] at isItem
    cases kind with
    | scalar a =>
      obtain ⟨u, none, -⟩ := bind_eq_ok.mp isItem
      exact answers_leaf (by simp [Context.offer?, known]) (fun _ => enters_plain)
        fun _ => arguments_eq_nil arguments none
    | link a =>
      obtain ⟨l, isLink, same⟩ := map_eq_ok.mp isItem
      have linked := listed _ same.symm
      obtain ⟨entry, filtered, isTargets, entered⟩ := bindLink_parts isLink
      refine ⟨.association a, by simp [Context.offer?, known], fun _ argument present => ?_,
        fun next enters => ?_⟩
      · rcases accounted own arguments filtered argument present with
          isAllowed | ⟨own, value, predicate, declares, same, applied, conjunct⟩
        · exact .inl isAllowed
        · exact .inr ⟨own, value, predicate, declares, same, applied, .link linked conjunct⟩
      · obtain ⟨types, type', behind, covered, rfl⟩ := enters.association entered
        obtain ⟨target, reached, context⟩ := exists_target own inside isTargets behind covered
        refine ⟨⟨.target target, .link linked reached context⟩, fun inner below => ?_⟩
        rcases below.exists_target with ⟨_, _, _, other, -⟩ |
          ⟨_, l', target', same, linked', reached', context', rfl⟩ | ⟨_, other⟩ | ⟨_, other⟩
        · cases other
        · cases same
          obtain ⟨there'', a', present', known', isLink'⟩ := child_of_mem_items isItems linked'
          cases List.inj_on_of_nodup_map both.distinct present present' rfl
          rw [name, known] at known'
          cases known'
          cases Except.ok.inj (isLink.symm.trans isLink')
          exact context' ▸ (carries_target own inside isTargets target' reached').2
        · cases other
        · cases other
  | none =>
    rw [known] at isItem
    dsimp only at isItem
    split at isItem
    · rename_i isId
      obtain ⟨u, none, -⟩ := bind_eq_ok.mp isItem
      exact answers_leaf (by rw [Context.offer?, known]; exact if_pos isId) (fun _ => enters_plain)
        fun _ => arguments_eq_nil arguments none
    · rename_i notId
      split at isItem
      · rename_i elided
        exact answers_leaf (by simp [Context.offer?, known, notId, elided])
          (fun _ => enters_fixed) fun plain => absurd plain.symm Bool.false_ne_true
      · cases isItem

/-! ### Connections, edges and page infos -/

theorem always_agrees (condition : String) (_ : here.Applies schema condition) :
    always condition = .ok true := rfl

theorem exists_repeats {there there' : Option Selection} (both : Option.Rel Repeats there there')
    {s : Selection} (known : there = some s) : ∃ s', Repeats s s' := by
  subst known
  cases both with
  | some own => exact ⟨_, own⟩

/-- What the fields of a connection are entered in. -/
theorem offer_list {name : String} {offer : Offer}
    (offered : (Context.list type).offer? schema name = some offer) :
    (name = "edges" ∧ offer = .fixed (.edge type)) ∨
      (name = "pageInfo" ∧ offer = .fixed .pageInfo) ∨ offer = .fixed .leaf := by
  unfold Context.offer? at offered
  dsimp only at offered
  split at offered
  · cases offered
    exact .inl ⟨‹_›, rfl⟩
  · split at offered
    · cases offered
      exact .inr (.inl ⟨‹_›, rfl⟩)
    · split at offered
      · cases offered
        exact .inr (.inr rfl)
      · cases offered

/-- What the fields of an edge are entered in. -/
theorem offer_edge {name : String} {offer : Offer}
    (offered : (Context.edge type).offer? schema name = some offer) :
    (name = "node" ∧ offer = .fixed (.record type)) ∨ offer = .fixed .leaf := by
  unfold Context.offer? at offered
  dsimp only at offered
  split at offered
  · cases offered
    exact .inl ⟨‹_›, rfl⟩
  · split at offered
    · cases offered
      exact .inr rfl
    · cases offered

/-- A field that stands in every schema is answered by the part in which it is entered. -/
theorem answers_fixed {part inner : Part} {next : Context}
    (offered : here.offer? schema child.name = some (.fixed next))
    (leads : part.Leads child.outputKey next inner)
    (carries : ∀ inner, part.Leads child.outputKey next inner → Carries schema next child inner) :
    part.Answers schema here child := by
  refine ⟨.fixed next, offered, fun plain => absurd plain.symm Bool.false_ne_true,
    fun next' enters => ?_⟩
  cases enters_fixed enters
  exact ⟨⟨inner, leads⟩, carries⟩

theorem answers_fixed_leaf {part : Part}
    (offered : here.offer? schema child.name = some (.fixed .leaf)) :
    part.Answers schema here child :=
  answers_fixed offered .leaf fun _ below => below.eq_nothing (.inr rfl) ▸ .leaf

/-- The fields of a connection are its edges, its page info and its count. -/
theorem answers_list {order : Order} {typed : Bool} {c : BoundConnection} (tidy : Repeats t t')
    (within : Within s t) (done : bindConnection schema order typed type path t = .ok c)
    (asked : Asked schema (.list type) s child) :
    Answers schema (.list type) (.target (.connection c)) child := by
  obtain ⟨parts, made⟩ := bindConnection_ok done
  obtain ⟨resolved, isResolved, split⟩ := made.split
  obtain ⟨resolved', there, there', both, present, own, name, -, inside⟩ :=
    exists_of_resolveFragments always_agrees tidy within isResolved asked
  obtain ⟨offered, edges, pageInfo⟩ := connectionParts_holds schema split _ present
  rw [name] at offered edges pageInfo
  obtain ⟨offer, offered⟩ := Option.isSome_iff_exists.mp offered
  rcases offer_list offered with ⟨isEdges, rfl⟩ | ⟨isInfo, rfl⟩ | rfl
  · obtain ⟨merged, known, held⟩ := edges isEdges there' own
    rcases made.edges with ⟨-, none⟩ | ⟨asked, bound, known', isBound, isEdge⟩
    · rw [known] at none
      cases none
    · cases Option.some.inj (known.symm.trans known')
      obtain ⟨-, -, -, -, -, rfl, -⟩ := bindEdge_ok isBound
      have split_tidy := connectionParts_inStep both.children bound.type.name path
      rw [split] at split_tidy
      obtain ⟨parts', -, same⟩ := InStep.ok_iff.mp split_tidy
      obtain ⟨merged', merged_tidy⟩ := exists_repeats same.edges known
      refine answers_fixed offered (.edges isEdge) fun inner below => ?_
      obtain ⟨e, isEdge', rfl⟩ := below.edge_eq
      cases isEdge.symm.trans isEdge'
      exact .edge merged_tidy (Within.trans child inside own held) isBound
  · obtain ⟨request, isRequest⟩ := pageInfo isInfo
    exact answers_fixed offered .pageInfo fun inner below =>
      below.eq_nothing (.inl rfl) ▸ .pageInfo own inside isRequest
  · exact answers_fixed_leaf offered

/-- The fields of an edge are its node and its cursor. -/
theorem answers_edge {e : BoundEdge} (tidy : Repeats t t') (within : Within s t)
    (done : bindEdge schema type path t = .ok e) (asked : Asked schema (.edge type) s child) :
    Answers schema (.edge type) (.target (.edge e)) child := by
  rw [bindEdge_eq] at done
  obtain ⟨resolved, isResolved, done⟩ := bind_eq_ok.mp done
  obtain ⟨parts, split, done⟩ := bind_eq_ok.mp done
  obtain ⟨node, isNode, done⟩ := bind_eq_ok.mp done
  cases pure_eq_ok.mp done
  obtain ⟨resolved', there, there', both, present, own, name, -, inside⟩ :=
    exists_of_resolveFragments always_agrees tidy within isResolved asked
  obtain ⟨offered, holds⟩ := edgeParts_holds schema split _ present
  rw [name] at offered holds
  obtain ⟨offer, offered⟩ := Option.isSome_iff_exists.mp offered
  rcases offer_edge offered with ⟨isField, rfl⟩ | rfl
  · obtain ⟨merged, known, held⟩ := holds isField there' own
    have split_tidy := edgeParts_inStep both.children type.name path
    rw [split] at split_tidy
    obtain ⟨parts', -, same⟩ := InStep.ok_iff.mp split_tidy
    obtain ⟨merged', merged_tidy⟩ := exists_repeats same.node known
    rw [known] at isNode
    obtain ⟨bound, isBound, rfl⟩ := map_eq_ok.mp isNode
    obtain rfl := bindField_type isBound
    refine answers_fixed offered (.node rfl) fun inner below => ?_
    obtain ⟨f, isField', rfl⟩ := below.node_eq
    cases isField'
    exact .record merged_tidy (Within.trans child inside own held) isBound
  · exact answers_fixed_leaf offered

/-- The fields of a page info say something about its page. -/
theorem answers_pageInfo {request : PageInfoRequest} (tidy : Repeats t t') (within : Within s t)
    (done : pageInfoRequest path t = .ok request) (asked : Asked schema .pageInfo s child) :
    Answers schema .pageInfo .nothing child := by
  obtain ⟨resolved, isResolved, done⟩ := bind_eq_ok.mp done
  obtain ⟨-, there, -, -, present, -, name, -, -⟩ :=
    exists_of_resolveFragments always_agrees tidy within isResolved asked
  let holds (entry : String × Selection) (_ : PageInfoRequest) : Prop :=
    (Context.pageInfo.offer? schema entry.2.name).isSome
  have offered : holds (child.outputKey, there) request := foldlM_each holds
    (fun _ _ _ step => pageInfoField_offered step) (fun _ _ _ _ _ held => held) done _ present
  dsimp only [holds] at offered
  rw [name] at offered
  obtain ⟨offer, offered⟩ := Option.isSome_iff_exists.mp offered
  have isLeaf : offer = .fixed .leaf := by
    unfold Context.offer? at offered
    dsimp only at offered
    split at offered
    · cases offered
      rfl
    · cases offered
  subst isLeaf
  exact answers_fixed_leaf offered

/-! ### The query type -/

/-- The fields of the query type are the declared root fields. -/
theorem answers_query {root root' : Selection} {reads : List RootRead} (tidy : Repeats root root')
    (done : root.rootReads schema = .ok reads) (asked : Asked schema .query root child) :
    Answers schema .query (.reads reads) child := by
  obtain ⟨resolved, isResolved, done⟩ := bind_eq_ok.mp done
  have both := resolveRoot_inStep root' tidy
  rw [isResolved] at both
  obtain ⟨resolved', -, both⟩ := InStep.ok_iff.mp both
  obtain ⟨there, there', present, own, name, arguments, inside⟩ :=
    (filed_of_resolveRoot root tidy isResolved child asked).exists_mem both
  by_cases isName : child.name = typeName
  · exact answers_fixed_leaf (by rw [Context.offer?, if_pos isName])
  · have read : (child.outputKey, there) ∈
        resolved.children.filter fun entry => entry.2.name ≠ typeName :=
      List.mem_filter.mpr ⟨present, by simpa [name] using isName⟩
    obtain ⟨bound, listed, isBound⟩ := Success.exists_mem_of_mapM_ok done _ read
    have key := bindRoot_key isBound
    obtain ⟨field, path, entry, known, filtered, isTargets, entered⟩ := bindRoot_parts isBound
    rw [name] at known
    refine ⟨.root field, ?_, fun _ argument present => ?_, fun next enters => ?_⟩
    · rw [Context.offer?, if_neg isName, known]
      rfl
    · rcases accounted own arguments filtered argument present with
        isAllowed | ⟨own, value, predicate, declares, same, applied, conjunct⟩
      · exact .inl isAllowed
      · exact .inr ⟨own, value, predicate, declares, same, applied, .read listed key conjunct⟩
    · obtain ⟨types, type', behind, covered, rfl⟩ := enters.root entered
      obtain ⟨target, reached, context⟩ := exists_target own inside isTargets behind covered
      refine ⟨⟨.target target, .read listed key reached context⟩, fun inner below => ?_⟩
      rcases below.exists_target with
        ⟨_, bound', target', same, listed', key', reached', context', rfl⟩ |
        ⟨_, _, _, other, -⟩ | ⟨_, other⟩ | ⟨_, other⟩
      · cases same
        obtain ⟨⟨key'', there''⟩, present', isBound'⟩ :=
          Success.exists_of_mem_mapM_ok done listed'
        cases (bindRoot_key isBound').symm.trans key'
        cases List.inj_on_of_nodup_map both.distinct present (List.mem_filter.mp present').1 rfl
        cases Except.ok.inj (isBound.symm.trans isBound')
        exact context' ▸ (carries_target own inside isTargets target' reached').2
      · cases other
      · cases other
      · cases other

/-- **Whatever carries a selection answers all that it asks.** -/
theorem answers_of_carries {part : Part} (carries : Carries schema here s part)
    (fields : here ≠ .leaf) (asked : Asked schema here s child) :
    part.Answers schema here child := by
  cases carries with
  | query tidy done => exact answers_query tidy done asked
  | record tidy within done => exact answers_record tidy within done asked
  | list tidy within done => exact answers_list tidy within done asked
  | edge tidy within done => exact answers_edge tidy within done asked
  | pageInfo tidy within done => exact answers_pageInfo tidy within done asked
  | leaf => exact absurd rfl fields

end Part

end GraphRead
