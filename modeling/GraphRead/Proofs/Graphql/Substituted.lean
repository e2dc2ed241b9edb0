import GraphRead.Proofs.Document.Mapped
import GraphRead.Proofs.Graphql.WrittenOut
/-!
Passing a value through a variable is writing it.

A literal has the value of what it was made of, up to the order of the members of objects. So the
document that is written out is converted without variables to what the document with its variables
is converted to, up to that order, and exactly to it where the supplied values have their keys in
ascending order (`convert_writtenOut`). That a result is the same up to something is said by a map
of values (`Variables.Looks`): sorting the members of objects, or no change at all.
-/

namespace GraphRead.Graphql

open Fallible

namespace Input

variable {ν μ : Type}

variable (f : ν → μ) (lookup : μ → Except QueryFault (Option Value))

mutual

theorem value_rename : ∀ input : Input ν,
    (input.rename f).value lookup = input.value fun name => lookup (f name)
  | list items => by rw [rename, value, value, itemValues_rename items]
  | object members => by rw [rename, value, value, memberValues_rename members]
  | var _ | int _ | float _ | string _ | boolean _ | null | enum _ => rfl

theorem itemValues_rename : ∀ items : List (Input ν),
    itemValues lookup (renameItems f items) = itemValues (fun name => lookup (f name)) items
  | [] => rfl
  | item :: rest => by
    rw [renameItems, itemValues, itemValues, value_rename item, itemValues_rename rest]

theorem memberValues_rename : ∀ members : List (String × Input ν),
    memberValues lookup (renameMembers f members) =
      memberValues (fun name => lookup (f name)) members
  | [] => rfl
  | (key, item) :: rest => by
    rw [renameMembers, memberValues, memberValues, value_rename item, memberValues_rename rest]

end

end Input

namespace Variables

/-! ### Values of what is written out -/

/-- Whether two lists or objects look alike depends on whether their parts do. -/
structure Looks (look : Value → Value) : Prop where
  list : ∀ items others : List Value, items.map look = others.map look →
    look (.list items) = look (.list others)
  object : ∀ members others : List (String × Value),
    members.map (Prod.map id look) = others.map (Prod.map id look) →
    look (.object members) = look (.object others)

theorem looks_id : Looks id where
  list items others same := by
    rw [List.map_id, List.map_id] at same
    exact congrArg Value.list same
  object members others same := by
    rw [Prod.map_id, List.map_id, List.map_id] at same
    exact congrArg Value.object same

theorem looks_sorted : Looks Value.sorted where
  list items others same := by
    rw [Value.sorted, Value.sorted, Value.sortedItems_eq, Value.sortedItems_eq, same]
  object members others same := by
    rw [Value.sorted, Value.sorted, Value.sortedMembers_eq, Value.sortedMembers_eq, same]

variable {given : Variables}

/-- A variable is without a value and no fault exactly if it was left out. -/
theorem lookup_eq_none {name : String} :
    given.lookup name = .ok none ↔ given.omits name = true := by
  have known : ¬ false = true := Bool.false_ne_true
  unfold lookup omits
  cases Keyed.get? given.supplied name with
  | some json =>
    refine iff_of_false (fun none => ?_) known
    dsimp only at none
    split at none <;> cases none
  | none =>
    cases given.declaration? name with
    | none =>
      refine iff_of_false (fun none => ?_) known
      cases none
    | some definition =>
      obtain ⟨_, type, default⟩ := definition
      cases default with
      | none => cases required : type.isRequired <;> simp [required]
      | some default =>
        refine iff_of_false (fun none => ?_) known
        obtain ⟨v, _, same⟩ := map_eq_ok.mp none
        cases same

section Values

variable {look : Value → Value}

/-- The value that was supplied for a variable, if any, is plain and looks as it does sorted. -/
def Plainly (given : Variables) (look : Value → Value) (name : String) : Prop :=
  ∀ json, Keyed.get? given.supplied name = some json →
    json.Plain ∧ ∀ v, Value.ofPlain json = .ok v → look v.sorted = look v

theorem bare_lookup {name : String} (free : Keyed.get? given.supplied name = none) :
    given.bare.lookup name = given.lookup name := by
  rw [lookup, lookup, free]
  rfl

theorem value_constant (lookup : String → Except QueryFault (Option Value))
    (default : Input Empty) : (default.rename Empty.elim).value lookup = default.constant := by
  rw [Input.value_rename, Input.constant]
  exact congrArg (fun lookup => Input.value lookup default) (funext nofun)

/-- A variable that is not supplied stands for its default, or for null, or stays. -/
theorem value_unsupplied {name : String} (free : Keyed.get? given.supplied name = none) :
    (given.writtenOut (.var name)).value given.bare.lookup =
      (Input.var name).value given.lookup := by
  have stays : (Input.var name).value given.bare.lookup = (Input.var name).value given.lookup := by
    rw [Input.value, Input.value, bare_lookup free]
  rw [writtenOut, literal?, omits, free]
  cases declared : given.declaration? name with
  | none => exact stays
  | some definition =>
    obtain ⟨_, type, default⟩ := definition
    cases default with
    | some default =>
      have known : given.lookup name = default.constant.map some := by rw [lookup, free, declared]
      rw [Input.value, known]
      refine (value_constant given.bare.lookup default).trans ?_
      cases default.constant <;> rfl
    | none =>
      cases required : type.isRequired with
      | true =>
        show (if (!type.isRequired) = true then _ else _ : Input String).value _ = _
        rw [required]
        exact stays
      | false =>
        have omitted : given.lookup name = .ok none := by
          rw [lookup, free, declared]
          exact if_neg (by rw [required]; exact Bool.false_ne_true)
        show (if (!type.isRequired) = true then _ else _ : Input String).value _ = _
        rw [required, Input.value, omitted]
        rfl

/-- A variable that is supplied stands for the literal of its value. -/
theorem value_supplied {name : String} (plainly : given.Plainly look name) {json : Json}
    (supplied : Keyed.get? given.supplied name = some json) :
    ((given.writtenOut (.var name)).value given.bare.lookup).map look =
      ((Input.var name).value given.lookup).map look := by
  obtain ⟨plain, alike⟩ := plainly json supplied
  obtain ⟨v, read, written⟩ := Input.value_ofJson given.bare.lookup json plain
  have found : given.lookup name = .ok (some v) := by
    unfold lookup
    rw [supplied]
    dsimp only
    rw [read]
  rw [writtenOut, literal?, supplied, Input.value, found]
  refine (congrArg (Except.map look) written).trans ?_
  exact congrArg Except.ok (alike v read)

mutual

/-- What is written out has a value that looks as before. -/
theorem value_writtenOut (looks : Looks look) : ∀ input : Input String,
    (∀ name, .var name ∈ input.leaves → given.Plainly look name) →
    ((given.writtenOut input).value given.bare.lookup).map look =
      (input.value given.lookup).map look
  | .var name, plainly => by
    cases supplied : Keyed.get? given.supplied name with
    | some json => exact value_supplied (plainly name (List.mem_singleton.mpr rfl)) supplied
    | none => rw [value_unsupplied supplied]
  | .list items, plainly => by
    rw [writtenOut, Input.value, Input.value]
    exact return_congr (itemValues_writtenOut looks items plainly) looks.list
  | .object members, plainly => by
    rw [writtenOut, Input.value, Input.value]
    exact return_congr (memberValues_writtenOut looks members plainly) looks.object
  | .int _, _ | .float _, _ | .string _, _ | .boolean _, _ | .null, _ | .enum _, _ => rfl

theorem itemValues_writtenOut (looks : Looks look) : ∀ items : List (Input String),
    (∀ name, .var name ∈ Input.leavesOfItems items → given.Plainly look name) →
    (Input.itemValues given.bare.lookup (given.itemsWrittenOut items)).map (List.map look) =
      (Input.itemValues given.lookup items).map (List.map look)
  | [], _ => rfl
  | item :: rest, plainly => by
    have here := value_writtenOut looks item fun name used =>
      plainly name (List.mem_append_left _ used)
    have later := itemValues_writtenOut looks rest fun name used =>
      plainly name (List.mem_append_right _ used)
    rw [itemsWrittenOut, Input.itemValues, Input.itemValues]
    exact both_congr here later fun a a' b b' first others => congrArg₂ List.cons first others

theorem memberValues_writtenOut (looks : Looks look) : ∀ members : List (String × Input String),
    (∀ name, .var name ∈ Input.leavesOfMembers members → given.Plainly look name) →
    (Input.memberValues given.bare.lookup (given.membersWrittenOut members)).map
        (List.map (Prod.map id look)) =
      (Input.memberValues given.lookup members).map (List.map (Prod.map id look))
  | [], _ => rfl
  | (key, item) :: rest, plainly => by
    have here := value_writtenOut looks item fun name used =>
      plainly name (List.mem_append_left _ used)
    have later := memberValues_writtenOut looks rest fun name used =>
      plainly name (List.mem_append_right _ used)
    rw [membersWrittenOut, Input.memberValues, Input.memberValues]
    exact both_congr here later fun a a' b b' first others =>
      congrArg₂ List.cons (congrArg (Prod.mk key) first) others

end

/-! ### Arguments -/

theorem argument_of_leavesOut {input : Input String} (left : given.leavesOut input = true) :
    given.argument input = .ok none := by
  cases input with
  | var name => exact lookup_eq_none.mpr left
  | _ => cases left

theorem argument_of_kept {input : Input String} (kept : given.leavesOut input = false) :
    given.argument input = (input.value given.lookup).map some := by
  cases input with
  | var name =>
    rw [argument, Input.value]
    cases found : given.lookup name with
    | error fault => rfl
    | ok value =>
      cases value with
      | some v => rfl
      | none =>
        have omitted : given.omits name = true := lookup_eq_none.mp found
        rw [leavesOut, omitted] at kept
        cases kept
  | _ => rfl

/-- The literal of a variable is no variable. -/
theorem leavesOut_literal {other : Variables} {name : String} {literal : Input String}
    (found : given.literal? name = some literal) : other.leavesOut literal = false := by
  unfold literal? at found
  split at found
  · rename_i json _
    cases found
    cases json with
    | number n => cases n <;> rfl
    | _ => rfl
  · obtain ⟨definition, -, found⟩ := Option.bind_eq_some_iff.mp found
    obtain ⟨default, -, rfl⟩ := Option.map_eq_some_iff.mp found
    cases default with
    | var name => exact name.elim
    | _ => rfl

theorem bare_omits {name : String} (free : Keyed.get? given.supplied name = none) :
    given.bare.omits name = given.omits name := by
  rw [omits, omits, free]
  rfl

/-- What is written out is no variable that is left out. -/
theorem leavesOut_writtenOut {input : Input String} (kept : given.leavesOut input = false) :
    given.bare.leavesOut (given.writtenOut input) = false := by
  cases input with
  | var name =>
    have kept : given.omits name = false := kept
    rw [writtenOut, kept]
    cases found : given.literal? name with
    | none =>
      have free : Keyed.get? given.supplied name = none := by
        unfold literal? at found
        split at found
        · cases found
        · assumption
      exact (bare_omits free).trans kept
    | some literal => exact leavesOut_literal found
  | _ => rfl

/-- Arguments that are written out have values that look as before. -/
theorem arguments_writtenOut (looks : Looks look) : ∀ written : List (String × Input String),
    (∀ entry ∈ written, ∀ name, .var name ∈ entry.2.leaves → given.Plainly look name) →
    (given.bare.arguments (given.argumentsWrittenOut written)).map (List.map (Prod.map id look)) =
      (given.arguments written).map (List.map (Prod.map id look))
  | [], _ => rfl
  | (name, input) :: rest, plainly => by
    obtain ⟨here, later⟩ := List.forall_mem_cons.mp plainly
    have others := arguments_writtenOut looks rest later
    unfold argumentsWrittenOut at others ⊢
    cases left : given.leavesOut input with
    | true =>
      -- what is left out has no value, so dropping it changes nothing
      rw [List.filter_cons_of_neg (by rw [left]; exact Bool.false_ne_true), others, arguments,
        argument_of_leavesOut left]
      cases given.arguments rest <;> rfl
    | false =>
      have value : ((given.bare.argument (given.writtenOut input))).map (Option.map look) =
          (given.argument input).map (Option.map look) := by
        rw [argument_of_kept left, argument_of_kept (leavesOut_writtenOut left)]
        exact return_congr (value_writtenOut looks input here) fun a b => congrArg some
      rw [List.filter_cons_of_pos (by rw [left]; rfl), List.map_cons, arguments]
      refine both_congr value others fun a a' b b' first more => ?_
      cases a with
      | none =>
        cases a' with
        | none => exact more
        | some w => cases first
      | some v =>
        cases a' with
        | none => cases first
        | some w =>
          exact congrArg₂ List.cons (congrArg (Prod.mk name) (Option.some.inj first)) more

/-! ### Items -/

mutual

theorem item_writtenOut (looks : Looks look) : ∀ (path : Path) (written : Item (Input String)),
    (∀ name, .var name ∈ leavesOfItem written → given.Plainly look name) →
    (given.bare.item path (given.itemWrittenOut written)).map (Item.map look) =
      (given.item path written).map (Item.map look)
  | path, .field head items, plainly => by
    have values := arguments_writtenOut looks head.arguments fun entry present name used =>
      plainly name (List.mem_append_left _ (List.mem_flatMap.mpr ⟨entry, present, used⟩))
    have inside := itemList_writtenOut looks (path.add head.outputKey) items fun name used =>
      plainly name (List.mem_append_right _ used)
    rw [itemWrittenOut, item, item]
    refine both_congr (mapError_congr values _) inside fun a a' b b' arguments items => ?_
    rw [Item.map, Item.map, arguments, items]
  | path, .spread fragment, _ => rfl
  | path, .inline condition items, plainly => by
    rw [itemWrittenOut, item, item]
    exact return_congr (itemList_writtenOut looks path items plainly) fun a b =>
      congrArg (Item.inline condition)

theorem itemList_writtenOut (looks : Looks look) : ∀ (path : Path)
    (written : List (Item (Input String))),
    (∀ name, .var name ∈ leavesOfItems written → given.Plainly look name) →
    (given.bare.itemList path (given.itemListWrittenOut written)).map (Item.mapItems look) =
      (given.itemList path written).map (Item.mapItems look)
  | path, [], _ => rfl
  | path, first :: rest, plainly => by
    have here := item_writtenOut looks path first fun name used =>
      plainly name (List.mem_append_left _ used)
    have later := itemList_writtenOut looks path rest fun name used =>
      plainly name (List.mem_append_right _ used)
    rw [itemListWrittenOut, itemList, itemList]
    exact both_congr here later fun a a' b b' one more => congrArg₂ List.cons one more

end

/-- Fragments that are written out are converted to fragments that look as before. -/
theorem mapM_writtenOut (looks : Looks look) (path : Path) :
    ∀ written : List FragmentDefinition,
    (∀ f ∈ written, ∀ name, .var name ∈ leavesOfItems f.items → given.Plainly look name) →
    ((written.map given.fragmentWrittenOut).mapM (given.bare.fragment path)).map
        (List.map (Prod.map id (Fragment.map look))) =
      (written.mapM (given.fragment path)).map (List.map (Prod.map id (Fragment.map look)))
  | [], _ => rfl
  | f :: rest, plainly => by
    obtain ⟨here, later⟩ := List.forall_mem_cons.mp plainly
    have first : (given.bare.fragment path (given.fragmentWrittenOut f)).map
        (Prod.map id (Fragment.map look)) =
          (given.fragment path f).map (Prod.map id (Fragment.map look)) :=
      return_congr (itemList_writtenOut looks (path.add f.name) f.items here) fun a b same =>
        congrArg (fun items => (f.name, Fragment.mk f.condition items)) same
    rw [List.map_cons, List.mapM_cons, List.mapM_cons]
    exact both_congr first (mapM_writtenOut looks path rest later)
      fun a a' b b' one more => congrArg₂ List.cons one more

end Values

end Variables

/-! ### Documents -/

section Documents

variable (given : Variables)

theorem pickOperation_writtenOut {source : Source} {wanted : Option String} {o : Operation}
    (picked : pickOperation source wanted = .ok o) :
    pickOperation (given.sourceWrittenOut source) wanted = .ok (given.operationWrittenOut o) := by
  unfold pickOperation at picked ⊢
  rw [Variables.operations_writtenOut]
  cases wanted with
  | some name =>
    have named : ((fun o : Operation => decide (o.name = some name)) ∘ given.operationWrittenOut) =
        fun o => decide (o.name = some name) := rfl
    dsimp only at picked ⊢
    rw [List.find?_map, named]
    split at picked
    · rename_i found
      cases picked
      rw [found]
      rfl
    · cases picked
  | none =>
    cases candidates : operations source with
    | nil =>
      rw [candidates] at picked
      cases picked
    | cons first rest =>
      rw [candidates] at picked
      cases rest with
      | nil =>
        cases picked
        rfl
      | cons second others => cases picked

end Documents

/-- The conversion of what is written out looks as before. -/
theorem convert_look {source : Source} {wanted : Option String} {o : Operation}
    {supplied : List (String × Json)} {look : Value → Value}
    (picked : pickOperation source wanted = .ok o) (isQuery : o.kind = .query)
    (looks : Variables.Looks look) (plainly : ∀ name, .var name ∈ leaves source o →
      Variables.Plainly ⟨supplied, o.declared⟩ look name) :
    (convert (Variables.sourceWrittenOut ⟨supplied, o.declared⟩ source) wanted []).map
        (Document.map look) =
      (convert source wanted supplied).map (Document.map look) := by
  rw [convert_of_picked picked isQuery,
    convert_of_picked (pickOperation_writtenOut _ picked) isQuery,
    Variables.fragments_writtenOut]
  have items := Variables.itemList_writtenOut looks [rootName] o.items fun name used =>
    plainly name (List.mem_append_left _ used)
  have pairs := Variables.mapM_writtenOut looks [rootName] (fragments source)
    fun f present name used => plainly name
      (List.mem_append_right _ (List.mem_flatMap.mpr ⟨f, present, used⟩))
  refine both_congr items pairs fun a a' b b' one more => ?_
  rw [Document.map, Document.map, Keyed.map_ofList, Keyed.map_ofList, one, more]

/-- **Variables and literals.** Let a query be picked from a document, and let plain JSON be
supplied for variables. With its variables written out the document uses none but the missing ones,
and without any being supplied it is converted to what the document is converted to with its
variables, up to the order of the members of objects. The two are exactly the same if the keys of
the objects that are supplied for used variables ascend, as they do in literals. And the conversion
fails for a missing variable exactly if that variable is used where everything before it has a
value. -/
theorem convert_writtenOut {source : Source} {wanted : Option String} {o : Operation}
    {supplied : List (String × Json)} (picked : pickOperation source wanted = .ok o)
    (isQuery : o.kind = .query) (plain : ∀ entry ∈ supplied, entry.2.Plain) :
    (∀ name, .var name ∈ leaves (Variables.sourceWrittenOut ⟨supplied, o.declared⟩ source)
        (Variables.operationWrittenOut ⟨supplied, o.declared⟩ o) →
      Variables.Missing ⟨supplied, o.declared⟩ name) ∧
    (convert (Variables.sourceWrittenOut ⟨supplied, o.declared⟩ source) wanted []).map
        (Document.map Value.sorted) =
      (convert source wanted supplied).map (Document.map Value.sorted) ∧
    ((∀ name json, .var name ∈ leaves source o → Keyed.get? supplied name = some json →
        json.Ascending) →
      convert (Variables.sourceWrittenOut ⟨supplied, o.declared⟩ source) wanted [] =
        convert source wanted supplied) ∧
    ∀ name, (∃ path, convert source wanted supplied = .error ⟨path, .missingVariable name⟩) ↔
      Variables.Missing ⟨supplied, o.declared⟩ name ∧ ∃ before after,
        leaves source o = before ++ .var name :: after ∧
        ∀ leaf ∈ before, leaf.HasValue (Variables.lookup ⟨supplied, o.declared⟩) := by
  refine ⟨fun name => Variables.missing_of_leaves_writtenOut, ?_, fun ascending => ?_,
    convert_missing_iff picked isQuery⟩
  · refine convert_look picked isQuery Variables.looks_sorted fun name _ json known => ?_
    exact ⟨plain _ (Keyed.mem_of_get? known), fun v _ => Value.sorted_sorted v⟩
  · have exact := convert_look picked isQuery Variables.looks_id
      fun name used json known => ⟨plain _ (Keyed.mem_of_get? known), fun v read =>
        Value.sorted_of_ascending (ascending name json used known) read⟩
    have same : Document.map id = id := funext Document.map_id
    rwa [same, map_id, map_id] at exact

namespace Listing

/-- Asks for posts with a number that has a default, a place that may be left out, and
conditions. -/
def posts : Operation where
  kind := .query
  position := ⟨1, 1⟩
  name := some "Posts"
  declared := [⟨"first", .named "Int", some (.int 10)⟩, ⟨"after", .named "String", none⟩,
    ⟨"where", .nonNull (.named "Filter"), none⟩]
  items := [.field ⟨"posts", none, [("first", .var "first"), ("after", .var "after"),
    ("any", .list [.var "where", .var "after"])]⟩ [.spread "Counted"]]

/-- The fragment of that operation. -/
def counted : FragmentDefinition := ⟨"Counted", "Posts", [.field ⟨"count", none, []⟩ []]⟩

/-- That operation and its fragment, with other arguments of the field. -/
def written (arguments : List (String × Input String)) : Source :=
  [.operation { posts with items := [.field ⟨"posts", none, arguments⟩ [.spread "Counted"]] },
    .fragment counted]

/-- The document that those are converted to. -/
def converted (arguments : List (String × Value)) : Document where
  root := ⟨⟨rootName, none, []⟩, [.field ⟨"posts", none, arguments⟩ [.spread "Counted"]]⟩
  fragments := [("Counted", ⟨"Posts", [.field ⟨"count", none, []⟩ []]⟩)]

def source : Source := [.operation posts, .fragment counted]

/-- Conditions whose keys ascend. -/
def conditions : Json := .object [("status", .string "open"), ("year", .number (.integer 2021))]

/-- The default and the conditions are written out, the place is dropped and becomes null. -/
theorem convert_writtenOut_posts :
    pickOperation source none = .ok posts ∧ conditions.Plain ∧
      Variables.sourceWrittenOut ⟨[("where", conditions)], posts.declared⟩ source =
        written [("first", .int 10), ("any", .list [.object [("status", .string "open"),
          ("year", .int 2021)], .null])] ∧
      convert (written [("first", .int 10), ("any", .list [.object [("status", .string "open"),
          ("year", .int 2021)], .null])]) none [] =
        convert source none [("where", conditions)] := by
  have picked : pickOperation source none = .ok posts := rfl
  have plain : conditions.Plain := ⟨by decide, trivial, rfl, trivial⟩
  have ascending : conditions.Ascending := by
    refine ⟨?_, trivial, trivial, trivial⟩
    show List.Pairwise _ _
    decide
  have each : ∀ entry ∈ [("where", conditions)], entry.2.Plain :=
    List.forall_mem_singleton.mpr plain
  obtain ⟨-, -, same, -⟩ := convert_writtenOut picked rfl each
  refine ⟨picked, plain, rfl, same fun name json used known => ?_⟩
  cases List.mem_singleton.mp (Keyed.mem_of_get? known)
  exact ascending

/-- Conditions whose keys do not ascend. -/
def turned : Json := .object [("year", .number (.integer 2021)), ("status", .string "open")]

/-- Asks for posts with a number that is not finite, and a variable that is not declared. -/
def endless : Operation :=
  ⟨.query, ⟨1, 1⟩, none, [],
    [.field ⟨"posts", none, [("first", .float (.infinite false)), ("after", .var "after")]⟩ []]⟩

/-- Supplied conditions keep the order of their keys, and written ones do not, so the arguments
differ. And a number that is not finite is found before a missing variable behind it. -/
theorem convert_writtenOut_fails :
    turned.Plain ∧
      convert source none [("where", turned)] = .ok (converted [("first", .int 10),
        ("any", .list [.object [("year", .int 2021), ("status", .string "open")], .null])]) ∧
      convert (Variables.sourceWrittenOut ⟨[("where", turned)], posts.declared⟩ source) none [] =
        .ok (converted [("first", .int 10),
          ("any", .list [.object [("status", .string "open"), ("year", .int 2021)], .null])]) ∧
      (Value.list [.object [("year", .int 2021), ("status", .string "open")], .null] ==
        Value.list [.object [("status", .string "open"), ("year", .int 2021)], .null]) = false ∧
      Variables.Missing ⟨[], []⟩ "after" ∧
      .var "after" ∈ leaves [.operation endless] endless ∧
      convert [.operation endless] none [] =
        .error ⟨["Query", "posts"], .infiniteNumber false⟩ := by
  refine ⟨⟨by decide, rfl, trivial, trivial⟩, rfl, rfl, by decide, by decide, ?_, by cbv⟩
  exact List.mem_cons_of_mem _ List.mem_cons_self

end Listing

end GraphRead.Graphql
