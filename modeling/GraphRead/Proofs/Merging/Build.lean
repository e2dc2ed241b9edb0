import GraphRead.Proofs.Document.Refused
import GraphRead.Proofs.Merging.Turned
import GraphRead.Proofs.Repeat.Execute
/-!
Selection sets in another order.

Items of a selection set are added one after the other, but what they add does not depend on what
they are added to: filling a selection comes to the same as taking over the selection of the items
alone (`fill_toOption`). Two items can therefore be added in turn (`alone_turned`), and from this
all that is built of items in another order, on any level and in fragments too, is the same up to
order (`alone_rearranged`, `ofField_rearranged`).
-/

namespace GraphRead

/-- Items in another order, on any level. -/
inductive Item.Rearranged {α : Type} : List (Item α) → List (Item α) → Prop
  | nil : Rearranged [] []
  | field (head : FieldHead α) {items items' rest rest' : List (Item α)}
    (inside : Rearranged items items') (later : Rearranged rest rest') :
    Rearranged (.field head items :: rest) (.field head items' :: rest')
  | spread (name : String) {rest rest' : List (Item α)} (later : Rearranged rest rest') :
    Rearranged (.spread name :: rest) (.spread name :: rest')
  | inline (condition : Option String) {items items' rest rest' : List (Item α)}
    (inside : Rearranged items items') (later : Rearranged rest rest') :
    Rearranged (.inline condition items :: rest) (.inline condition items' :: rest')
  | swap (first second : Item α) (rest : List (Item α)) :
    Rearranged (first :: second :: rest) (second :: first :: rest)
  | trans {items middle others : List (Item α)} (first : Rearranged items middle)
    (second : Rearranged middle others) : Rearranged items others

namespace Item.Rearranged

variable {α : Type}

theorem refl : ∀ items : List (Item α), Rearranged items items
  | [] => .nil
  | .field head items :: rest => .field head (refl items) (refl rest)
  | .spread name :: rest => .spread name (refl rest)
  | .inline condition items :: rest => .inline condition (refl items) (refl rest)

theorem cons {rest rest' : List (Item α)} (later : Rearranged rest rest') (item : Item α) :
    Rearranged (item :: rest) (item :: rest') := by
  cases item with
  | field head items => exact .field head (refl items) later
  | spread name => exact .spread name later
  | inline condition items => exact .inline condition (refl items) later

theorem of_perm {items others : List (Item α)} (perm : items.Perm others) :
    Rearranged items others := by
  induction perm with
  | nil => exact .nil
  | cons item _ ih => exact ih.cons item
  | swap first second rest => exact .swap second first rest
  | trans _ _ first second => exact first.trans second

end Item.Rearranged

/-- A fragment with its items in another order. -/
structure Fragment.Rearranged (fragment fragment' : Fragment) : Prop where
  condition : fragment.condition = fragment'.condition
  items : Item.Rearranged fragment.items fragment'.items

/-- A field with its items in another order. -/
structure WrittenField.Rearranged (field field' : WrittenField) : Prop where
  head : field.head = field'.head
  items : Item.Rearranged field.items field'.items

namespace Selection

open Fallible

/-! ### What items add -/

/-- The selection of items alone. -/
def alone (fragments available : Keyed Fragment) (path : Path) (items : List (Item Value)) :
    Except QueryError Selection :=
  fill fragments available path (named "") items

/-- The selection of a child alone. -/
def holding (child : Selection) : Selection :=
  { named "" with children := [(child.outputKey, child)] }

/-- The selection of a fragment alone. -/
def filing (condition : String) (fragment : Selection) : Selection :=
  { named "" with fragments := [(condition, [fragment])] }

variable {s child fragment : Selection}

theorem named_tidy (name : String) : (named name).Tidy := .leaf name none .nil

theorem holding_tidy (tidy : child.Tidy) : (holding child).Tidy :=
  (named_tidy "").insertChild rfl tidy

theorem filing_tidy (condition : String) (tidy : fragment.Tidy) :
    (filing condition fragment).Tidy :=
  (named_tidy "").pushFragment condition tidy

theorem splice_blank (s : Selection) : (splice s (named "")).result = .ok s := by
  rw [splice_result]
  cases s
  rfl

theorem push_result (s child : Selection) :
    (push s child).result = (splice s (holding child)).result := by
  rw [splice_result, holding, spliceChildren_result, push]
  cases (place s child fun there => splice there child).result with
  | error field => rfl
  | ok next => cases next; rfl

theorem splice_filing (s : Selection) (condition : String) (fragment : Selection) :
    (splice s (filing condition fragment)).result = .ok (s.pushFragment condition fragment) := by
  rw [splice_result]
  rfl

theorem toOption_orFault (change : Change) (path : Path) :
    (change.orFault path).toOption = change.result.toOption :=
  Success.toOption_mapError ..

section Fill

variable {fragments available : Keyed Fragment} {path : Path} {target : Selection}

theorem fill_single (target : Selection) (item : Item Value) :
    fill fragments available path target [item] =
      addItem fragments available path target item := by
  rw [fill_cons]
  cases addItem fragments available path target item with
  | error e => rfl
  | ok next =>
    show fill fragments available path next [] = .ok next
    rw [fill]

theorem addItem_tidy {item : Item Value} {next : Selection} (tidy : target.Tidy)
    (done : addItem fragments available path target item = .ok next) : next.Tidy :=
  fill_tidy tidy ((fill_single target item).trans done)

theorem spliced_tidy {s other next : Selection} (tidy : s.Tidy) (inner : other.Tidy)
    (done : (splice s other).result.toOption = some next) : next.Tidy := by
  rw [Change.eq_of_result (Success.toOption_eq_some.mp done)]
  exact splice_tidy tidy other inner

/-- A fragment is filed by taking over what files it alone. -/
theorem pushFragment_toOption (expanded : Except QueryError Selection) (target : Selection)
    (condition : String) : (expanded.map (target.pushFragment condition)).toOption =
      (expanded.map ((named "").pushFragment condition)).toOption.bind fun part =>
        (splice target part).result.toOption := by
  cases expanded with
  | error e => rfl
  | ok fragment =>
    exact (congrArg Except.toOption (splice_filing target condition fragment)).symm

variable (fragments available path) in
/-- Whatever an item adds is taken over, provided that this is so for the items inside an inline
fragment without a condition. -/
theorem addItem_toOption (target : Selection) {item : Item Value}
    (inside : ∀ items, item = .inline none items →
      (fill fragments available path target items).toOption =
        (alone fragments available path items).toOption.bind fun part =>
          (splice target part).result.toOption) :
    (addItem fragments available path target item).toOption =
      (addItem fragments available path (named "") item).toOption.bind fun part =>
        (splice target part).result.toOption := by
  cases item with
  | field head items =>
    rw [addItem, addItem]
    simp only [Success.toOption_bind, Option.bind_assoc, toOption_orFault, push_result]
    rfl
  | spread name =>
    rw [addItem, addItem]
    split
    · split
      · rfl
      · exact pushFragment_toOption ..
    · rfl
  | inline condition items =>
    cases condition with
    | none => exact inside items rfl
    | some condition => exact pushFragment_toOption ..

/-- What is taken over and then added to can as well be added to and then taken over. -/
theorem taken_then {s part : Selection} {more : Option Selection} (tidyS : s.Tidy)
    (tidyPart : part.Tidy) (tidyMore : ∀ added, more = some added → added.Tidy) :
    ((splice s part).result.toOption.bind fun next =>
        more.bind fun added => (splice next added).result.toOption) =
      (more.bind fun added => (splice part added).result.toOption).bind fun whole =>
        (splice s whole).result.toOption := by
  cases more with
  | none => simp only [Option.bind_none, Option.bind_fun_none]
  | some added => exact splice_regroup tidyS tidyPart (tidyMore added rfl)

/-- **Items add the same to every selection: what they are alone is taken over.** -/
theorem fill_toOption : ∀ (items : List (Item Value)) {target : Selection}, target.Tidy →
    (fill fragments available path target items).toOption =
      (alone fragments available path items).toOption.bind fun part =>
        (splice target part).result.toOption
  | [], target, _ => by
    rw [fill, alone, fill]
    exact (congrArg Except.toOption (splice_blank target)).symm
  | item :: rest, target, tidy => by
    have first := addItem_toOption fragments available path target
      fun items (same : item = .inline none items) => fill_toOption items tidy
    rw [fill_cons, alone, fill_cons, Success.toOption_bind, Success.toOption_bind, first,
      Option.bind_assoc, Option.bind_assoc]
    refine Option.bind_congr fun part isPart => ?_
    have tidyPart := addItem_tidy (named_tidy "") (Success.toOption_eq_some.mp isPart)
    rw [fill_toOption rest tidyPart]
    refine (Option.bind_congr fun next isNext =>
      fill_toOption rest (spliced_tidy tidy tidyPart isNext)).trans ?_
    exact taken_then tidy tidyPart fun added isAdded =>
      fill_tidy (named_tidy "") (Success.toOption_eq_some.mp isAdded)
termination_by items => sizeOf items
decreasing_by
  · rw [same]
    simp only [List.cons.sizeOf_spec, Item.inline.sizeOf_spec]
    omega
  all_goals simp only [List.cons.sizeOf_spec]; omega

end Fill

/-! ### Items in turn -/

section Turned

variable {fragments available : Keyed Fragment} {path : Path}

theorem fill_append (items others : List (Item Value)) (target : Selection) :
    fill fragments available path target (items ++ others) =
      fill fragments available path target items >>= fun next =>
        fill fragments available path next others := by
  induction items generalizing target with
  | nil =>
    rw [fill]
    rfl
  | cons item rest ih =>
    rw [List.cons_append, fill_cons, fill_cons, bind_assoc]
    exact congrArg _ (funext ih)

/-- What two lists of items are together, told by what they are alone. -/
theorem alone_append (items others : List (Item Value)) :
    (alone fragments available path (items ++ others)).toOption =
      (alone fragments available path items).toOption.bind fun part =>
        (alone fragments available path others).toOption.bind fun more =>
          (splice part more).result.toOption := by
  rw [alone, fill_append, Success.toOption_bind]
  refine Option.bind_congr fun part isPart => fill_toOption others ?_
  exact fill_tidy (named_tidy "") (Success.toOption_eq_some.mp isPart)

/-- **Items can be added in turn.** -/
theorem alone_turned (items others : List (Item Value)) :
    InStep Rearranged (alone fragments available path (items ++ others))
      (alone fragments available path (others ++ items)) := by
  have both (turn : Selection → Selection → Change) :
      (alone fragments available path items >>= fun part =>
        alone fragments available path others >>= fun more =>
          (turn part more).orFault path).toOption =
      (alone fragments available path items).toOption.bind fun part =>
        (alone fragments available path others).toOption.bind fun more =>
          (turn part more).result.toOption := by
    simp only [Success.toOption_bind, toOption_orFault]
  refine .of_toOption ((alone_append items others).trans (both splice).symm)
    (((alone_append others items).trans (Option.bind_comm ..)).trans
      (both fun part more => splice more part).symm) ?_
  refine (InStep.refl _).bind fun part _ isPart same => ?_
  cases same
  refine (InStep.refl _).bind fun more _ isMore same => ?_
  cases same
  obtain ⟨name, -, arguments⟩ := head_of_fill isPart
  obtain ⟨name', -, arguments'⟩ := head_of_fill isMore
  refine (splice_turned (fill_tidy (named_tidy "") isPart) (fill_tidy (named_tidy "") isMore)
    (name.trans name'.symm) ?_).mapError
  rw [arguments, arguments']
  rfl

end Turned

/-! ### Items in another order -/

section Rearranged

variable {fragments fragments' available available' : Keyed Fragment} {path : Path}
  {target target' : Selection} {items items' rest rest' : List (Item Value)}

/-- Selections that are the same up to order are filled alike if the items alone build such
selections. -/
theorem fill_rearranged (inside : InStep Rearranged (alone fragments available path items)
      (alone fragments' available' path items')) (both : Rearranged target target') :
    InStep Rearranged (fill fragments available path target items)
      (fill fragments' available' path target' items') := by
  have taken (fragments available : Keyed Fragment) (items : List (Item Value)) {target : Selection}
      (tidy : target.Tidy) : (fill fragments available path target items).toOption =
        (alone fragments available path items >>= fun part =>
          (splice target part).orFault path).toOption := by
    simp only [Success.toOption_bind, toOption_orFault, fill_toOption items tidy]
  refine .of_toOption (taken fragments available items both.left)
    (taken fragments' available' items' both.right) ?_
  exact inside.bind fun part part' _ own => (both.splice own).mapError

/-- Children that are filed under one key are filed alike. -/
theorem Rearranged.push {child child' : Selection} (both : Rearranged target target')
    (own : Rearranged child child') (key : child.outputKey = child'.outputKey) :
    InStep Rearranged (push target child).result (push target' child').result := by
  rw [push_result, push_result]
  refine both.splice (.intro (holding_tidy own.left) (holding_tidy own.right) rfl rfl ?_
    fun condition => .none)
  rw [holding, holding, key]
  exact .single _ own

theorem Rearranged.pushFragment {expanded expanded' : Selection}
    (both : Rearranged target target') (own : Rearranged expanded expanded') (condition : String) :
    Rearranged (target.pushFragment condition expanded)
      (target'.pushFragment condition expanded') := by
  have filed : Rearranged (filing condition expanded) (filing condition expanded') :=
    .intro (filing_tidy condition own.left) (filing_tidy condition own.right) rfl rfl
      (fun key => .none) (.single condition ⟨[expanded'], .cons own .nil, .refl _⟩)
  have taken := both.splice filed
  rw [splice_filing, splice_filing] at taken
  cases taken with
  | ok same => exact same

theorem addItem_field_rearranged (both : Rearranged target target') (head : FieldHead Value)
    (inside : ∀ path, InStep Rearranged (alone fragments available path items)
      (alone fragments' available' path items')) :
    InStep Rearranged (addItem fragments available path target (.field head items))
      (addItem fragments' available' path target' (.field head items')) := by
  rw [addItem, addItem]
  refine (InStep.refl _).bind fun leaf _ isLeaf same => ?_
  cases same
  refine (fill_rearranged (inside _) (.refl (ofHead_tidy isLeaf))).yields.bind
    fun child child' _ yielded => ?_
  obtain ⟨isChild, isChild', own⟩ := yielded
  refine (both.push own ?_).mapError
  obtain ⟨name, aliasName, -⟩ := head_of_fill isChild
  obtain ⟨name', aliasName', -⟩ := head_of_fill isChild'
  rw [outputKey, outputKey, name, name', aliasName, aliasName']

theorem addItem_inline_rearranged (both : Rearranged target target') (condition : Option String)
    (inside : InStep Rearranged (alone fragments available path items)
      (alone fragments' available' path items')) :
    InStep Rearranged (addItem fragments available path target (.inline condition items))
      (addItem fragments' available' path target' (.inline condition items')) := by
  cases condition with
  | none => exact fill_rearranged inside both
  | some condition =>
    rw [addItem, addItem]
    exact (fill_rearranged inside (.refl (named_tidy condition))).map
      fun expanded expanded' _ own => both.pushFragment own condition

theorem addItem_spread_rearranged (both : Rearranged target target') {name : String}
    (known : Keyed.hasKey fragments name = Keyed.hasKey fragments' name)
    (free : Option.Rel (fun fragment fragment' => fragment.condition = fragment'.condition ∧
      InStep Rearranged (alone fragments (Keyed.erase available name) path fragment.items)
        (alone fragments' (Keyed.erase available' name) path fragment'.items))
      (Keyed.get? available name) (Keyed.get? available' name)) :
    InStep Rearranged (addItem fragments available path target (.spread name))
      (addItem fragments' available' path target' (.spread name)) := by
  rw [addItem, addItem, known]
  split
  · generalize Keyed.get? available name = found, Keyed.get? available' name = found' at free
    cases free with
    | none => exact .error _ _
    | some same =>
      obtain ⟨condition, inside⟩ := same
      dsimp only
      rw [condition]
      exact (fill_rearranged inside (.refl (named_tidy _))).map
        fun expanded expanded' _ own => both.pushFragment own _
  · exact .error _ _

/-- Items alone build selections that are the same up to order if the first one adds alike to
whatever it is added to, and the rest alone does. -/
theorem alone_cons {item item' : Item Value}
    (first : ∀ {target target' : Selection}, Rearranged target target' →
      InStep Rearranged (addItem fragments available path target item)
        (addItem fragments' available' path target' item'))
    (later : InStep Rearranged (alone fragments available path rest)
      (alone fragments' available' path rest')) :
    InStep Rearranged (alone fragments available path (item :: rest))
      (alone fragments' available' path (item' :: rest')) := by
  rw [alone, alone, fill_cons, fill_cons]
  exact (first (.refl (named_tidy ""))).bind fun next next' _ both => fill_rearranged later both

theorem alone_refl (items : List (Item Value)) :
    InStep Rearranged (alone fragments available path items)
      (alone fragments available path items) := by
  refine (InStep.refl _).imp fun s t done same => ?_
  cases same
  exact .refl (fill_tidy (named_tidy "") done)

/-- Items in another order build the same up to order. -/
theorem alone_rearranged (same : Item.Rearranged items items') (available : Keyed Fragment)
    (path : Path) : InStep Rearranged (alone fragments available path items)
      (alone fragments available path items') := by
  induction same generalizing available path with
  | nil => exact alone_refl []
  | field head _ _ inside later =>
    exact alone_cons (fun both => addItem_field_rearranged both head (inside available))
      (later available path)
  | spread name _ later =>
    refine alone_cons (fun both => addItem_spread_rearranged both rfl ?_) (later available path)
    cases Keyed.get? available name with
    | none => exact .none
    | some fragment => exact .some ⟨rfl, alone_refl fragment.items⟩
  | inline condition _ _ inside later =>
    exact alone_cons
      (fun both => addItem_inline_rearranged both condition (inside available path))
      (later available path)
  | swap first second rest =>
    have turned : InStep Rearranged (alone fragments available path ([first] ++ [second]))
        (alone fragments available path ([second] ++ [first])) := alone_turned [first] [second]
    have split (first second : Item Value) :
        alone fragments available path (first :: second :: rest) =
          alone fragments available path ([first] ++ [second]) >>= fun next =>
            fill fragments available path next rest := fill_append [first, second] rest (named "")
    rw [split, split]
    exact turned.bind fun next next' _ both => fill_rearranged (alone_refl rest) both
  | trans _ _ first second =>
    exact inStep_trans (first available path) (second available path)

/-- Items build the same up to order, whatever the order inside the fragments that they spread. -/
theorem alone_known (known : Keyed.Both Fragment.Rearranged fragments fragments') :
    ∀ (available : Keyed Fragment) (items : List (Item Value)) {available' : Keyed Fragment}
      {path : Path}, Keyed.Both Fragment.Rearranged available available' →
      InStep Rearranged (alone fragments available path items)
        (alone fragments' available' path items)
  | available, [], _, _, _ => by
    rw [alone, alone, fill, fill]
    exact .ok (.refl (named_tidy ""))
  | available, item :: rest, available', path, free => by
    refine alone_cons (fun both => ?_) (alone_known known available rest free)
    cases item with
    | field head items =>
      exact addItem_field_rearranged both head fun path => alone_known known available items free
    | inline condition items =>
      exact addItem_inline_rearranged both condition (alone_known known available items free)
    | spread name =>
      refine addItem_spread_rearranged both (known.hasKey name).symm ?_
      cases found : Keyed.get? available name with
      | none =>
        rw [free.get?_none found]
        exact .none
      | some fragment =>
        obtain ⟨fragment', found', same⟩ := free.get?_some found
        rw [found']
        exact .some ⟨same.condition, inStep_trans
          (alone_known known (Keyed.erase available name) fragment.items free.erase)
          (alone_rearranged same.items _ path)⟩
termination_by available items => (available.length, sizeOf items)
decreasing_by
  · exact .right _ (by simp only [List.cons.sizeOf_spec, Item.field.sizeOf_spec]; omega)
  · have := Keyed.length_erase_of_get? found
    exact .left _ _ (by omega)
  · exact .right _ (by simp only [List.cons.sizeOf_spec, Item.inline.sizeOf_spec]; omega)
  · exact .right _ (by simp only [List.cons.sizeOf_spec]; omega)

/-- A field is built the same up to order, whatever the order of its items and of those of the
fragments. -/
theorem ofField_rearranged {field field' : WrittenField} (same : field.Rearranged field')
    (known : Keyed.Both Fragment.Rearranged fragments fragments') :
    InStep (fun s t => s.outputKey = t.outputKey ∧ Rearranged s t) (ofField fragments field)
      (ofField fragments' field') := by
  unfold ofField
  rw [same.head]
  refine (InStep.refl _).bind fun leaf _ isLeaf own => ?_
  cases own
  have inside := inStep_trans (alone_known known fragments field.items known)
    (alone_rearranged same.items fragments' [field'.head.name])
  refine (fill_rearranged inside (.refl (ofHead_tidy isLeaf))).yields.imp
    fun s t _ ⟨filled, filled', both⟩ => ⟨?_, both⟩
  obtain ⟨name, aliasName, -⟩ := head_of_fill filled
  obtain ⟨name', aliasName', -⟩ := head_of_fill filled'
  rw [outputKey, outputKey, name, name', aliasName, aliasName']

end Rearranged

/-- **The order of a selection set does not matter for merging.** Two invocations of a field can be
merged in either direction or in none, and become the same up to the order in which fragments stand
under one condition. Three of them can be merged in either grouping or in none, and become the same.
So a field whose items stand in another order, on any level and in the fragments that it spreads,
is built if the field is, under the same output key and the same up to order. -/
theorem merging_ignores_order :
    (∀ {a b : Selection}, a.Tidy → b.Tidy → a.name = b.name →
      InStep SameUpToOrder (merge a b).result (merge b a).result) ∧
    (∀ {a b c : Selection}, a.Tidy → b.Tidy → c.Tidy → InStep (· = ·)
      ((merge a b).result >>= fun both => (merge both c).result)
      ((merge b c).result >>= fun both => (merge a both).result)) ∧
    ∀ {fragments fragments' : Keyed Fragment} {field field' : WrittenField},
      Keyed.Both Fragment.Rearranged fragments fragments' → field.Rearranged field' →
      InStep (fun s t => s.outputKey = t.outputKey ∧ SameUpToOrder s t)
        (ofField fragments field) (ofField fragments' field') := by
  refine ⟨fun tidyA tidyB name => ?_, fun {a b c} tidyA tidyB tidyC => ?_, fun known same => ?_⟩
  · exact (merge_turned tidyA tidyB name).imp fun _ _ _ both => both.same
  · refine .of_toOption ?_ rfl (.refl _)
    simp only [Success.toOption_bind]
    exact merge_regroup tidyA tidyB tidyC
  · exact (ofField_rearranged same known).imp fun _ _ _ ⟨key, both⟩ => ⟨key, both.same⟩

end Selection

/-! ### A feed that is asked for in two orders -/

namespace Headlines

open Selection Fallible

def plain (name : String) : Item Value := .field ⟨name, none, []⟩ []

def author (name : String) : Item Value := .field ⟨"author", none, []⟩ [plain name]

/-- Asks for the author twice, and for posts and photos in fragments. -/
def field : WrittenField where
  head := ⟨"feed", none, []⟩
  items := [author "id", .inline (some "Post") [plain "title"], author "name",
    .inline (some "Post") [plain "text"], .spread "photo"]

def fragments : Keyed Fragment := [("photo", ⟨"Photo", [plain "url", plain "size"]⟩)]

/-- Asks for the same the other way round. -/
def field' : WrittenField where
  head := ⟨"feed", none, []⟩
  items := [.spread "photo", .inline (some "Post") [plain "text"], author "name",
    .inline (some "Post") [plain "title"], author "id"]

def fragments' : Keyed Fragment := [("photo", ⟨"Photo", [plain "size", plain "url"]⟩)]

theorem rearranged : field.Rearranged field' :=
  ⟨rfl, .of_perm (List.reverse_perm field.items).symm⟩

theorem fragments_rearranged : Keyed.Both Fragment.Rearranged fragments fragments' :=
  .cons ⟨rfl, .swap ..⟩ .nil

/-- A selection of fields without children. -/
def bare (name : String) (fields : List String) : Selection :=
  { named name with children := fields.map fun field => (field, named field) }

def feed : Selection where
  name := "feed"
  aliasName := none
  arguments := []
  children := [("author", bare "author" ["id", "name"])]
  fragments := [("Post", [bare "Post" ["title"], bare "Post" ["text"]]),
    ("Photo", [bare "Photo" ["url", "size"]])]

def feed' : Selection where
  name := "feed"
  aliasName := none
  arguments := []
  children := [("author", bare "author" ["name", "id"])]
  fragments := [("Photo", [bare "Photo" ["size", "url"]]),
    ("Post", [bare "Post" ["text"], bare "Post" ["title"]])]

theorem built : ofField fragments field = .ok feed := by cbv

theorem built' : ofField fragments' field' = .ok feed' := by cbv

theorem feed_tidy : feed.Tidy := @ofDocument_tidy ⟨field, fragments⟩ _ built

theorem feed'_tidy : feed'.Tidy := @ofDocument_tidy ⟨field', fragments'⟩ _ built'

/-- Both feeds are the same up to order, and can be merged in any order and grouping. -/
theorem merging_ignores_order_feed :
    (feed.Tidy ∧ feed'.Tidy ∧ feed.name = feed'.name) ∧
      (∃ s t, (merge feed feed').result = .ok s ∧ (merge feed' feed).result = .ok t ∧
        s.SameUpToOrder t) ∧
      (∃ s, ((merge feed feed').result >>= fun both => (merge both feed).result) = .ok s ∧
        ((merge feed' feed).result >>= fun both => (merge feed both).result) = .ok s) ∧
      (field.Rearranged field' ∧ Keyed.Both Fragment.Rearranged fragments fragments') ∧
      ofField fragments field = .ok feed ∧ ofField fragments' field' = .ok feed' ∧
        feed.SameUpToOrder feed' := by
  obtain ⟨turned, regrouped, reordered⟩ := merging_ignores_order
  refine ⟨⟨feed_tidy, feed'_tidy, rfl⟩, ?_, ?_, ⟨rearranged, fragments_rearranged⟩, built, built',
    ?_⟩
  · have merged := turned feed_tidy feed'_tidy rfl
    have done : (merge feed feed').result = .ok (merge feed feed').selection := by cbv
    rw [done] at merged ⊢
    obtain ⟨t, done', both⟩ := InStep.ok_iff.mp merged
    exact ⟨_, t, rfl, done', both⟩
  · have grouped := regrouped feed_tidy feed'_tidy feed_tidy
    have done : ((merge feed feed').result >>= fun both => (merge both feed).result) =
        .ok (merge (merge feed feed').selection feed).selection := by cbv
    rw [done] at grouped
    exact ⟨_, done, (grouped.eq_ok_iff _).mpr rfl⟩
  · have asked := reordered fragments_rearranged rearranged
    rw [built, built'] at asked
    cases asked with
    | ok same => exact same.2

end Headlines

end GraphRead
