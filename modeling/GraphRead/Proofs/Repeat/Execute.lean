import GraphRead.Proofs.Binding.Single
import GraphRead.Proofs.Execution.Outcome
import GraphRead.Proofs.Repeat.Bind
import Mathlib
/-!
Repeating a selection changes nothing.

In a document items of selection sets can be repeated, on every level and in the fragments too
(`Document.Repeats`): a field, the spread of a fragment or an inline fragment stands again behind
where it stood. A repeated field is merged into the one that is there, and a fragment is filed
again under its condition, so what is built is a selection with repetitions (`fill_inStep`), and
that is bound to the same reads (`rootReads_inStep`). A document that is rejected is rejected with
repetitions too, for one of the same reasons or for another (`Document.Repeats.asks_iff`).
-/

namespace GraphRead

open Fallible

/-! ### Documents with repetitions -/

/-- An item whose selection set is the same but for repetitions, on every level. -/
inductive Item.Repeats : Item Value → Item Value → Prop
  | field (head : FieldHead Value) {items items' : List (Item Value)}
    (inside : Repeating Item.Repeats [] items items') :
    Item.Repeats (.field head items) (.field head items')
  | spread (name : String) : Item.Repeats (.spread name) (.spread name)
  | inline (condition : Option String) {items items' : List (Item Value)}
    (inside : Repeating Item.Repeats [] items items') :
    Item.Repeats (.inline condition items) (.inline condition items')

mutual

/-- An item repeats itself. -/
theorem Item.Repeats.refl : ∀ item : Item Value, Item.Repeats item item
  | .field head items => .field head (Item.Repeats.all items [])
  | .spread name => .spread name
  | .inline condition items => .inline condition (Item.Repeats.all items [])

theorem Item.Repeats.all : ∀ (items seen : List (Item Value)),
    Repeating Item.Repeats seen items items
  | [], _ => .done
  | item :: rest, seen => .next (Item.Repeats.refl item) (Item.Repeats.all rest (item :: seen))

end

/-- In particular, any items of a selection set can be repeated at its end. -/
theorem Repeating.atEnd {items copies : List (Item Value)}
    (known : ∀ item ∈ copies, item ∈ items) : Repeating Item.Repeats [] items (items ++ copies) :=
  (Item.Repeats.all items []).repeated fun item present =>
    ⟨item, known item present, Item.Repeats.refl item⟩

/-- A fragment of the same type whose selection set is the same but for repetitions. -/
structure Fragment.Repeats (fragment fragment' : Fragment) : Prop where
  condition : fragment'.condition = fragment.condition
  items : Repeating Item.Repeats [] fragment.items fragment'.items

/-- A document that is the same but for items that stand again behind where they stood. -/
structure Document.Repeats (document document' : Document) : Prop where
  head : document'.root.head = document.root.head
  items : Repeating Item.Repeats [] document.root.items document'.root.items
  fragments : Keyed.Both Fragment.Repeats document.fragments document'.fragments

namespace Selection

/-! ### What has been added already -/

/-- What an item adds to a selection is there already. -/
inductive Held (fragments available : Keyed Fragment) (path : Path) (target : Selection) :
    Item Value → Prop
  | field {head : FieldHead Value} {items : List (Item Value)} {leaf child : Selection}
    (isLeaf : ofHead (path.add head.outputKey) head = .ok leaf)
    (isChild : fill fragments available (path.add head.outputKey) leaf items = .ok child)
    (filed : Filed child target.children) : Held fragments available path target (.field head items)
  | spread {name : String} {fragment : Fragment} {expanded : Selection}
    (isKey : Keyed.hasKey fragments name = true)
    (found : Keyed.get? available name = some fragment)
    (isExpanded : fill fragments (Keyed.erase available name) path (named fragment.condition)
      fragment.items = .ok expanded)
    (filed : FragmentsWithin [(fragment.condition, [expanded])] target.fragments) :
    Held fragments available path target (.spread name)
  | inline {condition : String} {items : List (Item Value)} {expanded : Selection}
    (isExpanded : fill fragments available path (named condition) items = .ok expanded)
    (filed : FragmentsWithin [(condition, [expanded])] target.fragments) :
    Held fragments available path target (.inline (some condition) items)
  | here {items : List (Item Value)}
    (inside : ∀ item ∈ items, Held fragments available path target item) :
    Held fragments available path target (.inline none items)

/-- A selection holds at least what another one holds. -/
structure Grows (target next : Selection) : Prop where
  children : ∀ child, Filed child target.children → Filed child next.children
  fragments : ∀ held, FragmentsWithin held target.fragments → FragmentsWithin held next.fragments

theorem Held.mono {fragments available : Keyed Fragment} {path : Path} {target next : Selection}
    {item : Item Value} (held : Held fragments available path target item)
    (grows : Grows target next) : Held fragments available path next item := by
  induction held with
  | field isLeaf isChild filed => exact .field isLeaf isChild (grows.children _ filed)
  | spread isKey found isExpanded filed =>
    exact .spread isKey found isExpanded (grows.fragments _ filed)
  | inline isExpanded filed => exact .inline isExpanded (grows.fragments _ filed)
  | here inside ih => exact .here ih

namespace Grows

variable {s next last : Selection}

theorem refl (s : Selection) : Grows s s := ⟨fun _ filed => filed, fun _ within => within⟩

theorem trans (first : Grows s next) (later : Grows next last) : Grows s last :=
  ⟨fun _ filed => later.children _ (first.children _ filed),
    fun _ within => later.fragments _ (first.fragments _ within)⟩

theorem push {child : Selection} (done : (push s child).result = .ok next) : Grows s next where
  children _ filed := filed.place (Within.splice child) done
  fragments held within := by rw [fragments_of_place done]; exact within

theorem pushFragment (s : Selection) (condition : String) (fragment : Selection) :
    Grows s (s.pushFragment condition fragment) :=
  ⟨fun _ filed => filed, fun _ within => within.add _⟩

end Grows

/-! ### Building -/

theorem Repeats.leaf (name : String) (aliasName : Option String)
    {arguments : List (String × Value)} (distinct : (arguments.map Prod.fst).Nodup) :
    Repeats ⟨name, aliasName, arguments, [], []⟩ ⟨name, aliasName, arguments, [], []⟩ :=
  .intro rfl rfl rfl distinct (List.forall_mem_nil _) .nil .nil .nil .nil

theorem Repeats.ofName (name : String) : Repeats (Selection.named name) (Selection.named name) :=
  .leaf name none .nil

theorem Repeats.ofHead {path : Path} {head : FieldHead Value} {leaf : Selection}
    (done : ofHead path head = .ok leaf) : Repeats leaf leaf := by
  obtain ⟨distinct, rfl⟩ := ofHead_ok done
  exact .leaf _ _ distinct

/-- A child that repeats one that is filed already is merged into it. -/
theorem push_absorbed {s s' child child' : Selection} (r : Repeats s s')
    (own : Repeats child child') (filed : Filed child s.children) (path : Path) :
    ∃ next', (s'.push child').orFault path = .ok next' ∧ Repeats s next' := by
  obtain ⟨next', placed, both⟩ := place_absorbed r own filed
    fun within both => splice_absorbed child' both own within
  rw [Change.orFault, push, placed]
  exact ⟨next', rfl, both⟩

/-- A fragment that repeats one that is filed already is filed again. -/
theorem pushFragment_absorbed {s s' expanded expanded' : Selection} {condition : String}
    (r : Repeats s s') (own : Repeats expanded expanded')
    (filed : FragmentsWithin [(condition, [expanded])] s.fragments) :
    Repeats s (s'.pushFragment condition expanded') :=
  .intro r.name r.aliasName r.arguments r.named r.keyed r.distinct r.conditions r.children
    (filed.absorbed r.fragments (.cons (.next own .done) .nil))

/-! ### One item after the other -/

/-- Adds an item to a selection. -/
def addItem (fragments available : Keyed Fragment) (path : Path) (target : Selection) :
    Item Value → Except QueryError Selection
  | .field head items => do
    let childPath := path.add head.outputKey
    let child ← fill fragments available childPath (← ofHead childPath head) items
    (target.push child).orFault childPath
  | .spread name =>
    if Keyed.hasKey fragments name then
      match Keyed.get? available name with
      | none => .error ⟨path, .fragmentCycle name⟩
      | some fragment =>
        (fill fragments (Keyed.erase available name) path (named fragment.condition)
          fragment.items).map (target.pushFragment fragment.condition)
    else .error ⟨path, .unknownFragment name⟩
  | .inline (some condition) items =>
    (fill fragments available path (named condition) items).map (target.pushFragment condition)
  | .inline none items => fill fragments available path target items

theorem fill_cons (fragments available : Keyed Fragment) (path : Path) (target : Selection)
    (item : Item Value) (rest : List (Item Value)) :
    fill fragments available path target (item :: rest) = (do
      let next ← addItem fragments available path target item
      fill fragments available path next rest) := by
  cases item with
  | field head items =>
    rw [fill, addItem]
    simp only [bind_assoc]
  | spread name =>
    rw [fill, addItem]
    split
    · split
      · rename_i missing
        rw [missing]
        rfl
      · rename_i fragment found
        rw [found]
        dsimp only
        cases fill fragments (Keyed.erase available name) path (named fragment.condition)
          fragment.items <;> rfl
    · rfl
  | inline condition items =>
    cases condition with
    | none => rw [fill, addItem]
    | some condition =>
      rw [fill, addItem]
      cases fill fragments available path (named condition) items <;> rfl

/-- An item has been added to a selection, and the item with repetitions to one with
repetitions. -/
structure Added (fragments available : Keyed Fragment) (path : Path) (target : Selection)
    (item : Item Value) (next next' : Selection) : Prop where
  repeats : Repeats next next'
  grows : Grows target next
  held : Held fragments available path next item

/-- Items have been added to a selection, and items with repetitions to one with repetitions. -/
structure Filled (fragments available : Keyed Fragment) (path : Path) (target : Selection)
    (items : List (Item Value)) (next next' : Selection) : Prop where
  repeats : Repeats next next'
  grows : Grows target next
  held : ∀ item ∈ items, Held fragments available path next item

section Fill

variable {fragments fragments' available available' : Keyed Fragment} {path : Path}
  {target target' : Selection}

theorem Added.cons {item : Item Value} {rest : List (Item Value)}
    {next next' last last' : Selection}
    (first : Added fragments available path target item next next')
    (later : Filled fragments available path next rest last last') :
    Filled fragments available path target (item :: rest) last last' :=
  ⟨later.repeats, first.grows.trans later.grows,
    List.forall_mem_cons.mpr ⟨first.held.mono later.grows, later.held⟩⟩

/-- What was held stays held while an item is added. -/
theorem Added.held_cons {item : Item Value} {seen : List (Item Value)} {next next' : Selection}
    (added : Added fragments available path target item next next')
    (held : ∀ other ∈ seen, Held fragments available path target other) :
    ∀ other ∈ item :: seen, Held fragments available path next other :=
  List.forall_mem_cons.mpr
    ⟨added.held, fun other present => (held other present).mono added.grows⟩

/-- Items with repetitions build a selection with repetitions, whatever they are added to. -/
def FillsInStep (fragments fragments' available' : Keyed Fragment) (items' : List (Item Value)) :
    Prop :=
  ∀ ⦃available : Keyed Fragment⦄ ⦃path : Path⦄ ⦃target target' : Selection⦄
    ⦃seen items : List (Item Value)⦄, Keyed.Both Fragment.Repeats available available' →
    Repeats target target' → Repeating Item.Repeats seen items items' →
    (∀ item ∈ seen, Held fragments available path target item) →
      InStep (Filled fragments available path target items)
        (fill fragments available path target items)
        (fill fragments' available' path target' items')

/-- What is built has a counterpart with repetitions. -/
theorem FillsInStep.exists_filled {items items' : List (Item Value)} {next : Selection}
    (below : FillsInStep fragments fragments' available' items')
    (done : fill fragments available path target items = .ok next)
    (free : Keyed.Both Fragment.Repeats available available') (r : Repeats target target')
    (repeating : Repeating Item.Repeats [] items items') :
    ∃ next', fill fragments' available' path target' items' = .ok next' ∧ Repeats next next' := by
  have own := @below available path _ _ _ _ free r repeating (List.forall_mem_nil _)
  rw [done] at own
  obtain ⟨next', done', filled⟩ := InStep.ok_iff.mp own
  exact ⟨next', done', filled.repeats⟩

/-- The items inside an item build selections with repetitions. -/
def InsideInStep (fragments fragments' available' : Keyed Fragment) : Item Value → Prop
  | .field _ items => FillsInStep fragments fragments' available' items
  | .spread name => ∀ fragment, Keyed.get? available' name = some fragment →
    FillsInStep fragments fragments' (Keyed.erase available' name) fragment.items
  | .inline _ items => FillsInStep fragments fragments' available' items

section Item

variable (known : Keyed.Both Fragment.Repeats fragments fragments')
  (free : Keyed.Both Fragment.Repeats available available') (r : Repeats target target')
  {item item' : Item Value} (same : Item.Repeats item item')
  (inside : InsideInStep fragments fragments' available' item')

include known free r same inside

/-- An item is added in step with the item with repetitions. -/
theorem addItem_inStep : InStep (Added fragments available path target item)
    (addItem fragments available path target item)
    (addItem fragments' available' path target' item') := by
  cases same with
  | field head items =>
    rw [addItem, addItem]
    refine (InStep.refl _).bind fun leaf _ isLeaf same => ?_
    cases same
    refine (inside free (.ofHead isLeaf) items (List.forall_mem_nil _)).bind
      fun child child' isChild own => ?_
    refine (push_inStep r own.repeats).mapError.imp fun next next' pushed both => ?_
    have pushed := mapError_eq_ok.mp pushed
    exact ⟨both, .push pushed,
      .field isLeaf isChild (filed_of_place own.repeats (.of_splice child own.repeats) pushed)⟩
  | spread name =>
    rw [addItem, addItem, known.hasKey name]
    split
    · rename_i isKey
      cases found : Keyed.get? available name with
      | none =>
        rw [free.get?_none found]
        exact .error _ _
      | some fragment =>
        obtain ⟨fragment', found', condition, items⟩ := free.get?_some found
        rw [found']
        dsimp only
        rw [condition]
        refine (inside fragment' found' free.erase (.ofName _) items
          (List.forall_mem_nil _)).map fun expanded expanded' isExpanded own => ?_
        exact ⟨r.pushFragment _ own.repeats, .pushFragment _ _ _,
          .spread isKey found isExpanded (.added _ _)⟩
    · exact .error _ _
  | inline condition items =>
    cases condition with
    | none =>
      rw [addItem, addItem]
      exact (inside free r items (List.forall_mem_nil _)).imp
        fun next next' _ own => ⟨own.repeats, own.grows, .here own.held⟩
    | some condition =>
      rw [addItem, addItem]
      refine (inside free (.ofName _) items (List.forall_mem_nil _)).map
        fun expanded expanded' isExpanded own => ?_
      exact ⟨r.pushFragment _ own.repeats, .pushFragment _ _ _, .inline isExpanded (.added _ _)⟩

/-- An item that is held already is absorbed. -/
theorem addItem_absorbed (held : Held fragments available path target item) :
    ∃ next', addItem fragments' available' path target' item' = .ok next' ∧
      Repeats target next' := by
  cases same with
  | field head items =>
    cases held with
    | field isLeaf isChild filed =>
      obtain ⟨child', isChild', own⟩ := inside.exists_filled isChild free (.ofHead isLeaf) items
      obtain ⟨next', pushed, both⟩ := push_absorbed r own filed (path.add head.outputKey)
      refine ⟨next', ?_, both⟩
      exact bind_eq_ok.mpr ⟨_, isLeaf, bind_eq_ok.mpr ⟨_, isChild', pushed⟩⟩
  | spread name =>
    cases held with
    | @spread _ fragment expanded isKey found isExpanded filed =>
      obtain ⟨fragment', found', condition, items⟩ := free.get?_some found
      obtain ⟨expanded', isExpanded', own⟩ :=
        (inside fragment' found').exists_filled isExpanded free.erase (.ofName _) items
      refine ⟨_, ?_, pushFragment_absorbed r own filed⟩
      rw [addItem, known.hasKey name, if_pos isKey, found']
      dsimp only
      rw [condition]
      exact map_eq_ok.mpr ⟨_, isExpanded', rfl⟩
  | inline condition items =>
    cases held with
    | inline isExpanded filed =>
      obtain ⟨expanded', isExpanded', own⟩ :=
        inside.exists_filled isExpanded free (.ofName _) items
      exact ⟨_, map_eq_ok.mpr ⟨_, isExpanded', rfl⟩, pushFragment_absorbed r own filed⟩
    | here all =>
      -- every item inside is one that was added before, so it repeats an empty list
      have copies := items.source
      rw [List.nil_append] at copies
      have own := inside free r (Repeating.done.repeated (by simpa using copies)) all
      rw [fill] at own
      obtain ⟨next', isNext', own⟩ := InStep.ok_iff.mp own
      exact ⟨next', isNext', own.repeats⟩

end Item

/-- **Items with repetitions build a selection with repetitions.** -/
theorem fill_inStep (known : Keyed.Both Fragment.Repeats fragments fragments') :
    ∀ (available' : Keyed Fragment) (items' : List (Item Value)),
      FillsInStep fragments fragments' available' items'
  | available', [] => by
    intro available path target target' seen items free r repeating held
    cases repeating
    rw [fill, fill]
    exact .ok ⟨r, .refl target, List.forall_mem_nil _⟩
  | available', item' :: rest' => by
    have inside : InsideInStep fragments fragments' available' item' := by
      cases item' with
      | field head items => exact fill_inStep known available' items
      | spread name =>
        exact fun fragment found => fill_inStep known (Keyed.erase available' name) fragment.items
      | inline condition items => exact fill_inStep known available' items
    have later := fill_inStep known available' rest'
    intro available path target target' seen items free r repeating held
    cases repeating with
    | next same more =>
      rw [fill_cons, fill_cons]
      exact (addItem_inStep known free r same inside).bind fun next next' _ added =>
        (later free added.repeats more (added.held_cons held)).imp
          fun last last' _ filled => added.cons filled
    | more old same more =>
      obtain ⟨next', done, both⟩ := addItem_absorbed known free r same inside (held _ old)
      rw [fill_cons fragments', done]
      exact later free both more held
termination_by available' items' => (available'.length, sizeOf items')
decreasing_by
  · exact .right _ (by simp only [List.cons.sizeOf_spec, Item.field.sizeOf_spec]; omega)
  · have := Keyed.length_erase_of_get? found
    exact .left _ _ (by omega)
  · exact .right _ (by simp only [List.cons.sizeOf_spec, Item.inline.sizeOf_spec]; omega)
  · exact .right _ (by simp only [List.cons.sizeOf_spec]; omega)

end Fill

/-- A document with repetitions is built in step with the one without. -/
theorem ofDocument_inStep {document document' : Document}
    (repeats : document.Repeats document') :
    InStep Repeats (ofDocument document) (ofDocument document') := by
  unfold ofDocument ofField
  rw [repeats.head]
  refine (InStep.refl _).bind fun leaf leaf' isLeaf same => ?_
  cases same
  exact (fill_inStep repeats.fragments _ _ repeats.fragments (.ofHead isLeaf) repeats.items
    (List.forall_mem_nil _)).imp fun _ _ _ filled => filled.repeats

end Selection

/-- **Repeating a selection changes nothing.** Let a document be the same as another one but for
items of selection sets that stand again behind where they stood, on any level and inside fragments
too. Then it is built if the other one is, and it asks the same reads of every schema; if one is
rejected, so is the other. -/
theorem Document.Repeats.asks_iff {document document' : Document}
    (repeats : document.Repeats document') :
    (∀ schema reads, document'.Asks schema reads ↔ document.Asks schema reads) ∧
      ((∃ root, Selection.ofDocument document' = .ok root) ↔
        ∃ root, Selection.ofDocument document = .ok root) := by
  have built := Selection.ofDocument_inStep repeats
  refine ⟨fun schema reads => ?_, ?_⟩
  · unfold Document.Asks
    generalize Selection.ofDocument document = x, Selection.ofDocument document' = y at built
    cases built with
    | error e e' => simp
    | ok both => simpa using (Selection.rootReads_inStep both).eq_ok_iff reads
  · generalize Selection.ofDocument document = x, Selection.ofDocument document' = y at built
    cases built with
    | error e e' => simp
    | ok both => simp

/-! ### A book that is asked for again and again -/

namespace Shelf

def title : Attribute := ⟨"title", .string, .column "title"⟩

def book : ObjectType := ⟨"Book", "books", "id", .always, [("title", .scalar title)]⟩

def shelf : Schema where
  types := [("Book", book)]
  interfaces := []
  roots := [("book", ⟨"book", "Book", .single, []⟩)]

def plain (name : String) : Item Value := .field ⟨name, none, []⟩ []

def head : FieldHead Value := ⟨"book", none, [("id", .int 1)]⟩

/-- Asks for the title of a book, and for the id in a fragment. -/
def once : Document where
  root := ⟨⟨rootName, none, []⟩, [.field head [plain "title", .spread "about"]]⟩
  fragments :=
    [("about", ⟨"Book", [.inline none [plain "id"], .inline (some "Book") [plain "title"]]⟩)]

/-- Asks for all of it again, in the fragment too. -/
def again : Document where
  root := ⟨⟨rootName, none, []⟩,
    [.field head [plain "title", .spread "about", plain "title", .spread "about"],
      .field head [plain "title", .spread "about"]]⟩
  fragments := [("about", ⟨"Book", [.inline none [plain "id", plain "id"],
    .inline (some "Book") [plain "title"], .inline none [plain "id"],
    .inline (some "Book") [plain "title"]]⟩)]

def read : RootRead :=
  ⟨"book", .always, [.field ⟨book, [("title", .scalar title), ("id", .id)]⟩], .single (.int 1)⟩

theorem repeats : once.Repeats again where
  head := rfl
  items := .next (.field head (.atEnd fun _ present => present))
    (.more List.mem_cons_self (.refl _) .done)
  fragments := .cons ⟨rfl, .next (.inline none (.atEnd fun _ present => present)) (.next (.refl _)
    (.more (.tail _ List.mem_cons_self) (.refl _) (.more List.mem_cons_self (.refl _) .done)))⟩ .nil

def bare (name : String) : Selection := .named name

def about : Selection :=
  ⟨"Book", none, [], [("id", bare "id")],
    [("Book", [⟨"Book", none, [], [("title", bare "title")], []⟩])]⟩

def field : Selection :=
  ⟨"book", none, [("id", .int 1)], [("title", bare "title")], [("Book", [about])]⟩

theorem asks : once.Asks shelf [read] := by
  have built : Selection.ofDocument once = .ok ⟨rootName, none, [], [("book", field)], []⟩ := by cbv
  have isBook (path : Path) : Selection.bindField shelf book path field =
      .ok ⟨book, [("title", .scalar title), ("id", .id)]⟩ := by
    rw [Selection.bindField_eq]
    cbv
  refine ⟨_, built, ?_⟩
  rw [Selection.rootReads_single, Selection.bindRoot_lookup rfl rfl rfl rfl rfl (isBook _)]
  rfl

/-- The book is read once, however often its title is asked for. -/
theorem asks_iff_again : once.Repeats again ∧ once.Asks shelf [read] ∧ again.Asks shelf [read] :=
  ⟨repeats, asks, (repeats.asks_iff.1 shelf [read]).mpr asks⟩

end Shelf

end GraphRead
