import GraphRead.Proofs.Document.Refused
import GraphRead.Proofs.Document.Tidy
/-!
A document is accepted exactly if it is well-formed.

Whatever is reached in a document that is accepted was received into some selection
(`Selection.Received`, `Document.Reaches.filled`). So every fragment that is spread there was
available; one that leads back to itself would have to be available while it is expanded
(`Document.Expands.not_cyclic`); and two fields under one key were both merged into what is filed
there, so that they agree with it, and with each other (`Selection.agrees_of_filed`). In the other
direction, a document that is refused has a fault (`Selection.ofDocument_faulty`).
`Document.accepts_exactly_wellFormed` says both.
-/

namespace GraphRead

open Fallible

namespace Selection

variable {fragments available : Keyed Fragment} {filled : Selection}

/-! ### What became of the items of a selection set -/

/-- An item was received into a selection. -/
inductive Received (fragments available : Keyed Fragment) (filled : Selection) : Item Value → Prop
  | field {head : FieldHead Value} {items : List (Item Value)} {path : Path}
    {leaf child : Selection} (isLeaf : ofHead path head = .ok leaf)
    (built : fill fragments available path leaf items = .ok child)
    (filed : Filed child filled.children) : Received fragments available filled (.field head items)
  | spread {name : String} {fragment : Fragment} {path : Path} {expanded : Selection}
    (found : Keyed.get? available name = some fragment)
    (built : fill fragments (Keyed.erase available name) path (named fragment.condition)
      fragment.items = .ok expanded) : Received fragments available filled (.spread name)
  | condition {condition : String} {items : List (Item Value)} {path : Path}
    {expanded : Selection}
    (built : fill fragments available path (named condition) items = .ok expanded) :
    Received fragments available filled (.inline (some condition) items)
  | plain {items : List (Item Value)} {path : Path} {target inner : Selection}
    (built : fill fragments available path target items = .ok inner)
    (kept : ∀ held, Filed held inner.children → Filed held filled.children) :
    Received fragments available filled (.inline none items)

theorem Received.kept {inner : Selection} {item : Item Value}
    (received : Received fragments available inner item)
    (kept : ∀ held, Filed held inner.children → Filed held filled.children) :
    Received fragments available filled item := by
  cases received with
  | field isLeaf built filed => exact .field isLeaf built (kept _ filed)
  | spread found built => exact .spread found built
  | condition built => exact .condition built
  | plain built inside => exact .plain built fun held filed => kept held (inside held filed)

/-- What is filed stays filed while further items are received, and every item is received. -/
theorem received_of_fill {path : Path} {target : Selection} {items : List (Item Value)}
    (done : fill fragments available path target items = .ok filled) :
    (∀ held, Filed held target.children → Filed held filled.children) ∧
      ∀ item ∈ items, Received fragments available filled item := by
  fun_induction fill fragments available path target items generalizing filled with
  | case1 =>
    cases done
    exact ⟨fun _ filed => filed, List.forall_mem_nil _⟩
  | case2 available path target head items rest childPath ihChild =>
    rename_i ihRest
    obtain ⟨leaf, isLeaf, done⟩ := bind_eq_ok.mp done
    obtain ⟨child, built, done⟩ := bind_eq_ok.mp done
    obtain ⟨next, pushed, done⟩ := bind_eq_ok.mp done
    obtain ⟨kept, received⟩ := ihRest next done
    have placed := mapError_eq_ok.mp pushed
    have tidy := fill_tidy (ofHead_tidy isLeaf) built
    refine ⟨fun held filed => kept held (filed.place (Within.splice child) placed),
      List.forall_mem_cons.mpr ⟨.field isLeaf built (kept child ?_), received⟩⟩
    exact filed_of_place tidy.repeats (Within.of_splice child tidy.repeats) placed
  | case3 => cases done
  | case4 available path target name rest known fragment found ihFragment ihRest =>
    obtain ⟨expanded, built, done⟩ := bind_eq_ok.mp done
    obtain ⟨kept, received⟩ := ihRest expanded done
    exact ⟨kept, List.forall_mem_cons.mpr ⟨.spread found built, received⟩⟩
  | case5 => cases done
  | case6 available path target condition items rest ihFragment ihRest =>
    obtain ⟨expanded, built, done⟩ := bind_eq_ok.mp done
    obtain ⟨kept, received⟩ := ihRest expanded done
    exact ⟨kept, List.forall_mem_cons.mpr ⟨.condition built, received⟩⟩
  | case7 available path target items rest ihItems ihRest =>
    obtain ⟨next, built, done⟩ := bind_eq_ok.mp done
    obtain ⟨kept, received⟩ := ihRest next done
    exact ⟨fun held filed => kept held ((ihItems built).1 held filed),
      List.forall_mem_cons.mpr ⟨.plain built kept, received⟩⟩

/-- A selection is what a field was built to. -/
def Builds (fragments available : Keyed Fragment) (field : WrittenField) (child : Selection) :
    Prop :=
  ∃ path leaf, ofHead path field.head = .ok leaf ∧
    fill fragments available path leaf field.items = .ok child

theorem Builds.tidy {field : WrittenField} {child : Selection}
    (builds : Builds fragments available field child) : child.Tidy := by
  obtain ⟨path, leaf, isLeaf, built⟩ := builds
  exact fill_tidy (ofHead_tidy isLeaf) built

theorem Builds.head {field : WrittenField} {child : Selection}
    (builds : Builds fragments available field child) :
    field.head = ⟨child.name, child.aliasName, child.arguments⟩ := by
  obtain ⟨path, leaf, isLeaf, built⟩ := builds
  obtain ⟨name, aliasName, arguments⟩ := head_of_fill built
  obtain ⟨-, rfl⟩ := ofHead_ok isLeaf
  rw [name, aliasName, arguments]
  rfl

mutual

theorem own_filed : ∀ (item : Item Value) {filled : Selection},
    Received fragments available filled item → ∀ f ∈ Item.own item,
      ∃ child, Builds fragments available f child ∧ Filed child filled.children
  | .field head items, filled, .field isLeaf built filed, f, present => by
    cases List.mem_singleton.mp present
    exact ⟨_, ⟨_, _, isLeaf, built⟩, filed⟩
  | .spread _, _, _, f, present => nomatch present
  | .inline (some _) _, _, _, f, present => nomatch present
  | .inline none items, filled, .plain built kept, f, present => by
    obtain ⟨child, builds, filed⟩ := fields_filed items (received_of_fill built).2 f present
    exact ⟨child, builds, kept child filed⟩

/-- Every field of a selection set is built, and filed. -/
theorem fields_filed : ∀ (items : List (Item Value)) {filled : Selection},
    (∀ item ∈ items, Received fragments available filled item) → ∀ f ∈ Item.fields items,
      ∃ child, Builds fragments available f child ∧ Filed child filled.children
  | [], _, _, f, present => nomatch present
  | first :: rest, filled, received, f, present => by
    obtain ⟨here, later⟩ := List.forall_mem_cons.mp received
    rcases List.mem_append.mp present with own | other
    · exact own_filed first here f own
    · exact fields_filed rest later f other

end

/-! ### Fields under one key -/

/-- Two fields that are filed under one key agree: both agree with what stands there. -/
theorem agrees_of_filed {s : Selection} (tidy : s.Tidy) {left right : Keyed Fragment}
    {f g : WrittenField} {a b : Selection} (builds : Builds fragments left f a)
    (builds' : Builds fragments right g b) (filed : Filed a s.children)
    (filed' : Filed b s.children) (key : f.head.outputKey = g.head.outputKey) : f.Agrees g := by
  induction tidy generalizing f g a b with
  | @intro s _ _ _ _ children _ ih =>
    obtain ⟨found, name, arguments, within⟩ := filed
    obtain ⟨found', name', arguments', within'⟩ := filed'
    rename_i there there'
    have keys : a.outputKey = b.outputKey := by
      rw [builds.head, builds'.head] at key
      exact key
    rw [← keys, found] at found'
    cases found'
    have present := Keyed.mem_of_get? found
    obtain ⟨named, -⟩ := children _ present
    obtain ⟨within⟩ := within
    obtain ⟨within'⟩ := within'
    refine .intro ?_ ?_ fun x inside y inside' same => ?_
    · rw [builds.head, builds'.head]
      exact name.symm.trans name'
    · rw [builds.head, builds'.head]
      exact sameArguments_trans (sameArguments_symm arguments named) arguments'
    · obtain ⟨path, leaf, -, built⟩ := id builds
      obtain ⟨path', leaf', -, built'⟩ := id builds'
      obtain ⟨child, own, stands⟩ := fields_filed _ (received_of_fill built).2 x inside
      obtain ⟨child', own', stands'⟩ := fields_filed _ (received_of_fill built').2 y inside'
      exact ih _ present own own' (stands.trans builds.tidy.repeats within)
        (stands'.trans builds'.tidy.repeats within') same

end Selection

open Selection

namespace Document

variable {document : Document}

/-! ### Fragments that are expanded -/

/-- A fragment is available, and its selection set can be received without it. -/
def Expands (document : Document) (available : Keyed Fragment) (name : String) : Prop :=
  ∃ fragment path target expanded, Keyed.get? available name = some fragment ∧
    fill document.fragments (Keyed.erase available name) path target fragment.items = .ok expanded

end Document

namespace Selection

variable {document : Document} {available : Keyed Fragment}

mutual

theorem spreads_expand : ∀ (item : Item Value) {filled : Selection},
    Received document.fragments available filled item → ∀ name ∈ item.spreads,
      document.Expands available name
  | .field _ items, _, .field _ built _, name, present =>
    spreadsOf_expand items (received_of_fill built).2 name present
  | .spread _, _, .spread found built, name, present => by
    cases List.mem_singleton.mp present
    exact ⟨_, _, _, _, found, built⟩
  | .inline (some _) items, _, .condition built, name, present =>
    spreadsOf_expand items (received_of_fill built).2 name present
  | .inline none items, _, .plain built _, name, present =>
    spreadsOf_expand items (received_of_fill built).2 name present

/-- Every fragment that is spread in a selection set is expanded. -/
theorem spreadsOf_expand : ∀ (items : List (Item Value)) {filled : Selection},
    (∀ item ∈ items, Received document.fragments available filled item) →
      ∀ name ∈ Item.spreadsOf items, document.Expands available name
  | [], _, _, name, present => nomatch present
  | first :: rest, filled, received, name, present => by
    obtain ⟨here, later⟩ := List.forall_mem_cons.mp received
    rcases List.mem_append.mp present with own | other
    · exact spreads_expand first here name own
    · exact spreadsOf_expand rest later name other

end

end Selection

namespace Document

variable {document : Document} {available : Keyed Fragment} {name other : String}

theorem Expands.step (expands : document.Expands available name)
    (known : document.Available available) (spreads : document.Spreads name other) :
    document.Expands (Keyed.erase available name) other := by
  obtain ⟨fragment, path, target, expanded, found, built⟩ := expands
  obtain ⟨fragment', defined, inside⟩ := spreads
  rw [known.defined name fragment found] at defined
  cases defined
  exact spreadsOf_expand _ (received_of_fill built).2 other inside

/-- Whatever a fragment leads to is expanded without it. -/
theorem Expands.without (expands : document.Expands available name)
    (known : document.Available available)
    (leads : Relation.TransGen document.Spreads name other) :
    ∃ fewer, document.Available fewer ∧ Keyed.get? fewer name = none ∧
      document.Expands fewer other := by
  induction leads with
  | single spreads =>
    refine ⟨_, known.erase name, ?_, expands.step known spreads⟩
    rw [Keyed.get?_erase known.distinct, if_pos rfl]
  | @tail middle other _ spreads ih =>
    obtain ⟨fewer, known', missing, inner⟩ := ih
    refine ⟨_, known'.erase middle, ?_, inner.step known' spreads⟩
    rw [Keyed.get?_erase known'.distinct, missing, ite_self]

/-- A fragment that can be expanded does not lead back to itself. -/
theorem Expands.not_cyclic (expands : document.Expands available name)
    (known : document.Available available) :
    ¬ Relation.TransGen document.Spreads name name := by
  intro cycle
  obtain ⟨fewer, -, missing, fragment, path, target, expanded, found, -⟩ :=
    expands.without known cycle
  rw [missing] at found
  cases found

/-! ### Documents that are accepted -/

/-- A selection set was received into a tidy selection. -/
def Filled (document : Document) (items : List (Item Value)) : Prop :=
  ∃ available filled, document.Available available ∧ filled.Tidy ∧
    ∀ item ∈ items, Received document.fragments available filled item

/-- Whatever is reached in a document that is accepted was received into some selection. -/
theorem Reaches.filled {s : Selection} (done : ofDocument document = .ok s)
    (distinct : (document.fragments.map Prod.fst).Nodup) {items : List (Item Value)}
    (reached : document.Reaches items) : document.Filled items := by
  have leaf (name : String) : (named name).Tidy := .leaf _ _ .nil
  induction reached with
  | root =>
    obtain ⟨target, isLeaf, built⟩ := bind_eq_ok.mp done
    exact ⟨_, _, .all distinct, fill_tidy (ofHead_tidy isLeaf) built, (received_of_fill built).2⟩
  | field above present ih =>
    obtain ⟨available, filled, known, tidy, received⟩ := ih
    cases received _ present with
    | field isLeaf built filed =>
      exact ⟨_, _, known, fill_tidy (ofHead_tidy isLeaf) built, (received_of_fill built).2⟩
  | inline above present ih =>
    obtain ⟨available, filled, known, tidy, received⟩ := ih
    cases received _ present with
    | condition built => exact ⟨_, _, known, fill_tidy (leaf _) built, (received_of_fill built).2⟩
    | plain built kept =>
      exact ⟨_, filled, known, tidy, fun item inside =>
        ((received_of_fill built).2 item inside).kept kept⟩
  | spread above present defined ih =>
    obtain ⟨available, filled, known, tidy, received⟩ := ih
    cases received _ present with
    | spread found built =>
      rw [known.defined _ _ found] at defined
      cases defined
      exact ⟨_, _, known.erase _, fill_tidy (leaf _) built, (received_of_fill built).2⟩

/-- A document that is accepted is well-formed. -/
theorem wellFormed_of_ofDocument {s : Selection} (done : ofDocument document = .ok s)
    (distinct : (document.fragments.map Prod.fst).Nodup) : document.WellFormed where
  defined := by
    rintro name ⟨items, reached, present⟩
    obtain ⟨available, filled, known, -, received⟩ := reached.filled done distinct
    cases received _ present with
    | spread found built => exact ⟨_, known.defined _ _ found⟩
  acyclic := by
    rintro name ⟨items, reached, present⟩
    obtain ⟨available, filled, known, -, received⟩ := reached.filled done distinct
    exact (spreads_expand _ (received _ present) name List.mem_cons_self).not_cyclic known
  arguments := by
    rintro head (_ | ⟨items, reached, present⟩)
    · obtain ⟨target, isLeaf, -⟩ := bind_eq_ok.mp done
      exact (ofHead_ok isLeaf).1
    · obtain ⟨available, filled, -, -, received⟩ := reached.filled done distinct
      cases received _ present with
      | field isLeaf _ _ => exact (ofHead_ok isLeaf).1
  fields := by
    intro items reached f left g right key
    obtain ⟨available, filled, -, tidy, received⟩ := reached.filled done distinct
    obtain ⟨child, builds, filed⟩ := fields_filed items received f left
    obtain ⟨child', builds', filed'⟩ := fields_filed items received g right
    exact agrees_of_filed tidy builds builds' filed filed' key

/-- **Reading a document comes to an end for all fragments there are, and accepts exactly the
documents that are well-formed.** Whatever it reports is a fault that the document has. -/
theorem accepts_exactly_wellFormed (document : Document)
    (distinct : (document.fragments.map Prod.fst).Nodup) :
    ((∃ s, ofDocument document = .ok s) ↔ document.WellFormed) ∧
      ∀ e, ofDocument document = .error e → document.Faulty e.fault := by
  have faulty := ofDocument_faulty distinct
  refine ⟨⟨fun ⟨s, done⟩ => wellFormed_of_ofDocument done distinct, fun wellFormed => ?_⟩, faulty⟩
  cases done : ofDocument document with
  | ok s => exact ⟨s, rfl⟩
  | error e => exact absurd wellFormed (faulty e done).not_wellFormed

namespace Member

/-- A user who is asked for through two fragments, which spread other ones inside. -/
def asked (left right shared : List (Item Value)) : Document :=
  ⟨⟨⟨rootName, none, []⟩, [.field ⟨"me", none, []⟩ [.spread "Left", .spread "Right"]]⟩,
    [("Left", ⟨"User", left⟩), ("Right", ⟨"User", right⟩), ("Shared", ⟨"User", shared⟩)]⟩

/-- A fragment that is spread twice is no cycle, and one that comes back to itself below a field
is. -/
theorem shared_is_wellFormed_and_cycle_is_not :
    (asked [.spread "Shared"] [.spread "Shared"] [.field ⟨"id", none, []⟩ []]).WellFormed ∧
    (asked [] [.spread "Shared"] [.field ⟨"friend", none, []⟩ [.spread "Right"]]).Faulty
      (.fragmentCycle "Right") :=
  ⟨(accepts_exactly_wellFormed _ (by decide)).1.mp ⟨_, by cbv⟩,
    (accepts_exactly_wellFormed _ (by decide)).2 ⟨["Query", "me", "friend"], _⟩ (by cbv)⟩

end Member

end Document

end GraphRead
