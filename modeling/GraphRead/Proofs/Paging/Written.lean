import GraphRead.Binding.Arguments
import GraphRead.Document.Build
import GraphRead.Fallible
import GraphRead.Proofs.Keyed
import Mathlib.Data.List.Basic
/-!
Queries that are the same but for the pages they ask for.

`unpaged` leaves the arguments of pages out of a document, and of the selection that is built from
it. Two documents that are the same without these arguments are built to selections that are the
same without them (`ofDocument_alike`): wherever a field is merged into another one in one of them,
it is so in the other one too.
-/

namespace GraphRead

open Selection Fallible

/-! ### Keyed lists, value by value -/

namespace Keyed

variable {α β : Type} (f : α → β)

/-- The same keys with other values. -/
def mapValues (entries : Keyed α) : Keyed β := entries.map fun (key, value) => (key, f value)

theorem mapValues_cons (key : String) (value : α) (rest : Keyed α) :
    mapValues f ((key, value) :: rest) = (key, f value) :: mapValues f rest := rfl

theorem get?_mapValues (entries : Keyed α) (key : String) :
    get? (mapValues f entries) key = (get? entries key).map f := by
  induction entries with
  | nil => rfl
  | cons entry rest ih =>
    obtain ⟨k, v⟩ := entry
    rw [mapValues_cons, get?, get?, ih]
    split <;> rfl

theorem mapValues_insert (entries : Keyed α) (key : String) (value : α) :
    mapValues f (insert entries key value) = insert (mapValues f entries) key (f value) := by
  induction entries with
  | nil => rfl
  | cons entry rest ih =>
    obtain ⟨k, v⟩ := entry
    rw [mapValues_cons, insert, insert]
    split
    · rfl
    · rw [mapValues_cons, ih]

theorem mapValues_erase (entries : Keyed α) (key : String) :
    mapValues f (erase entries key) = erase (mapValues f entries) key := by
  induction entries with
  | nil => rfl
  | cons entry rest ih =>
    obtain ⟨k, v⟩ := entry
    rw [mapValues_cons, erase, erase]
    split
    · rfl
    · rw [mapValues_cons, ih]

end Keyed

/-- The arguments of a field without those of its page. -/
def unpagedArguments (arguments : List (String × Value)) : List (String × Value) :=
  arguments.filter fun entry => !paginationArguments.contains entry.1

/-! ### Documents -/

mutual

/-- An item without the arguments of pages. -/
def Item.unpaged : Item Value → Item Value
  | .field head items =>
    .field { head with arguments := unpagedArguments head.arguments }
      (Item.unpagedEach items)
  | .spread fragment => .spread fragment
  | .inline condition items => .inline condition (Item.unpagedEach items)

/-- The items of a selection set without the arguments of pages. -/
def Item.unpagedEach : List (Item Value) → List (Item Value)
  | [] => []
  | item :: rest => item.unpaged :: Item.unpagedEach rest

end

/-- A fragment without the arguments of pages. -/
def Fragment.unpaged (fragment : Fragment) : Fragment :=
  ⟨fragment.condition, Item.unpagedEach fragment.items⟩

/-- A document without the arguments of pages. -/
def Document.unpaged (document : Document) : Document :=
  ⟨⟨document.root.head, Item.unpagedEach document.root.items⟩,
    Keyed.mapValues Fragment.unpaged document.fragments⟩

/-! ### Selections -/

namespace Selection

mutual

/-- A selection without the arguments of pages. -/
def unpaged : Selection → Selection
  | ⟨name, aliasName, arguments, children, fragments⟩ =>
    ⟨name, aliasName, unpagedArguments arguments, unpagedChildren children,
      unpagedMembers fragments⟩

/-- Children without the arguments of pages. -/
def unpagedChildren : List (String × Selection) → List (String × Selection)
  | [] => []
  | (key, child) :: rest => (key, child.unpaged) :: unpagedChildren rest

/-- Fragments under their conditions without the arguments of pages. -/
def unpagedMembers : List (String × List Selection) → List (String × List Selection)
  | [] => []
  | (condition, members) :: rest => (condition, unpagedList members) :: unpagedMembers rest

/-- Selections without the arguments of pages. -/
def unpagedList : List Selection → List Selection
  | [] => []
  | s :: rest => s.unpaged :: unpagedList rest

end

theorem unpagedChildren_eq (children : List (String × Selection)) :
    unpagedChildren children = Keyed.mapValues unpaged children := by
  induction children with
  | nil => rfl
  | cons entry rest ih => rw [unpagedChildren, ih, Keyed.mapValues_cons]

theorem unpagedList_eq (members : List Selection) :
    unpagedList members = members.map unpaged := by
  induction members with
  | nil => rfl
  | cons s rest ih => rw [unpagedList, ih, List.map_cons]

theorem unpagedMembers_eq (fragments : List (String × List Selection)) :
    unpagedMembers fragments = Keyed.mapValues (List.map unpaged) fragments := by
  induction fragments with
  | nil => rfl
  | cons entry rest ih => rw [unpagedMembers, ih, unpagedList_eq, Keyed.mapValues_cons]

/-- Two selections are the same but for the pages they ask for. -/
structure Alike (s t : Selection) : Prop where
  name : s.name = t.name
  aliasName : s.aliasName = t.aliasName
  arguments : unpagedArguments s.arguments = unpagedArguments t.arguments
  children : Keyed.mapValues unpaged s.children = Keyed.mapValues unpaged t.children
  fragments : Keyed.mapValues (List.map unpaged) s.fragments =
    Keyed.mapValues (List.map unpaged) t.fragments

theorem alike_iff {s t : Selection} : Alike s t ↔ s.unpaged = t.unpaged := by
  obtain ⟨name, aliasName, arguments, children, fragments⟩ := s
  obtain ⟨name', aliasName', arguments', children', fragments'⟩ := t
  rw [unpaged, unpaged, mk.injEq, unpagedChildren_eq, unpagedChildren_eq, unpagedMembers_eq,
    unpagedMembers_eq]
  exact ⟨fun ⟨a, b, c, d, e⟩ => ⟨a, b, c, d, e⟩, fun ⟨a, b, c, d, e⟩ => ⟨a, b, c, d, e⟩⟩

theorem Alike.outputKey {s t : Selection} (alike : Alike s t) : s.outputKey = t.outputKey := by
  rw [Selection.outputKey, Selection.outputKey, alike.name, alike.aliasName]

/-- Selections stay alike without their fragments. -/
theorem Alike.withoutFragments {s t : Selection} (alike : Alike s t) :
    Alike s.withoutFragments t.withoutFragments :=
  ⟨alike.name, alike.aliasName, alike.arguments, alike.children, rfl⟩

/-- Where one of two lists of children that are alike begins with a child, so does the other. -/
theorem exists_cons_of_children {key : String} {child : Selection}
    {rest others : List (String × Selection)}
    (same : Keyed.mapValues unpaged ((key, child) :: rest) = Keyed.mapValues unpaged others) :
    ∃ other more, others = (key, other) :: more ∧ Alike child other ∧
      Keyed.mapValues unpaged rest = Keyed.mapValues unpaged more := by
  cases others with
  | nil => cases same
  | cons entry more =>
    obtain ⟨key', other⟩ := entry
    obtain ⟨first, later⟩ := List.cons.inj same
    obtain ⟨rfl, own⟩ := Prod.mk.inj first
    exact ⟨other, more, rfl, alike_iff.mpr own, later⟩

/-! ### Merging -/

/-- Fields are filed under the same keys, and merged into each other alike. -/
theorem place_alike {s t child other : Selection} (alike : Alike s t)
    (own : Alike child other) {merge merge' : Selection → Change}
    (merged : ∀ there there', Alike there there' → (merge there).conflict = none →
      (merge' there').conflict = none → Alike (merge there).selection (merge' there').selection)
    (done : (place s child merge).conflict = none)
    (done' : (place t other merge').conflict = none) :
    Alike (place s child merge).selection (place t other merge').selection := by
  have stored {child other : Selection} (own : Alike child other) (key : String) :
      Alike { s with children := Keyed.insert s.children key child }
        { t with children := Keyed.insert t.children key other } := by
    refine ⟨alike.name, alike.aliasName, alike.arguments, ?_, alike.fragments⟩
    rw [Keyed.mapValues_insert, Keyed.mapValues_insert, alike.children, alike_iff.mp own]
  have found := congrArg (fun entries => Keyed.get? entries child.outputKey) alike.children
  simp only [Keyed.get?_mapValues] at found
  unfold place at done done' ⊢
  rw [← own.outputKey] at done' ⊢
  cases here : Keyed.get? s.children child.outputKey with
  | none =>
    rw [here] at found
    rw [Option.map_eq_none_iff.mp found.symm]
    exact stored own _
  | some there =>
    rw [here] at found done
    obtain ⟨there', here', same⟩ := Option.map_eq_some_iff.mp found.symm
    rw [here'] at done' ⊢
    dsimp only at done done' ⊢
    split at done
    · cases done
    · rename_i named
      rw [if_neg named]
      split at done
      · cases done
      · rename_i asked
        rw [if_neg asked]
        split at done'
        · cases done'
        · rename_i named'
          rw [if_neg named']
          split at done'
          · cases done'
          · rename_i asked'
            rw [if_neg asked']
            exact stored (merged there there' (alike_iff.mpr same.symm) done done') _

theorem addFragments_alike (there more : List (String × List Selection)) :
    Keyed.mapValues (List.map unpaged) (addFragments there more) =
      addFragments (Keyed.mapValues (List.map unpaged) there)
        (Keyed.mapValues (List.map unpaged) more) := by
  unfold addFragments
  induction more generalizing there with
  | nil => rfl
  | cons entry rest ih =>
    rw [Keyed.mapValues_cons, List.foldl_cons, List.foldl_cons, ih]
    dsimp only
    rw [Keyed.mapValues_insert, Keyed.get?_mapValues, List.map_append]
    cases Keyed.get? there entry.1 <;> rfl

mutual

/-- What is taken over from selections that are alike is alike. -/
theorem splice_alike : ∀ (own : Selection) {s t other : Selection}, Alike s t →
    Alike own other → (splice s own).conflict = none → (splice t other).conflict = none →
    Alike (splice s own).selection (splice t other).selection
  | ⟨_, _, _, children, fragments⟩, s, t, ⟨_, _, _, children', fragments'⟩, alike, own, done,
      done' => by
    rw [splice] at done done' ⊢
    rw [splice]
    dsimp only at done done' ⊢
    split at done
    · rename_i failed
      rw [failed] at done
      cases done
    · rename_i first
      split at done'
      · rename_i failed
        rw [failed] at done'
        cases done'
      · rename_i first'
        have both := spliceChildren_alike children alike own.children first first'
        refine ⟨both.name, both.aliasName, both.arguments, both.children, ?_⟩
        rw [addFragments_alike, addFragments_alike, both.fragments, own.fragments]

theorem spliceChildren_alike : ∀ (children : List (String × Selection))
    {others : List (String × Selection)} {s t : Selection}, Alike s t →
    Keyed.mapValues unpaged children = Keyed.mapValues unpaged others →
    (spliceChildren s children).conflict = none → (spliceChildren t others).conflict = none →
    Alike (spliceChildren s children).selection (spliceChildren t others).selection
  | [], others, s, t, alike, same, done, done' => by
    cases List.map_eq_nil_iff.mp same.symm
    exact alike
  | (key, child) :: rest, others, s, t, alike, same, done, done' => by
    obtain ⟨other, more, rfl, own, later⟩ := exists_cons_of_children same
    rw [spliceChildren] at done done' ⊢
    rw [spliceChildren]
    split at done
    · rename_i failed
      rw [failed] at done
      cases done
    · rename_i first
      split at done'
      · rename_i failed
        rw [failed] at done'
        cases done'
      · rename_i first'
        have both := place_alike alike own
          (fun there there' known => splice_alike child known own) first first'
        exact spliceChildren_alike rest both later done done'

end

theorem conflict_of_result {change : Change} {s : Selection} (done : change.result = .ok s) :
    change.conflict = none ∧ change.selection = s := by
  refine ⟨?_, (Change.eq_of_result done).symm⟩
  unfold Change.result at done
  split at done
  · cases done
  · assumption

theorem push_alike {s t child other pushed pushed' : Selection} (alike : Alike s t)
    (own : Alike child other) {path path' : Path}
    (done : (s.push child).orFault path = .ok pushed)
    (done' : (t.push other).orFault path' = .ok pushed') : Alike pushed pushed' := by
  obtain ⟨none, rfl⟩ := conflict_of_result (mapError_eq_ok.mp done)
  obtain ⟨none', rfl⟩ := conflict_of_result (mapError_eq_ok.mp done')
  exact place_alike alike own (fun there there' known => splice_alike child known own) none none'

theorem pushFragment_alike {s t fragment other : Selection} (alike : Alike s t)
    (condition : String) (own : Alike fragment other) :
    Alike (s.pushFragment condition fragment) (t.pushFragment condition other) := by
  refine ⟨alike.name, alike.aliasName, alike.arguments, alike.children, ?_⟩
  rw [pushFragment, pushFragment, addFragments_alike, addFragments_alike, alike.fragments]
  refine congrArg (addFragments _) ?_
  rw [Keyed.mapValues_cons, Keyed.mapValues_cons, List.map_singleton, List.map_singleton,
    alike_iff.mp own]

/-! ### Building -/

theorem ofHead_alike {path path' : Path} {head other : FieldHead Value} {s t : Selection}
    (name : head.name = other.name) (aliasName : head.aliasName = other.aliasName)
    (arguments : unpagedArguments head.arguments = unpagedArguments other.arguments)
    (done : ofHead path head = .ok s) (done' : ofHead path' other = .ok t) :
    Alike s t := by
  unfold ofHead at done done'
  split at done
  · cases done
  · split at done'
    · cases done'
    · cases done
      cases done'
      exact ⟨name, aliasName, arguments, rfl, rfl⟩

theorem named_alike (name : String) : Alike (named name) (named name) :=
  ⟨rfl, rfl, rfl, rfl, rfl⟩

/-- A spread is filled with the definition of its fragment, which is not spread again there. -/
theorem exists_of_fill_spread {fragments available : Keyed Fragment} {path : Path}
    {target s : Selection} {name : String} {rest : List (Item Value)}
    (done : fill fragments available path target (.spread name :: rest) = .ok s) :
    ∃ fragment expanded, Keyed.get? available name = some fragment ∧
      fill fragments (Keyed.erase available name) path (named fragment.condition) fragment.items =
        .ok expanded ∧
      fill fragments available path (target.pushFragment fragment.condition expanded) rest =
        .ok s := by
  rw [fill] at done
  split at done
  · split at done
    · cases done
    · rename_i fragment found
      obtain ⟨expanded, isExpanded, done⟩ := bind_eq_ok.mp done
      exact ⟨fragment, expanded, found, isExpanded, done⟩
  · cases done

/-- Selections that are alike are filled alike with items that are the same but for pages. -/
theorem fill_alike {fragments available fragments' available' : Keyed Fragment}
    {path path' : Path} {target other s t : Selection} {items items' : List (Item Value)}
    (left : Keyed.mapValues Fragment.unpaged available =
      Keyed.mapValues Fragment.unpaged available')
    (alike : Alike target other)
    (same : Item.unpagedEach items = Item.unpagedEach items')
    (done : fill fragments available path target items = .ok s)
    (done' : fill fragments' available' path' other items' = .ok t) : Alike s t := by
  fun_induction fill fragments available path target items
    generalizing available' path' other items' s t with
  | case1 available path target =>
    cases items' with
    | cons => cases same
    | nil =>
      rw [fill] at done'
      cases done
      cases done'
      exact alike
  | case2 available path target head items rest childPath ihChild =>
    rename_i ihRest
    obtain _ | ⟨⟨head', inside'⟩ | _ | _, rest'⟩ := items' <;> try cases same
    obtain ⟨first, later⟩ := List.cons.inj same
    obtain ⟨heads, inside⟩ := Item.field.inj first
    rw [fill] at done'
    obtain ⟨leaf, isLeaf, done⟩ := bind_eq_ok.mp done
    obtain ⟨child, isChild, done⟩ := bind_eq_ok.mp done
    obtain ⟨next, pushed, done⟩ := bind_eq_ok.mp done
    obtain ⟨leaf', isLeaf', done'⟩ := bind_eq_ok.mp done'
    obtain ⟨child', isChild', done'⟩ := bind_eq_ok.mp done'
    obtain ⟨next', pushed', done'⟩ := bind_eq_ok.mp done'
    obtain ⟨name, aliasName, arguments⟩ := FieldHead.mk.inj heads
    have start := ofHead_alike name aliasName arguments isLeaf isLeaf'
    have own := ihChild leaf left start inside isChild isChild'
    exact ihRest next left (push_alike alike own pushed pushed') later done done'
  | case3 => cases done
  | case4 available path target name rest known fragment found ihFragment ihRest =>
    obtain _ | ⟨_ | name' | _, rest'⟩ := items' <;> try cases same
    obtain ⟨first, later⟩ := List.cons.inj same
    cases Item.spread.inj first
    obtain ⟨expanded, isExpanded, done⟩ := bind_eq_ok.mp done
    obtain ⟨fragment', expanded', found', isExpanded', done'⟩ := exists_of_fill_spread done'
    have defined := congrArg (fun entries => Keyed.get? entries name) left
    simp only [Keyed.get?_mapValues, found, found', Option.map_some] at defined
    obtain ⟨condition, inside⟩ := Fragment.mk.inj (Option.some.inj defined)
    have erased : Keyed.mapValues Fragment.unpaged (Keyed.erase available name) =
        Keyed.mapValues Fragment.unpaged (Keyed.erase available' name) := by
      rw [Keyed.mapValues_erase, Keyed.mapValues_erase, left]
    rw [← condition] at isExpanded' done'
    have own := ihFragment erased (named_alike _) inside isExpanded isExpanded'
    exact ihRest expanded left (pushFragment_alike alike _ own) later done done'
  | case5 => cases done
  | case6 available path target condition items rest ihFragment ihRest =>
    obtain _ | ⟨_ | _ | ⟨_ | condition', inside'⟩, rest'⟩ := items' <;> try cases same
    obtain ⟨first, later⟩ := List.cons.inj same
    obtain ⟨conditions, inside⟩ := Item.inline.inj first
    cases conditions
    rw [fill] at done'
    obtain ⟨expanded, isExpanded, done⟩ := bind_eq_ok.mp done
    obtain ⟨expanded', isExpanded', done'⟩ := bind_eq_ok.mp done'
    have own := ihFragment left (named_alike _) inside isExpanded isExpanded'
    exact ihRest expanded left (pushFragment_alike alike _ own) later done done'
  | case7 available path target items rest ihItems ihRest =>
    obtain _ | ⟨_ | _ | ⟨_ | condition', inside'⟩, rest'⟩ := items' <;> try cases same
    obtain ⟨first, later⟩ := List.cons.inj same
    obtain ⟨-, inside⟩ := Item.inline.inj first
    rw [fill] at done'
    obtain ⟨next, isNext, done⟩ := bind_eq_ok.mp done
    obtain ⟨next', isNext', done'⟩ := bind_eq_ok.mp done'
    exact ihRest next left (ihItems left alike inside isNext isNext') later done done'

/-- **Documents that are the same but for pages are built to selections that are so.** -/
theorem ofDocument_alike {document other : Document} {s t : Selection}
    (same : document.unpaged = other.unpaged) (done : ofDocument document = .ok s)
    (done' : ofDocument other = .ok t) : Alike s t := by
  obtain ⟨⟨head, items⟩, fragments⟩ := document
  obtain ⟨⟨head', items'⟩, fragments'⟩ := other
  obtain ⟨roots, left⟩ := Document.mk.inj same
  obtain ⟨heads, inside⟩ := WrittenField.mk.inj roots
  cases heads
  obtain ⟨leaf, isLeaf, done⟩ := bind_eq_ok.mp done
  obtain ⟨leaf', isLeaf', done'⟩ := bind_eq_ok.mp done'
  exact fill_alike left (ofHead_alike rfl rfl rfl isLeaf isLeaf') inside done done'

end Selection

end GraphRead
