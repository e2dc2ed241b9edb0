import GraphRead.Binding.Fragments
import GraphRead.Document.Build
/-!
Fields under other heads.

What is filed in a selection does not depend on the name, the alias and the arguments that the
selection itself has. So a field that is asked again with other arguments is built with the same
children (`ofItems_headed`), and its fragments resolve to the same (`resolveFragments_headed`).
-/

namespace GraphRead.Selection

/-- A selection under another head. -/
def headed (head : FieldHead Value) (s : Selection) : Selection :=
  { s with name := head.name, aliasName := head.aliasName, arguments := head.arguments }

/-- A change of a selection as a change of the selection under another head. -/
def Change.headed (head : FieldHead Value) (change : Change) : Change :=
  ⟨change.selection.headed head, change.conflict⟩

theorem Change.result_headed (head : FieldHead Value) (change : Change) :
    (change.headed head).result = change.result.map (Selection.headed head) := by
  unfold Change.result Change.headed
  dsimp only
  cases change.conflict <;> rfl

variable (head : FieldHead Value)

theorem place_headed (s child : Selection) (merge : Selection → Change) :
    place (s.headed head) child merge = (place s child merge).headed head := by
  have same : (s.headed head).children = s.children := rfl
  unfold place
  rw [same]
  split
  · rfl
  · split
    · rfl
    · split <;> rfl

theorem spliceChildren_headed (s : Selection) (children : List (String × Selection)) :
    spliceChildren (s.headed head) children = (spliceChildren s children).headed head := by
  induction children generalizing s with
  | nil => rfl
  | cons entry rest ih =>
    obtain ⟨key, child⟩ := entry
    have same : ((place s child fun there => splice there child).headed head).conflict =
        (place s child fun there => splice there child).conflict := rfl
    rw [spliceChildren, spliceChildren, place_headed, same]
    split
    · rfl
    · exact ih _

theorem splice_headed (s other : Selection) :
    splice (s.headed head) other = (splice s other).headed head := by
  obtain ⟨_, _, _, children, fragments⟩ := other
  have same : ((spliceChildren s children).headed head).conflict =
      (spliceChildren s children).conflict := rfl
  rw [splice, splice, spliceChildren_headed]
  dsimp only
  rw [same]
  split <;> rfl

/-! ### Fragments -/

theorem spliceAt_headed (target fragment : Selection) (path : Path) :
    spliceAt (target.headed head) fragment path =
      (spliceAt target fragment path).map (headed head) := by
  rw [spliceAt, spliceAt, splice_headed, Change.result_headed]
  cases (target.splice fragment).result <;> rfl

theorem spliceQueue_headed (accept : String → Except BindError Bool) (path : Path)
    (target : Selection) (queue : List (String × Selection)) :
    spliceQueue accept path (target.headed head) queue =
      (spliceQueue accept path target queue).map (headed head) := by
  fun_induction spliceQueue accept path target queue with
  | case1 target => rw [spliceQueue]; rfl
  | case2 target condition fragment rest ihTaken ihDropped =>
    rw [spliceQueue]
    cases accept condition with
    | error e => rfl
    | ok applies =>
      cases applies with
      | true =>
        show Except.bind (spliceAt (target.headed head) fragment.withoutFragments path) _ =
          Except.map _ (Except.bind (spliceAt target fragment.withoutFragments path) _)
        rw [spliceAt_headed]
        cases spliceAt target fragment.withoutFragments path with
        | error e => rfl
        | ok next => exact ihTaken next
      | false => exact ihDropped

/-- The fragments of a selection resolve to the same under another head. -/
theorem resolveFragments_headed (accept : String → Except BindError Bool) (path : Path)
    (s : Selection) :
    resolveFragments accept path (s.headed head) =
      (resolveFragments accept path s).map (headed head) :=
  spliceQueue_headed head accept path s.withoutFragments s.fragmentList

/-! ### Building -/

theorem orFault_push_headed (target child : Selection) (path : Path) :
    ((target.headed head).push child).orFault path =
      ((target.push child).orFault path).map (headed head) := by
  rw [push, push, place_headed, Change.orFault, Change.orFault, Change.result_headed]
  cases (place target child fun there => splice there child).result <;> rfl

/-- A selection is filled with the same children under another head. -/
theorem fill_headed (fragments available : Keyed Fragment) (path : Path) (target : Selection)
    (items : List (Item Value)) :
    fill fragments available path (target.headed head) items =
      (fill fragments available path target items).map (headed head) := by
  fun_induction fill fragments available path target items with
  | case1 => rw [fill]; rfl
  | case2 available path target own items rest childPath ihChild ihRest =>
    rw [fill]
    cases ofHead childPath own with
    | error e => rfl
    | ok leaf =>
      show Except.bind (fill fragments available childPath leaf items) _ =
        Except.map _ (Except.bind (fill fragments available childPath leaf items) _)
      cases fill fragments available childPath leaf items with
      | error e => rfl
      | ok child =>
        show Except.bind (((target.headed head).push child).orFault childPath) _ =
          Except.map _ (Except.bind ((target.push child).orFault childPath) _)
        rw [orFault_push_headed]
        cases (target.push child).orFault childPath with
        | error e => rfl
        | ok next => exact ihRest next
  | case3 available path target name rest known missing =>
    rw [fill, if_pos known]
    split
    · rfl
    · rename_i found
      rw [missing] at found
      cases found
  | case4 available path target name rest known fragment found ihFragment ihRest =>
    rw [fill, if_pos known]
    split
    · rename_i missing
      rw [found] at missing
      cases missing
    · rename_i other there
      obtain rfl := Option.some.inj (found.symm.trans there)
      cases fill fragments (Keyed.erase available name) path (named fragment.condition)
          fragment.items with
      | error e => rfl
      | ok expanded => exact ihRest expanded
  | case5 available path target name rest unknown =>
    rw [fill, if_neg unknown]
    rfl
  | case6 available path target condition items rest ihFragment ihRest =>
    rw [fill]
    cases fill fragments available path (named condition) items with
    | error e => rfl
    | ok expanded => exact ihRest expanded
  | case7 available path target items rest ihItems ihRest =>
    rw [fill, ihItems]
    cases fill fragments available path target items with
    | error e => rfl
    | ok next => exact ihRest next

/-- No argument is repeated exactly if the names are distinct, and distinct from the earlier
ones. -/
theorem repeatedArgument?_eq_none {seen : List String} {arguments : List (String × Value)} :
    repeatedArgument? seen arguments = none ↔
      (arguments.map Prod.fst).Nodup ∧ ∀ entry ∈ arguments, entry.1 ∉ seen := by
  induction arguments generalizing seen with
  | nil => exact ⟨fun _ => ⟨.nil, fun _ present => nomatch present⟩, fun _ => rfl⟩
  | cons entry rest ih =>
    obtain ⟨name, value⟩ := entry
    rw [repeatedArgument?, List.map_cons, List.nodup_cons, List.forall_mem_cons]
    by_cases old : name ∈ seen
    · rw [if_pos (List.contains_iff_mem.mpr old)]
      exact ⟨fun none => (nomatch none), fun ⟨_, fresh⟩ => absurd old fresh.1⟩
    · rw [if_neg (fun there => old (List.contains_iff_mem.mp there)), ih]
      constructor
      · rintro ⟨distinct, others⟩
        refine ⟨⟨fun again => ?_, distinct⟩, old, fun entry present there => ?_⟩
        · obtain ⟨entry, present, same⟩ := List.mem_map.mp again
          exact others entry present (same ▸ List.mem_cons_self)
        · exact others entry present (List.mem_cons_of_mem _ there)
      · rintro ⟨⟨fresh, distinct⟩, -, others⟩
        refine ⟨distinct, fun entry present there => ?_⟩
        rcases List.mem_cons.mp there with same | earlier
        · exact fresh (List.mem_map.mpr ⟨entry, present, same⟩)
        · exact others entry present earlier

theorem ofHead_ok {path : Path} {own : FieldHead Value} {s : Selection}
    (done : ofHead path own = .ok s) :
    (own.arguments.map Prod.fst).Nodup ∧ s = (named own.name).headed own := by
  unfold ofHead at done
  split at done
  · cases done
  · rename_i distinct
    cases done
    exact ⟨(repeatedArgument?_eq_none.mp distinct).1, rfl⟩

theorem ofHead_eq (path : Path) {own : FieldHead Value}
    (distinct : (own.arguments.map Prod.fst).Nodup) :
    ofHead path own = .ok ((named own.name).headed own) := by
  rw [ofHead, repeatedArgument?_eq_none.mpr ⟨distinct, fun _ _ => List.not_mem_nil⟩]
  rfl

/-- The selection of a field with its items. -/
def ofItems (fragments : Keyed Fragment) (path : Path) (field : WrittenField) :
    Except QueryError Selection := do
  fill fragments fragments path (← ofHead path field.head) field.items

theorem nodup_of_ofItems {fragments : Keyed Fragment} {path : Path} {field : WrittenField}
    {s : Selection} (done : ofItems fragments path field = .ok s) :
    (field.head.arguments.map Prod.fst).Nodup := by
  obtain ⟨leaf, isLeaf, -⟩ := Fallible.bind_eq_ok.mp done
  exact (ofHead_ok isLeaf).1

/-- A field with other arguments has the same selection with these arguments. -/
theorem ofItems_headed {fragments : Keyed Fragment} {path : Path} {field : WrittenField}
    {s : Selection} (done : ofItems fragments path field = .ok s) :
    s.headed field.head = s ∧ ((head.arguments.map Prod.fst).Nodup →
      ofItems fragments path ⟨head, field.items⟩ = .ok (s.headed head)) := by
  obtain ⟨leaf, isLeaf, done⟩ := Fallible.bind_eq_ok.mp done
  obtain ⟨-, rfl⟩ := ofHead_ok isLeaf
  rw [fill_headed] at done
  obtain ⟨inner, filled, rfl⟩ := Fallible.map_eq_ok.mp done
  refine ⟨rfl, fun distinct => ?_⟩
  have start : (named head.name).headed head = ((named field.head.name).headed head) := rfl
  have other := fill_headed head fragments fragments path (named field.head.name) field.items
  rw [filled] at other
  rw [ofItems, ofHead_eq path distinct, start]
  exact other

theorem fill_field (fragments : Keyed Fragment) (path : Path) (target : Selection)
    (field : WrittenField) (rest : List (Item Value)) :
    fill fragments fragments path target (.field field.head field.items :: rest) = (do
      let child ← ofItems fragments (path.add field.head.outputKey) field
      let target ← (target.push child).orFault (path.add field.head.outputKey)
      fill fragments fragments path target rest) := by
  rw [fill, ofItems]
  show Except.bind _ _ = Except.bind (Except.bind _ _) _
  cases ofHead (path.add field.head.outputKey) field.head with
  | error e => rfl
  | ok leaf => rfl

/-- The selection of a document with a single root field has the field as its only child. -/
theorem ofDocument_single (fragments : Keyed Fragment) (field : WrittenField) :
    ofDocument ⟨⟨⟨rootName, none, []⟩, [.field field.head field.items]⟩, fragments⟩ =
      (ofItems fragments (Path.add [rootName] field.head.outputKey) field).map fun s =>
        ⟨rootName, none, [], [(field.head.outputKey, s)], []⟩ := by
  have document : ofDocument ⟨⟨⟨rootName, none, []⟩, [.field field.head field.items]⟩, fragments⟩ =
      fill fragments fragments [rootName] (named rootName) [.field field.head field.items] := rfl
  rw [document, fill_field]
  cases made : ofItems fragments (Path.add [rootName] field.head.outputKey) field with
  | error e => rfl
  | ok child =>
    have key : child.outputKey = field.head.outputKey := by
      rw [← (ofItems_headed field.head made).1]
      rfl
    have pushed : ((named rootName).push child).orFault
        (Path.add [rootName] field.head.outputKey) =
        .ok ⟨rootName, none, [], [(child.outputKey, child)], []⟩ := rfl
    show ((named rootName).push child).orFault (Path.add [rootName] field.head.outputKey) >>=
      (fun target => fill fragments fragments [rootName] target []) = _
    rw [pushed, key]
    show fill fragments fragments _ _ [] = _
    rw [fill]
    rfl

end GraphRead.Selection
