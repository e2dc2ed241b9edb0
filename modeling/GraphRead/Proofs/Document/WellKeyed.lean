import GraphRead.Document.Build
import GraphRead.Fallible
import GraphRead.Proofs.Keyed
/-!
Output keys are distinct.

In a selection every output key occurs once, on every level and inside fragments
(`Selection.WellKeyed`). Filing a child under its key keeps this, because a key that is there
already is merged and not repeated, and merging takes over the children of well-keyed selections
one by one (`splice_wellKeyed`). So whatever is built from a document is well-keyed
(`ofDocument_wellKeyed`).
-/

namespace GraphRead.Selection

/-- Every output key occurs once among the children, and so on inside children and fragments. -/
inductive WellKeyed : Selection → Prop
  | intro {s : Selection} (distinct : (s.children.map Prod.fst).Nodup)
    (children : ∀ entry ∈ s.children, entry.2.WellKeyed)
    (fragments : ∀ entry ∈ s.fragments, ∀ fragment ∈ entry.2, fragment.WellKeyed) :
    s.WellKeyed

namespace WellKeyed

variable {s : Selection}

theorem distinct (keyed : s.WellKeyed) : (s.children.map Prod.fst).Nodup := by
  cases keyed with
  | intro distinct _ _ => exact distinct

theorem child (keyed : s.WellKeyed) {entry : String × Selection} (present : entry ∈ s.children) :
    entry.2.WellKeyed := by
  cases keyed with
  | intro _ children _ => exact children entry present

theorem fragment (keyed : s.WellKeyed) {entry : String × List Selection}
    (present : entry ∈ s.fragments) : ∀ fragment ∈ entry.2, fragment.WellKeyed := by
  cases keyed with
  | intro _ _ fragments => exact fragments entry present

/-- A selection without children and fragments. -/
theorem leaf (name : String) (aliasName : Option String) (arguments : List (String × Value)) :
    WellKeyed ⟨name, aliasName, arguments, [], []⟩ :=
  .intro .nil (fun _ present => nomatch present) fun _ present => nomatch present

theorem withoutFragments (keyed : s.WellKeyed) : s.withoutFragments.WellKeyed :=
  .intro keyed.distinct (fun _ present => keyed.child present) fun _ present => nomatch present

theorem of_mem_fragmentList (keyed : s.WellKeyed) {condition : String} {fragment : Selection}
    (present : (condition, fragment) ∈ s.fragmentList) : fragment.WellKeyed := by
  obtain ⟨entry, known, there⟩ := List.mem_flatMap.mp present
  obtain ⟨member, listed, same⟩ := List.mem_map.mp there
  cases same
  exact keyed.fragment known fragment listed

/-- A child under a key of its own, or in the place of the one that is there. -/
theorem insertChild (keyed : s.WellKeyed) (key : String) {child : Selection}
    (own : child.WellKeyed) :
    WellKeyed { s with children := Keyed.insert s.children key child } := by
  refine .intro (Keyed.nodup_insert keyed.distinct) (fun entry present => ?_)
    fun entry present => keyed.fragment present
  rcases Keyed.mem_insert present with rfl | old
  · exact own
  · exact keyed.child old

end WellKeyed

/-- Fragments that are added are among the old ones or the new ones. -/
theorem mem_addFragments {there more : List (String × List Selection)}
    {P : String → Selection → Prop}
    (old : ∀ entry ∈ there, ∀ fragment ∈ entry.2, P entry.1 fragment)
    (new : ∀ entry ∈ more, ∀ fragment ∈ entry.2, P entry.1 fragment) :
    ∀ entry ∈ addFragments there more, ∀ fragment ∈ entry.2, P entry.1 fragment := by
  unfold addFragments
  induction more generalizing there with
  | nil => exact old
  | cons first rest ih =>
    obtain ⟨condition, members⟩ := first
    refine ih ?_ fun entry present => new entry (List.mem_cons_of_mem _ present)
    intro entry present fragment member
    rcases Keyed.mem_insert present with rfl | known
    · rcases List.mem_append.mp member with before | added
      · cases found : Keyed.get? there condition with
        | none =>
          rw [found] at before
          cases before
        | some members' =>
          rw [found] at before
          exact old (condition, members') (Keyed.mem_of_get? found) fragment before
      · exact new (condition, members) List.mem_cons_self fragment added
    · exact old entry known fragment member

theorem place_wellKeyed {s child : Selection} (merge : Selection → Change) (keyed : s.WellKeyed)
    (own : child.WellKeyed)
    (merged : ∀ there, there.WellKeyed → (merge there).selection.WellKeyed) :
    (place s child merge).selection.WellKeyed := by
  unfold place
  split
  · exact keyed.insertChild _ own
  · rename_i there found
    split
    · exact keyed
    · split
      · exact keyed
      · exact keyed.insertChild _ (merged there (keyed.child (Keyed.mem_of_get? found)))

mutual

/-- Taking over a well-keyed selection keeps output keys distinct. -/
theorem splice_wellKeyed {s : Selection} (keyed : s.WellKeyed) :
    (other : Selection) → other.WellKeyed → (splice s other).selection.WellKeyed
  | ⟨_, _, _, children, fragments⟩, own => by
    have spliced := spliceChildren_wellKeyed keyed children fun entry present => own.child present
    rw [splice]
    split
    · exact spliced
    · refine .intro spliced.distinct (fun entry present => spliced.child present) ?_
      exact mem_addFragments (P := fun _ => WellKeyed)
        (fun entry present => spliced.fragment present) fun entry present => own.fragment present

theorem spliceChildren_wellKeyed {s : Selection} (keyed : s.WellKeyed) :
    (children : List (String × Selection)) → (∀ entry ∈ children, entry.2.WellKeyed) →
      (spliceChildren s children).selection.WellKeyed
  | [], _ => keyed
  | (key, child) :: rest, own => by
    have here := own (key, child) List.mem_cons_self
    have placed := place_wellKeyed (fun there => splice there child) keyed here
      fun there known => splice_wellKeyed known child here
    rw [spliceChildren]
    split
    · exact placed
    · exact spliceChildren_wellKeyed placed rest fun entry present =>
        own entry (List.mem_cons_of_mem _ present)

end

theorem push_wellKeyed {s child : Selection} (keyed : s.WellKeyed) (own : child.WellKeyed) :
    (push s child).selection.WellKeyed :=
  place_wellKeyed _ keyed own fun _ known => splice_wellKeyed known child own

theorem merge_wellKeyed {s other : Selection} (keyed : s.WellKeyed) (own : other.WellKeyed) :
    (merge s other).selection.WellKeyed := by
  unfold merge
  split
  · exact splice_wellKeyed keyed other own
  · exact keyed

theorem pushFragment_wellKeyed {s fragment : Selection} (condition : String)
    (keyed : s.WellKeyed) (own : fragment.WellKeyed) :
    (s.pushFragment condition fragment).WellKeyed := by
  refine .intro keyed.distinct (fun entry present => keyed.child present) ?_
  refine mem_addFragments (P := fun _ => WellKeyed) (fun entry present => keyed.fragment present) ?_
  intro entry present member listed
  rw [List.mem_singleton.mp present] at listed
  rw [List.mem_singleton.mp listed]
  exact own

/-! ### Documents -/

theorem ofHead_wellKeyed {path : Path} {head : FieldHead Value} {s : Selection}
    (done : ofHead path head = .ok s) : s.WellKeyed := by
  unfold ofHead at done
  split at done
  · cases done
  · cases done
    exact .leaf ..

open Fallible in
/-- Filling a selection with the items of a selection set keeps output keys distinct. -/
theorem fill_wellKeyed {fragments available : Keyed Fragment} {path : Path}
    {target filled : Selection} {items : List (Item Value)} (keyed : target.WellKeyed)
    (done : fill fragments available path target items = .ok filled) : filled.WellKeyed := by
  fun_induction fill fragments available path target items generalizing filled with
  | case1 available path target =>
    cases done
    exact keyed
  | case2 available path target head items rest childPath ihChild =>
    rename_i ihRest
    obtain ⟨leaf, isLeaf, done⟩ := bind_eq_ok.mp done
    obtain ⟨child, isChild, done⟩ := bind_eq_ok.mp done
    obtain ⟨next, pushed, done⟩ := bind_eq_ok.mp done
    have own := ihChild leaf (ofHead_wellKeyed isLeaf) isChild
    refine ihRest next ?_ done
    rw [Change.eq_of_result (mapError_eq_ok.mp pushed)]
    exact push_wellKeyed keyed own
  | case3 => cases done
  | case4 available path target name rest known fragment found ihFragment ihRest =>
    obtain ⟨expanded, isExpanded, done⟩ := bind_eq_ok.mp done
    have own := ihFragment (.leaf ..) isExpanded
    exact ihRest expanded (pushFragment_wellKeyed _ keyed own) done
  | case5 => cases done
  | case6 available path target condition items rest ihFragment ihRest =>
    obtain ⟨expanded, isExpanded, done⟩ := bind_eq_ok.mp done
    have own := ihFragment (.leaf ..) isExpanded
    exact ihRest expanded (pushFragment_wellKeyed _ keyed own) done
  | case7 available path target items rest ihItems ihRest =>
    obtain ⟨next, isNext, done⟩ := bind_eq_ok.mp done
    exact ihRest next (ihItems keyed isNext) done

/-- What is built from a field has distinct output keys. -/
theorem ofField_wellKeyed {fragments : Keyed Fragment} {field : WrittenField} {s : Selection}
    (done : ofField fragments field = .ok s) : s.WellKeyed := by
  obtain ⟨leaf, isLeaf, done⟩ := Fallible.bind_eq_ok.mp done
  exact fill_wellKeyed (ofHead_wellKeyed isLeaf) done

/-- What is built from a document has distinct output keys. -/
theorem ofDocument_wellKeyed {document : Document} {s : Selection}
    (done : ofDocument document = .ok s) : s.WellKeyed :=
  ofField_wellKeyed done

end GraphRead.Selection
