import GraphRead.Proofs.Document.Headed
import GraphRead.Proofs.Document.WellKeyed
import GraphRead.Proofs.Repeat.Basic
/-!
The selections there are.

Whatever is done to a selection, its children stand under their output keys, and no key, no
argument and no type condition is there twice (`Selection.Tidy`). A field starts without children,
and every change keeps this: a child that is merged into another one keeps the key of the one that
is there (`splice_tidy`). So all selections that are built from documents are tidy
(`ofDocument_tidy`), as are all that are put together by hand.
-/

namespace GraphRead.Selection

open Fallible

/-- Children stand under their output keys, and no key, no argument and no condition is there
twice, and so on inside children and fragments. -/
inductive Tidy : Selection → Prop
  | intro {s : Selection} (named : (s.arguments.map Prod.fst).Nodup)
    (keyed : ∀ entry ∈ s.children, entry.1 = entry.2.outputKey)
    (distinct : (s.children.map Prod.fst).Nodup) (conditions : (s.fragments.map Prod.fst).Nodup)
    (children : ∀ entry ∈ s.children, entry.2.Tidy)
    (fragments : ∀ entry ∈ s.fragments, ∀ fragment ∈ entry.2, fragment.Tidy) : s.Tidy

namespace Tidy

variable {s child : Selection}

theorem named (tidy : s.Tidy) : (s.arguments.map Prod.fst).Nodup := by cases tidy; assumption

theorem distinct (tidy : s.Tidy) : (s.children.map Prod.fst).Nodup := by cases tidy; assumption

theorem conditions (tidy : s.Tidy) : (s.fragments.map Prod.fst).Nodup := by cases tidy; assumption

theorem held (tidy : s.Tidy) {key : String} (found : Keyed.get? s.children key = some child) :
    child.Tidy := by
  obtain ⟨-, -, -, -, children, -⟩ := tidy
  exact children _ (Keyed.mem_of_get? found)

theorem members (tidy : s.Tidy) {condition : String} {members : List Selection}
    (found : Keyed.get? s.fragments condition = some members) :
    ∀ fragment ∈ members, fragment.Tidy := by
  obtain ⟨-, -, -, -, -, fragments⟩ := tidy
  exact fragments _ (Keyed.mem_of_get? found)

/-- A tidy selection repeats itself. -/
theorem repeats (tidy : s.Tidy) : Repeats s s := by
  induction tidy with
  | intro named keyed distinct conditions _ _ children fragments =>
    exact .intro rfl rfl rfl named keyed distinct conditions (.refl children)
      (.refl fun entry present => .refl (fragments entry present))

/-- A field without children. -/
theorem leaf (name : String) (aliasName : Option String) {arguments : List (String × Value)}
    (named : (arguments.map Prod.fst).Nodup) : Tidy ⟨name, aliasName, arguments, [], []⟩ :=
  .intro named (List.forall_mem_nil _) .nil .nil (List.forall_mem_nil _)
    (List.forall_mem_nil _)

/-- A child under its output key, in the place of the one that is there. -/
theorem insertChild (tidy : s.Tidy) {key : String} (own : key = child.outputKey)
    (inner : child.Tidy) : Tidy { s with children := Keyed.insert s.children key child } := by
  obtain ⟨named, keyed, distinct, conditions, children, fragments⟩ := tidy
  refine .intro named (fun entry present => ?_) (Keyed.nodup_insert distinct) conditions
    (fun entry present => ?_) fragments
  · rcases Keyed.mem_insert present with rfl | old
    · exact own
    · exact keyed entry old
  · rcases Keyed.mem_insert present with rfl | old
    · exact inner
    · exact children entry old

/-- Fragments are added behind those that are there for their conditions. -/
theorem addFragments (tidy : s.Tidy) {more : List (String × List Selection)}
    (added : ∀ entry ∈ more, ∀ fragment ∈ entry.2, fragment.Tidy) :
    Tidy { s with fragments := Selection.addFragments s.fragments more } := by
  obtain ⟨named, keyed, distinct, conditions, children, fragments⟩ := tidy
  exact .intro named keyed distinct (Repeats.nodup_addFragments conditions more) children
    (mem_addFragments (P := fun _ => Tidy) fragments added)

theorem pushFragment (tidy : s.Tidy) (condition : String) {fragment : Selection}
    (inner : fragment.Tidy) : (s.pushFragment condition fragment).Tidy := by
  refine tidy.addFragments fun entry present member listed => ?_
  rw [List.mem_singleton.mp present] at listed
  rw [List.mem_singleton.mp listed]
  exact inner

end Tidy

/-- A selection keeps its output key, whatever it takes over and however far this goes. -/
theorem outputKey_splice (s other : Selection) :
    (splice s other).selection.outputKey = s.outputKey := by
  have own : s.headed ⟨s.name, s.aliasName, s.arguments⟩ = s := by cases s; rfl
  have same := splice_headed ⟨s.name, s.aliasName, s.arguments⟩ s other
  rw [own] at same
  rw [same]
  rfl

theorem place_tidy {s child : Selection} {merge : Selection → Change} (tidy : s.Tidy)
    (inner : child.Tidy) (merged : ∀ there : Selection, there.Tidy →
      (merge there).selection.Tidy ∧ (merge there).selection.outputKey = there.outputKey) :
    (place s child merge).selection.Tidy := by
  unfold place
  split
  · exact tidy.insertChild rfl inner
  · rename_i there found
    split
    · exact tidy
    · split
      · exact tidy
      · obtain ⟨-, keyed, -, -, children, -⟩ := id tidy
        have present := Keyed.mem_of_get? found
        obtain ⟨both, key⟩ := merged there (children _ present)
        exact tidy.insertChild ((keyed _ present).trans key.symm) both

mutual

/-- Taking over a tidy selection leaves a selection tidy, even where it stops on the way. -/
theorem splice_tidy {s : Selection} (tidy : s.Tidy) :
    (other : Selection) → other.Tidy → (splice s other).selection.Tidy
  | ⟨_, _, _, children, fragments⟩, .intro _ _ _ _ inner added => by
    have spliced := spliceChildren_tidy tidy children inner
    rw [splice]
    split
    · exact spliced
    · exact spliced.addFragments added

theorem spliceChildren_tidy {s : Selection} (tidy : s.Tidy) :
    (children : List (String × Selection)) → (∀ entry ∈ children, entry.2.Tidy) →
      (spliceChildren s children).selection.Tidy
  | [], _ => tidy
  | (key, child) :: rest, inner => by
    obtain ⟨here, later⟩ := List.forall_mem_cons.mp inner
    have placed := place_tidy tidy here fun there known =>
      ⟨splice_tidy known child here, outputKey_splice there child⟩
    rw [spliceChildren]
    split
    · exact placed
    · exact spliceChildren_tidy placed rest later

end

theorem push_tidy {s child : Selection} (tidy : s.Tidy) (inner : child.Tidy) :
    (push s child).selection.Tidy :=
  place_tidy tidy inner fun there known =>
    ⟨splice_tidy known child inner, outputKey_splice there child⟩

/-! ### Documents -/

theorem ofHead_tidy {path : Path} {head : FieldHead Value} {s : Selection}
    (done : ofHead path head = .ok s) : s.Tidy := by
  obtain ⟨named, rfl⟩ := ofHead_ok done
  exact .leaf _ _ named

theorem fill_tidy {fragments available : Keyed Fragment} {path : Path}
    {target filled : Selection} {items : List (Item Value)} (tidy : target.Tidy)
    (done : fill fragments available path target items = .ok filled) : filled.Tidy := by
  fun_induction fill fragments available path target items generalizing filled with
  | case1 available path target =>
    cases done
    exact tidy
  | case2 available path target head items rest childPath ihChild =>
    rename_i ihRest
    obtain ⟨leaf, isLeaf, done⟩ := bind_eq_ok.mp done
    obtain ⟨child, isChild, done⟩ := bind_eq_ok.mp done
    obtain ⟨next, pushed, done⟩ := bind_eq_ok.mp done
    refine ihRest next ?_ done
    rw [Change.eq_of_result (mapError_eq_ok.mp pushed)]
    exact push_tidy tidy (ihChild leaf (ofHead_tidy isLeaf) isChild)
  | case3 => cases done
  | case4 available path target name rest known fragment found ihFragment ihRest =>
    obtain ⟨expanded, isExpanded, done⟩ := bind_eq_ok.mp done
    exact ihRest expanded (tidy.pushFragment _ (ihFragment (.leaf _ _ .nil) isExpanded)) done
  | case5 => cases done
  | case6 available path target condition items rest ihFragment ihRest =>
    obtain ⟨expanded, isExpanded, done⟩ := bind_eq_ok.mp done
    exact ihRest expanded (tidy.pushFragment _ (ihFragment (.leaf _ _ .nil) isExpanded)) done
  | case7 available path target items rest ihItems ihRest =>
    obtain ⟨next, isNext, done⟩ := bind_eq_ok.mp done
    exact ihRest next (ihItems tidy isNext) done

/-- What is built from a document is tidy. -/
theorem ofDocument_tidy {document : Document} {s : Selection}
    (done : ofDocument document = .ok s) : s.Tidy := by
  obtain ⟨leaf, isLeaf, done⟩ := bind_eq_ok.mp done
  exact fill_tidy (ofHead_tidy isLeaf) done

end GraphRead.Selection
