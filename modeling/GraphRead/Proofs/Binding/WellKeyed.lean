import GraphRead.Binding.Root
import GraphRead.Proofs.Document.WellKeyed
import GraphRead.Proofs.Failure
/-!
Output keys stay distinct while a selection is bound: resolving its fragments, taking a connection
and an edge apart, and resolving the query type all go on with well-keyed selections.
-/

namespace GraphRead.Selection

open Fallible

theorem spliceQueue_wellKeyed {accept : String → Except BindError Bool} {path : Path}
    {target resolved : Selection} {queue : List (String × Selection)}
    (done : spliceQueue accept path target queue = .ok resolved) (keyed : target.WellKeyed)
    (queued : ∀ entry ∈ queue, entry.2.WellKeyed) : resolved.WellKeyed := by
  fun_induction spliceQueue accept path target queue with
  | case1 target => cases done; exact keyed
  | case2 target condition fragment rest ihTaken ihDropped =>
    obtain ⟨applies, _, done⟩ := bind_eq_ok.mp done
    have own : fragment.WellKeyed := queued (condition, fragment) List.mem_cons_self
    have others : ∀ entry ∈ rest, entry.2.WellKeyed := fun entry present =>
      queued entry (List.mem_cons_of_mem _ present)
    split at done
    · obtain ⟨next, spliced, done⟩ := bind_eq_ok.mp done
      refine ihTaken next done ?_ ?_
      · rw [Change.eq_of_result (mapError_eq_ok.mp spliced)]
        exact splice_wellKeyed keyed _ own.withoutFragments
      · intro entry present
        rcases List.mem_append.mp present with old | new
        · exact others entry old
        · exact own.of_mem_fragmentList (show (entry.1, entry.2) ∈ fragment.fragmentList from new)
    · exact ihDropped done keyed others

theorem resolveFragments_wellKeyed {accept : String → Except BindError Bool} {path : Path}
    {s resolved : Selection} (keyed : s.WellKeyed)
    (done : resolveFragments accept path s = .ok resolved) : resolved.WellKeyed :=
  spliceQueue_wellKeyed done keyed.withoutFragments fun entry present =>
    keyed.of_mem_fragmentList (show (entry.1, entry.2) ∈ s.fragmentList from present)

/-! ### Connections and edges -/

theorem mergeInto_wellKeyed {there : Option Selection} {s merged : Selection} {path : Path}
    (done : mergeInto there s path = .ok merged) (own : s.WellKeyed)
    (before : ∀ old, there = some old → old.WellKeyed) : merged.WellKeyed := by
  unfold mergeInto at done
  split at done
  · cases done
    exact own
  · rename_i old
    rw [Change.eq_of_result (mapError_eq_ok.mp done)]
    exact merge_wellKeyed (before old rfl) own

theorem connectionField_wellKeyed {type : String} {path : Path} {parts next : ConnectionParts}
    {key : String} {child : Selection} (own : child.WellKeyed)
    (before : ∀ edges, parts.edges = some edges → edges.WellKeyed)
    (done : connectionField type path parts key child = .ok next) :
    ∀ edges, next.edges = some edges → edges.WellKeyed := by
  unfold connectionField at done
  split at done
  · obtain ⟨merged, mergedOk, same⟩ := bind_eq_ok.mp done
    cases pure_eq_ok.mp same
    intro edges same
    cases same
    exact mergeInto_wellKeyed mergedOk own before
  · split at done
    · obtain ⟨asked, _, same⟩ := bind_eq_ok.mp done
      cases pure_eq_ok.mp same
      exact before
    · split at done
      · cases pure_eq_ok.mp done
        exact before
      · split at done
        · cases pure_eq_ok.mp done
          exact before
        · cases done

/-- The edges of a connection are well-keyed. -/
theorem connectionParts_wellKeyed {type : String} {path : Path}
    {children : List (String × Selection)} {parts : ConnectionParts}
    (keyed : ∀ entry ∈ children, entry.2.WellKeyed)
    (done : connectionParts type path children = .ok parts) :
    ∀ edges, parts.edges = some edges → edges.WellKeyed := by
  refine foldlM_preserves (fun before : ConnectionParts => ∀ edges, before.edges = some edges →
    edges.WellKeyed) (fun _ none => by cases none) (fun _ entry present _ held step => ?_) done
  exact connectionField_wellKeyed (keyed entry present) held step

theorem edgeField_wellKeyed {type : String} {path : Path} {parts next : EdgeParts}
    {key : String} {child : Selection} (own : child.WellKeyed)
    (before : ∀ node, parts.node = some node → node.WellKeyed)
    (done : edgeField type path parts key child = .ok next) :
    ∀ node, next.node = some node → node.WellKeyed := by
  unfold edgeField at done
  split at done
  · obtain ⟨merged, mergedOk, same⟩ := bind_eq_ok.mp done
    cases pure_eq_ok.mp same
    intro node same
    cases same
    exact mergeInto_wellKeyed mergedOk own before
  · split at done
    · cases pure_eq_ok.mp done
      exact before
    · split at done
      · cases pure_eq_ok.mp done
        exact before
      · cases done

/-- The node of an edge is well-keyed. -/
theorem edgeParts_wellKeyed {type : String} {path : Path} {children : List (String × Selection)}
    {parts : EdgeParts} (keyed : ∀ entry ∈ children, entry.2.WellKeyed)
    (done : edgeParts type path children = .ok parts) :
    ∀ node, parts.node = some node → node.WellKeyed := by
  refine foldlM_preserves (fun before : EdgeParts => ∀ node, before.node = some node →
    node.WellKeyed) (fun _ none => by cases none) (fun _ entry present _ held step => ?_) done
  exact edgeField_wellKeyed (keyed entry present) held step

/-! ### The query type -/

mutual

/-- The selection of the query type stays well-keyed. -/
theorem resolveRoot_wellKeyed :
    (s : Selection) → s.WellKeyed → ∀ {resolved}, resolveRoot s = .ok resolved →
      resolved.WellKeyed
  | ⟨name, aliasName, arguments, children, fragments⟩, keyed, resolved, done => by
    rw [resolveRoot] at done
    exact spliceConditions_wellKeyed fragments keyed.withoutFragments
      (fun entry present => keyed.fragment present) done

theorem spliceConditions_wellKeyed :
    (fragments : List (String × List Selection)) → {target : Selection} → target.WellKeyed →
      (∀ entry ∈ fragments, ∀ fragment ∈ entry.2, fragment.WellKeyed) →
      ∀ {resolved}, spliceConditions target fragments = .ok resolved → resolved.WellKeyed
  | [], target, keyed, _, resolved, done => by
    cases done
    exact keyed
  | (condition, members) :: rest, target, keyed, own, resolved, done => by
    rw [spliceConditions] at done
    split at done
    · obtain ⟨next, spliced, done⟩ := bind_eq_ok.mp done
      have here := spliceMembers_wellKeyed members keyed
        (own (condition, members) List.mem_cons_self) spliced
      exact spliceConditions_wellKeyed rest here
        (fun entry present => own entry (List.mem_cons_of_mem _ present)) done
    · cases done

theorem spliceMembers_wellKeyed :
    (members : List Selection) → {target : Selection} → target.WellKeyed →
      (∀ fragment ∈ members, fragment.WellKeyed) →
      ∀ {resolved}, spliceMembers target members = .ok resolved → resolved.WellKeyed
  | [], target, keyed, _, resolved, done => by
    cases done
    exact keyed
  | member :: rest, target, keyed, own, resolved, done => by
    rw [spliceMembers] at done
    obtain ⟨inner, isInner, done⟩ := bind_eq_ok.mp done
    obtain ⟨next, spliced, done⟩ := bind_eq_ok.mp done
    have here := resolveRoot_wellKeyed member (own member List.mem_cons_self) isInner
    refine spliceMembers_wellKeyed rest ?_
      (fun fragment present => own fragment (List.mem_cons_of_mem _ present)) done
    rw [Change.eq_of_result (mapError_eq_ok.mp spliced)]
    exact splice_wellKeyed keyed inner here

end

end GraphRead.Selection
