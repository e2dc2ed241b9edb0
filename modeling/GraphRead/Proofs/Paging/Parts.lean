import GraphRead.Binding.Parts
import GraphRead.Proofs.Paging.Written
/-!
The parts of queries that are the same but for their pages.

Two selections that are the same but for the arguments of pages are taken apart step by step in the
same way: the same fragments apply to them, and the same is asked of their connections and edges.
The types and paths that only errors name need not be the same.
-/

namespace GraphRead.Selection

open Fallible

variable {schema : Schema}

/-! ### Fragments -/

theorem fragmentList_alike {s t : Selection} (alike : Alike s t) :
    Keyed.mapValues unpaged s.fragmentList = Keyed.mapValues unpaged t.fragmentList := by
  have mapped (s : Selection) : Keyed.mapValues unpaged s.fragmentList =
      (Keyed.mapValues (List.map unpaged) s.fragments).flatMap fun entry =>
        entry.2.map fun member => (entry.1, member) := by
    simp [fragmentList, Keyed.mapValues, List.map_flatMap, List.flatMap_map, Function.comp_def]
  rw [mapped, mapped, alike.fragments]

/-- The same fragments of a queue are taken over. -/
theorem spliceQueue_alike {accept accept' : String → Except BindError Bool}
    (agree : ∀ condition b b', accept condition = .ok b → accept' condition = .ok b' → b = b')
    {path path' : Path} {s t resolved resolved' : Selection}
    {queue others : List (String × Selection)}
    (alike : Alike s t) (same : Keyed.mapValues unpaged queue = Keyed.mapValues unpaged others)
    (done : spliceQueue accept path s queue = .ok resolved)
    (done' : spliceQueue accept' path' t others = .ok resolved') : Alike resolved resolved' := by
  fun_induction spliceQueue accept path s queue generalizing t others with
  | case1 s =>
    cases List.map_eq_nil_iff.mp same.symm
    rw [spliceQueue] at done'
    cases done
    cases done'
    exact alike
  | case2 s condition fragment rest ihTaken ihDropped =>
    obtain ⟨other, more, rfl, own, later⟩ := exists_cons_of_children same
    rw [spliceQueue] at done'
    obtain ⟨applies, known, done⟩ := bind_eq_ok.mp done
    obtain ⟨applies', known', done'⟩ := bind_eq_ok.mp done'
    cases agree condition applies applies' known known'
    split at done
    · rename_i accepted
      rw [if_pos accepted] at done'
      obtain ⟨next, spliced, done⟩ := bind_eq_ok.mp done
      obtain ⟨next', spliced', done'⟩ := bind_eq_ok.mp done'
      obtain ⟨none, rfl⟩ := conflict_of_result (mapError_eq_ok.mp spliced)
      obtain ⟨none', rfl⟩ := conflict_of_result (mapError_eq_ok.mp spliced')
      refine ihTaken _ (splice_alike _ alike own.withoutFragments none none') ?_ done done'
      rw [Keyed.mapValues, List.map_append]
      exact (congrArg₂ (· ++ ·) later (fragmentList_alike own)).trans (List.map_append ..).symm
    · rename_i dropped
      rw [if_neg dropped] at done'
      exact ihDropped alike later done done'

theorem resolveFragments_alike {accept accept' : String → Except BindError Bool}
    (agree : ∀ condition b b', accept condition = .ok b → accept' condition = .ok b' → b = b')
    {path path' : Path} {s t resolved resolved' : Selection} (alike : Alike s t)
    (done : resolveFragments accept path s = .ok resolved)
    (done' : resolveFragments accept' path' t = .ok resolved') : Alike resolved resolved' :=
  spliceQueue_alike agree alike.withoutFragments (fragmentList_alike alike) done done'

theorem always_agree (condition : String) (b b' : Bool) (known : always condition = .ok b)
    (known' : always condition = .ok b') : b = b' :=
  Except.ok.inj (known.symm.trans known')

/-- Whether a fragment applies to a type does not depend on where it stands. -/
theorem appliesTo_agree {type : String} {path path' : Path} (condition : String) (b b' : Bool)
    (known : appliesTo schema type path condition = .ok b)
    (known' : appliesTo schema type path' condition = .ok b') : b = b' :=
  Except.ok.inj ((mapError_eq_ok.mp known).symm.trans (mapError_eq_ok.mp known'))

/-! ### Connections and edges -/

/-- Going through children that are alike step by step keeps what every step keeps. -/
theorem foldlM_alike {β : Type} (related : β → β → Prop)
    {step step' : β → String × Selection → Except BindError β}
    (each : ∀ b b' next next' key child other, related b b' → Alike child other →
      step b (key, child) = .ok next → step' b' (key, other) = .ok next' → related next next')
    {children others : List (String × Selection)} {start start' last last' : β}
    (same : Keyed.mapValues unpaged children = Keyed.mapValues unpaged others)
    (begins : related start start') (done : children.foldlM step start = .ok last)
    (done' : others.foldlM step' start' = .ok last') : related last last' := by
  induction children generalizing others start start' with
  | nil =>
    cases List.map_eq_nil_iff.mp same.symm
    cases pure_eq_ok.mp done
    cases pure_eq_ok.mp done'
    exact begins
  | cons entry rest ih =>
    obtain ⟨key, child⟩ := entry
    obtain ⟨other, more, rfl, own, later⟩ := exists_cons_of_children same
    rw [List.foldlM_cons] at done done'
    obtain ⟨next, first, done⟩ := bind_eq_ok.mp done
    obtain ⟨next', first', done'⟩ := bind_eq_ok.mp done'
    exact ih later (each _ _ _ _ key child other begins own first first') done done'

/-- Two optional selections are the same but for pages. -/
def AlikeOption (s t : Option Selection) : Prop := s.map unpaged = t.map unpaged

theorem AlikeOption.alike {s t : Selection} (same : AlikeOption (some s) (some t)) : Alike s t :=
  alike_iff.mpr (Option.some.inj same)

theorem mergeInto_alike {there there' : Option Selection} {s t merged merged' : Selection}
    {path path' : Path} (before : AlikeOption there there') (alike : Alike s t)
    (done : mergeInto there s path = .ok merged) (done' : mergeInto there' t path' = .ok merged') :
    AlikeOption (some merged) (some merged') := by
  cases there with
  | none =>
    cases Option.map_eq_none_iff.mp before.symm
    cases done
    cases done'
    exact congrArg some (alike_iff.mp alike)
  | some old =>
    obtain ⟨old', rfl, -⟩ := Option.map_eq_some_iff.mp before.symm
    have done := mapError_eq_ok.mp done
    have done' := mapError_eq_ok.mp done'
    unfold merge at done done'
    split at done
    · split at done'
      · obtain ⟨none, rfl⟩ := conflict_of_result done
        obtain ⟨none', rfl⟩ := conflict_of_result done'
        exact congrArg some (alike_iff.mp (splice_alike _ before.alike alike none none'))
      · cases done'
    · cases done

/-- What is asked of two connections is the same but for pages. -/
structure ConnectionParts.Alike (parts other : ConnectionParts) : Prop where
  edges : AlikeOption parts.edges other.edges
  count : parts.count = other.count

theorem connectionParts_alike {type type' : String} {path path' : Path}
    {children others : List (String × Selection)} {parts parts' : ConnectionParts}
    (same : Keyed.mapValues unpaged children = Keyed.mapValues unpaged others)
    (done : connectionParts type path children = .ok parts)
    (done' : connectionParts type' path' others = .ok parts') : parts.Alike parts' := by
  refine foldlM_alike ConnectionParts.Alike ?_ same ⟨rfl, rfl⟩ done done'
  intro before before' next next' key child other known alike step step'
  dsimp only at step step'
  unfold connectionField at step step'
  rw [← alike.name] at step'
  split at step
  · rename_i edges
    rw [if_pos edges] at step'
    obtain ⟨merged, isMerged, step⟩ := bind_eq_ok.mp step
    obtain ⟨merged', isMerged', step'⟩ := bind_eq_ok.mp step'
    cases pure_eq_ok.mp step
    cases pure_eq_ok.mp step'
    exact ⟨mergeInto_alike known.edges alike isMerged isMerged', known.count⟩
  · rename_i edges
    rw [if_neg edges] at step'
    split at step
    · rename_i info
      rw [if_pos info] at step'
      obtain ⟨asked, -, step⟩ := bind_eq_ok.mp step
      obtain ⟨asked', -, step'⟩ := bind_eq_ok.mp step'
      cases pure_eq_ok.mp step
      cases pure_eq_ok.mp step'
      exact ⟨known.edges, known.count⟩
    · rename_i info
      rw [if_neg info] at step'
      split at step
      · rename_i count
        rw [if_pos count] at step'
        cases pure_eq_ok.mp step
        cases pure_eq_ok.mp step'
        exact ⟨known.edges, rfl⟩
      · rename_i count
        rw [if_neg count] at step'
        split at step
        · rename_i name
          rw [if_pos name] at step'
          cases pure_eq_ok.mp step
          cases pure_eq_ok.mp step'
          exact known
        · cases step

theorem edgeParts_alike {type type' : String} {path path' : Path}
    {children others : List (String × Selection)} {parts parts' : EdgeParts}
    (same : Keyed.mapValues unpaged children = Keyed.mapValues unpaged others)
    (done : edgeParts type path children = .ok parts)
    (done' : edgeParts type' path' others = .ok parts') : AlikeOption parts.node parts'.node := by
  have start : AlikeOption (⟨none, false⟩ : EdgeParts).node (⟨none, false⟩ : EdgeParts).node := rfl
  refine foldlM_alike (fun parts parts' => AlikeOption parts.node parts'.node) ?_ same start done
    done'
  intro before before' next next' key child other known alike step step'
  dsimp only at step step'
  unfold edgeField at step step'
  rw [← alike.name] at step'
  split at step
  · rename_i node
    rw [if_pos node] at step'
    obtain ⟨merged, isMerged, step⟩ := bind_eq_ok.mp step
    obtain ⟨merged', isMerged', step'⟩ := bind_eq_ok.mp step'
    cases pure_eq_ok.mp step
    cases pure_eq_ok.mp step'
    exact mergeInto_alike known alike isMerged isMerged'
  · rename_i node
    rw [if_neg node] at step'
    split at step
    · rename_i cursor
      rw [if_pos cursor] at step'
      cases pure_eq_ok.mp step
      cases pure_eq_ok.mp step'
      exact known
    · rename_i cursor
      rw [if_neg cursor] at step'
      split at step
      · rename_i name
        rw [if_pos name] at step'
        cases pure_eq_ok.mp step
        cases pure_eq_ok.mp step'
        exact known
      · cases step

end GraphRead.Selection
