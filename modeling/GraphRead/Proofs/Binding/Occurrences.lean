import GraphRead.Proofs.Binding.Formed
import GraphRead.Proofs.Binding.Item
import GraphRead.Proofs.Binding.Levels
import GraphRead.Proofs.Binding.Single
/-!
What stands under a key once fragments are inlined.

A selection asks for a type what stands in it and in its fragments for the type, level by level
(`Selection.asks`). Inlining merges whatever is asked under one key, in this order
(`MergedFrom.of_inlined`), so a record is bound item by item from what is merged under each key
(`bindField_iff`).
-/

namespace GraphRead.Selection

open Fallible

variable {schema : Schema} {type : String}

/-- What a selection asks for a type, level by level. -/
def asks (schema : Schema) (type : String) (s : Selection) : List (String × Selection) :=
  s.children ++ (levels schema type s.fragmentList).flatMap children

theorem mem_asks {s : Selection} {entry : String × Selection} :
    entry ∈ s.asks schema type ↔ ∃ t, Includes (schema.Suits type) s t ∧ entry ∈ t.children := by
  have all : s.asks schema type = (s :: levels schema type s.fragmentList).flatMap children := rfl
  rw [all, List.mem_flatMap]
  simp only [mem_cons_levels]

/-- The selections that stand under a key, in order. -/
def underKey (key : String) (entries : List (String × Selection)) : List Selection :=
  (entries.filter fun entry => entry.1 = key).map Prod.snd

theorem underKey_cons (key : String) (entry : String × Selection)
    (rest : List (String × Selection)) : underKey key (entry :: rest) =
      (if entry.1 = key then [entry.2] else []) ++ underKey key rest := by
  unfold underKey
  rw [List.filter_cons]
  by_cases same : entry.1 = key <;> simp [same]

theorem underKey_append (key : String) (left right : List (String × Selection)) :
    underKey key (left ++ right) = underKey key left ++ underKey key right := by
  rw [underKey, List.filter_append, List.map_append]
  rfl

theorem mem_underKey {key : String} {entries : List (String × Selection)} {s : Selection} :
    s ∈ underKey key entries ↔ (key, s) ∈ entries := by
  simp [underKey]

/-- Where keys are distinct, nothing or one selection stands under each of them. -/
theorem underKey_of_nodup {entries : List (String × Selection)}
    (distinct : (entries.map Prod.fst).Nodup) (key : String) :
    underKey key entries = (Keyed.get? entries key).toList := by
  induction entries with
  | nil => rfl
  | cons entry rest ih =>
    obtain ⟨k, s⟩ := entry
    obtain ⟨fresh, later⟩ := List.nodup_cons.mp distinct
    rw [underKey_cons, ih later, Keyed.get?]
    by_cases same : k = key
    · subst same
      have missing : Keyed.get? rest k = none := by
        cases found : Keyed.get? rest k with
        | none => rfl
        | some other => exact absurd (List.mem_map.mpr ⟨_, Keyed.mem_of_get? found, rfl⟩) fresh
      rw [missing, if_pos rfl, if_pos rfl]
      rfl
    · rw [if_neg same, if_neg same]
      rfl

/-! ### Merging what stands under a key -/

/-- What stands under a key is what some invocations of one field were merged to, one after the
other, or nothing if there are none. -/
inductive MergedFrom : List Selection → Option Selection → Prop
  | nothing : MergedFrom [] none
  | several {first merged : Selection} {rest : List Selection}
    (named : ∀ again ∈ rest, again.name = first.name)
    (done : rest.foldlM (fun there again => (merge there again).result) first = .ok merged)
    (name : merged.name = first.name) : MergedFrom (first :: rest) (some merged)

namespace MergedFrom

variable {before : List Selection} {s next child : Selection} {key : String}

theorem one (s : Selection) : MergedFrom [s] (some s) :=
  .several (List.forall_mem_nil _) rfl rfl

/-- All invocations that are merged are of the field that stands there in the end. -/
theorem names {merged : Selection} (from_ : MergedFrom before (some merged)) :
    ∀ s ∈ before, s.name = merged.name := by
  cases from_ with
  | several named _ name =>
    rw [name]
    exact List.forall_mem_cons.mpr ⟨rfl, named⟩

theorem exists_mem {merged : Selection} (from_ : MergedFrom before (some merged)) :
    ∃ s, s ∈ before := by
  cases from_
  exact ⟨_, List.mem_cons_self⟩

/-- Filing a child merges it into what is under its key, and leaves the other keys. -/
theorem place (before_ : MergedFrom before (Keyed.get? s.children key))
    (done : (place s child fun there => splice there child).result = .ok next) :
    MergedFrom (before ++ if child.outputKey = key then [child] else [])
      (Keyed.get? next.children key) := by
  rcases place_ok done with ⟨missing, rfl⟩ | ⟨there, merged, found, name, arguments, isMerged, rfl⟩
  · dsimp only
    rw [Keyed.get?_insert]
    split
    · rename_i same
      rw [← same, missing] at before_
      cases before_
      exact one child
    · rw [List.append_nil]
      exact before_
  · dsimp only
    rw [Keyed.get?_insert]
    split
    · rename_i same
      rw [← same, found] at before_
      cases before_ with
      | @several first _ rest named isThere firstName =>
        show MergedFrom (first :: (rest ++ [child])) (some merged)
        refine .several ?_ ?_ ((head_of_splice isMerged).1.trans firstName)
        · refine List.forall_mem_append.mpr ⟨named, List.forall_mem_singleton.mpr ?_⟩
          exact name.symm.trans firstName
        · rw [List.foldlM_append, isThere]
          show [child].foldlM (fun there again => (merge there again).result) there = _
          rw [List.foldlM_cons, merge_result, if_pos arguments, isMerged]
          rfl
    · rw [List.append_nil]
      exact before_

/-- Taking over children merges them into what is under their keys. -/
theorem spliceChildren {children : List (String × Selection)}
    (keyed : ∀ entry ∈ children, entry.1 = entry.2.outputKey)
    (before_ : MergedFrom before (Keyed.get? s.children key))
    (done : (spliceChildren s children).result = .ok next) :
    MergedFrom (before ++ underKey key children) (Keyed.get? next.children key) := by
  induction children generalizing s before with
  | nil =>
    cases done
    rw [underKey, List.filter_nil, List.map_nil, List.append_nil]
    exact before_
  | cons entry rest ih =>
    obtain ⟨own, later⟩ := List.forall_mem_cons.mp keyed
    rw [spliceChildren_result] at done
    obtain ⟨placed, isPlaced, done⟩ := bind_eq_ok.mp done
    have whole := ih later (before_.place isPlaced) done
    rw [underKey_cons, own, ← List.append_assoc]
    exact whole

end MergedFrom

/-! ### What is inlined -/

theorem spliceChildren_append (s : Selection) (front back : List (String × Selection)) :
    (spliceChildren s (front ++ back)).result =
      (spliceChildren s front).result >>= fun next => (spliceChildren next back).result := by
  induction front generalizing s with
  | nil => rfl
  | cons entry rest ih =>
    rw [List.cons_append, spliceChildren_result, spliceChildren_result, bind_assoc]
    exact congrArg (Except.bind _) (funext fun next => ih next)

theorem splice_withoutFragments (s other : Selection) :
    (splice s other.withoutFragments).result = (spliceChildren s other.children).result := by
  rw [splice_result]
  have bare (next : Selection) :
      { next with fragments := addFragments next.fragments other.withoutFragments.fragments } =
        next := by
    cases next; rfl
  show Except.map _ (spliceChildren s other.children).result = _
  simp only [bare]
  cases (spliceChildren s other.children).result <;> rfl

/-- Inlining fragments is taking over all that is asked in them. -/
theorem inlined_eq (s : Selection) : s.inlined schema type = (spliceChildren s.withoutFragments
    ((levels schema type s.fragmentList).flatMap children)).result := by
  rw [inlined]
  generalize s.withoutFragments = target
  induction levels schema type s.fragmentList generalizing target with
  | nil => rfl
  | cons fragment rest ih =>
    rw [List.foldlM_cons, List.flatMap_cons, spliceChildren_append, splice_withoutFragments]
    exact congrArg (Except.bind _) (funext fun next => ih next)

section Inlined

variable {s resolved : Selection} (tidy : s.Tidy) (done : s.inlined schema type = .ok resolved)

include tidy

theorem keyed_of_levels : ∀ entry ∈ (levels schema type s.fragmentList).flatMap children,
    entry.1 = entry.2.outputKey ∧ entry.2.Tidy := by
  intro entry present
  obtain ⟨t, known, present⟩ := List.mem_flatMap.mp present
  obtain ⟨-, keyed, -, -, children, -⟩ :=
    (mem_cons_levels.mp (List.mem_cons_of_mem s known)).tidy tidy
  exact ⟨keyed entry present, children entry present⟩

include done

theorem inlined_tidy : resolved.Tidy := by
  rw [inlined_eq] at done
  rw [Change.eq_of_result done]
  have bare : s.withoutFragments.Tidy := by
    obtain ⟨named, keyed, distinct, -, children, -⟩ := id tidy
    exact .intro named keyed distinct .nil children (List.forall_mem_nil _)
  exact spliceChildren_tidy bare _ fun entry present => (keyed_of_levels tidy entry present).2

omit tidy in
theorem inlined_fragments : resolved.fragments = [] := by
  rw [inlined_eq] at done
  exact (filed_spliceChildren _ done).2

/-- **Under every key stands what is asked under it, merged in the order of the levels.** -/
theorem MergedFrom.of_inlined (key : String) :
    MergedFrom (underKey key (s.asks schema type)) (Keyed.get? resolved.children key) := by
  rw [inlined_eq] at done
  obtain ⟨-, -, distinct, -⟩ := id tidy
  have start :
      MergedFrom (underKey key s.children) (Keyed.get? s.withoutFragments.children key) := by
    rw [underKey_of_nodup distinct]
    show MergedFrom (Keyed.get? s.children key).toList (Keyed.get? s.children key)
    cases Keyed.get? s.children key with
    | none => exact .nothing
    | some child => exact .one child
  rw [asks, underKey_append]
  exact start.spliceChildren (fun entry present => (keyed_of_levels tidy entry present).1) done

theorem MergedFrom.of_mem {key : String} {child : Selection}
    (stands : (key, child) ∈ resolved.children) :
    MergedFrom (underKey key (s.asks schema type)) (some child) := by
  obtain ⟨-, -, distinct, -⟩ := inlined_tidy tidy done
  rw [← Keyed.get?_of_mem distinct stands]
  exact .of_inlined tidy done key

/-- Whatever is asked stands under its key in the end, merged with the other invocations. -/
theorem exists_merged {key : String} {child : Selection}
    (asked : (key, child) ∈ s.asks schema type) :
    ∃ merged, (key, merged) ∈ resolved.children ∧ child.name = merged.name := by
  have listed := mem_underKey.mpr asked
  have from_ := MergedFrom.of_inlined tidy done key
  cases found : Keyed.get? resolved.children key with
  | none =>
    rw [found] at from_
    generalize underKey key (s.asks schema type) = invocations at from_ listed
    cases from_
    cases listed
  | some merged =>
    rw [found] at from_
    exact ⟨merged, Keyed.mem_of_get? found, from_.names child listed⟩

end Inlined

/-! ### Records -/

/-- The items of a record are those that are bound for its children, under their keys. -/
theorem mem_bindItems {owner : ObjectType} {path : Path} {children : List (String × Selection)}
    {items : List (String × BoundItem)} (done : bindItems schema owner path children = .ok items)
    {key : String} {item : BoundItem} : (key, item) ∈ items ↔ ∃ child, (key, child) ∈ children ∧
      bindItem schema owner (path.add key) child = .ok (some item) := by
  induction children generalizing items with
  | nil =>
    rw [bindItems] at done
    cases done
    simp
  | cons entry rest ih =>
    obtain ⟨k, child⟩ := entry
    rw [bindItems_cons_eq] at done
    obtain ⟨first, isFirst, done⟩ := bind_eq_ok.mp done
    obtain ⟨more, later, done⟩ := bind_eq_ok.mp done
    cases pure_eq_ok.mp done
    have own : (∃ there, (key, there) = (k, child) ∧
        bindItem schema owner (path.add key) there = .ok (some item)) ↔
          key = k ∧ first = some item := by
      constructor
      · rintro ⟨there, same, bound⟩
        cases same
        exact ⟨rfl, Except.ok.inj (isFirst.symm.trans bound)⟩
      · rintro ⟨rfl, rfl⟩
        exact ⟨child, rfl, isFirst⟩
    have split : (key, item) ∈ consItem k first more ↔
        (key = k ∧ first = some item) ∨ (key, item) ∈ more := by
      cases first with
      | none => simp [consItem]
      | some bound => simp [consItem, eq_comm]
    simp only [split, ih later, List.mem_cons, or_and_right, exists_or, own]

theorem keys_bindItems {owner : ObjectType} {path : Path} {children : List (String × Selection)}
    {items : List (String × BoundItem)} (done : bindItems schema owner path children = .ok items) :
    (items.map Prod.fst).Sublist (children.map Prod.fst) := by
  induction children generalizing items with
  | nil =>
    rw [bindItems] at done
    cases done
    exact .slnil
  | cons entry rest ih =>
    obtain ⟨more, later, rfl | ⟨item, rfl, -⟩⟩ := bindItems_cons schema done
    · exact (ih later).cons _
    · exact (ih later).cons_cons _

/-- Whether nothing is bound for a field of a record: it is answered without the data. -/
def elides (owner : ObjectType) (name : String) : Bool :=
  (owner.field? name).isNone && isElided name

theorem elided_of_bindItem {owner : ObjectType} {path : Path} {s : Selection}
    {item : Option BoundItem} (done : bindItem schema owner path s = .ok item) :
    item = none ↔ elides owner s.name = true := by
  have notId : isElided "id" = false := by decide
  unfold bindItem at done
  unfold elides
  split at done
  · rename_i found
    obtain ⟨_, -, done⟩ := bind_eq_ok.mp done
    cases pure_eq_ok.mp done
    simp [found]
  · rename_i found
    obtain ⟨_, -, rfl⟩ := map_eq_ok.mp done
    simp [found]
  · rename_i found
    split at done
    · rename_i isId
      obtain ⟨_, -, done⟩ := bind_eq_ok.mp done
      cases pure_eq_ok.mp done
      simp [isId, notId]
    · split at done
      · rename_i elided
        cases pure_eq_ok.mp done
        simp [found, elided]
      · cases done

end GraphRead.Selection
