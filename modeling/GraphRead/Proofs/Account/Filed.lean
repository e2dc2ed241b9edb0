import Mathlib.Data.List.Perm.Subperm
import GraphRead.Proofs.Account.Basic
import GraphRead.Proofs.Repeat.Fragments
import GraphRead.Proofs.Schema.Build
/-!
What a query asks is filed when its fragments are resolved.

If a selection holds what another one asks, then after its fragments have been taken over it has a
child under every key that is asked (`filed_of_resolveFragments`, `filed_of_resolveRoot`), with the
same name and arguments and everything that is asked below. The edges of a connection and the node
of an edge are merged into one selection, which holds each of them (`connectionParts_holds`,
`edgeParts_holds`).
-/

namespace GraphRead.Selection

open Fallible

variable {schema : Schema}

/-! ### Fragments -/

theorem Repeats.exists_of_mem_fragmentList {s s' : Selection} (r : Repeats s s')
    {entry : String × Selection} (filed : entry ∈ s.fragmentList) : ∃ t, Repeats entry.2 t := by
  obtain ⟨entry', -, same⟩ := r.fragmentList.target entry filed
  exact ⟨entry'.2, same.fragment⟩

/-- A queue that comes to its end has taken every fragment that was or came into it. -/
theorem spliceQueue_taken {accept : String → Except BindError Bool} {path : Path}
    {target resolved : Selection} {queue : List (String × Selection)}
    (tidy : ∀ entry ∈ queue, ∃ t, Repeats entry.2 t)
    (done : spliceQueue accept path target queue = .ok resolved) :
    (∀ t, Within t target → Within t resolved) ∧
      ∃ all, (∀ entry ∈ queue, entry ∈ all) ∧ ∀ entry ∈ all, Taken accept resolved all entry := by
  fun_induction spliceQueue accept path target queue with
  | case1 target =>
    cases done
    exact ⟨fun _ within => within, [], by simp, by simp⟩
  | case2 target condition fragment rest ihTaken ihDropped =>
    obtain ⟨⟨fragment', own⟩, others⟩ := List.forall_mem_cons.mp tidy
    obtain ⟨applies, accepted, done⟩ := bind_eq_ok.mp done
    split at done
    · rename_i isTrue
      obtain ⟨next, spliced, done⟩ := bind_eq_ok.mp done
      have spliced := mapError_eq_ok.mp spliced
      obtain ⟨stays, all, listed, taken⟩ := ihTaken next
        (List.forall_mem_append.mpr ⟨others, fun _ => own.exists_of_mem_fragmentList⟩) done
      obtain ⟨before, inside⟩ := List.forall_mem_append.mp listed
      refine ⟨fun t within => stays t (within.splice _ spliced), (condition, fragment) :: all,
        List.forall_mem_cons.mpr ⟨List.mem_cons_self, fun entry present =>
          List.mem_cons_of_mem _ (before entry present)⟩,
        List.forall_mem_cons.mpr ⟨⟨applies, accepted, fun _ => ⟨?_, fun entry present =>
          List.mem_cons_of_mem _ (inside entry present)⟩⟩, fun entry present => ?_⟩⟩
      · exact stays _ (.of_splice _ own.withoutFragments spliced)
      · exact (taken entry present).mono (fun _ within => within) fun inner there =>
          List.mem_cons_of_mem _ there
    · rename_i isFalse
      obtain ⟨stays, all, listed, taken⟩ := ihDropped others done
      refine ⟨stays, (condition, fragment) :: all, List.forall_mem_cons.mpr
        ⟨List.mem_cons_self, fun entry present => List.mem_cons_of_mem _ (listed entry present)⟩,
        List.forall_mem_cons.mpr ⟨⟨applies, accepted, fun isTrue => absurd isTrue isFalse⟩,
          fun entry present => ?_⟩⟩
      exact (taken entry present).mono (fun _ within => within) fun inner there =>
        List.mem_cons_of_mem _ there

theorem FragmentsWithin.mem_fragmentList {s t : Selection}
    (within : FragmentsWithin s.fragments t.fragments) {entry : String × Selection}
    (filed : entry ∈ s.fragmentList) : entry ∈ t.fragmentList := by
  obtain ⟨⟨condition, members⟩, present, listed⟩ := List.mem_flatMap.mp filed
  obtain ⟨fragment, known, rfl⟩ := List.mem_map.mp listed
  obtain ⟨others, found, all⟩ := within _ present
  exact List.mem_flatMap.mpr ⟨(condition, others), Keyed.mem_of_get? found,
    List.mem_map.mpr ⟨fragment, all fragment known, rfl⟩⟩

/-- What a selection asks is filed where all its fragments that apply have been taken. -/
theorem Asked.filed {here : Context} {accept : String → Except BindError Bool}
    (agrees : ∀ condition, here.Applies schema condition → accept condition = .ok true)
    {resolved : Selection} {all : List (String × Selection)}
    (taken : ∀ entry ∈ all, Taken accept resolved all entry) {s child : Selection}
    (asked : Asked schema here s child)
    (children : ∀ entry ∈ s.children, Filed entry.2 resolved.children)
    (fragments : ∀ entry ∈ s.fragmentList, entry ∈ all) : Filed child resolved.children := by
  induction asked with
  | child present => exact children _ present
  | @fragment s fragment child condition filed applies inside ih =>
    obtain ⟨accepted, known, held⟩ := taken _ (fragments _ filed)
    cases Except.ok.inj ((agrees condition applies).symm.trans known)
    obtain ⟨within, inner⟩ := held rfl
    cases within with
    | intro own _ => exact ih own inner

/-- What is asked of a selection is filed once its fragments are resolved. -/
theorem filed_of_resolveFragments {here : Context} {accept : String → Except BindError Bool}
    (agrees : ∀ condition, here.Applies schema condition → accept condition = .ok true)
    {path : Path} {s t t' resolved child : Selection} (tidy : Repeats t t') (within : Within s t)
    (done : resolveFragments accept path t = .ok resolved) (asked : Asked schema here s child) :
    Filed child resolved.children := by
  obtain ⟨stays, all, listed, taken⟩ :=
    spliceQueue_taken (fun _ => tidy.exists_of_mem_fragmentList) done
  cases within with
  | intro own fragments =>
    refine asked.filed agrees taken (fun entry present => ?_) fun entry filed =>
      listed entry (fragments.mem_fragmentList filed)
    have kept : Within ⟨s.name, s.aliasName, s.arguments, s.children, []⟩ resolved :=
      stays _ (.intro own (List.forall_mem_nil _))
    cases kept with
    | intro children _ => exact children entry present

/-! ### The query type -/

mutual

/-- What is asked of the query type is filed once its fragments are taken over. -/
theorem filed_of_resolveRoot : ∀ (s : Selection) {s' resolved : Selection}, Repeats s s' →
    resolveRoot s = .ok resolved → ∀ child, Asked schema .query s child →
    Filed child resolved.children
  | ⟨_, _, _, children, fragments⟩, s', resolved, r, done, child, asked => by
    rw [resolveRoot] at done
    obtain ⟨stays, inside⟩ := filed_of_spliceConditions fragments r.fragments done
    cases asked with
    | child present =>
      cases stays _ r.withoutFragments.within with
      | intro own _ => exact own _ present
    | fragment filed _ asked =>
      obtain ⟨entry, present, listed⟩ := List.mem_flatMap.mp filed
      obtain ⟨fragment, known, same⟩ := List.mem_map.mp listed
      cases same
      exact inside entry present _ known child asked

theorem filed_of_spliceConditions : ∀ (fragments : List (String × List Selection))
    {fragments' : List (String × List Selection)} {s resolved : Selection},
    Keyed.Both (Repeating Repeats []) fragments fragments' →
    spliceConditions s fragments = .ok resolved →
    (∀ t, Within t s → Within t resolved) ∧ ∀ entry ∈ fragments, ∀ member ∈ entry.2, ∀ child,
      Asked schema .query member child → Filed child resolved.children
  | [], _, s, resolved, _, done => by
    cases done
    exact ⟨fun _ within => within, List.forall_mem_nil _⟩
  | (condition, members) :: rest, _, s, resolved, .cons first later, done => by
    rw [spliceConditions] at done
    split at done
    · obtain ⟨next, spliced, done⟩ := bind_eq_ok.mp done
      obtain ⟨stays, own⟩ := filed_of_spliceMembers members
        (fun member present => (first.target member present).imp fun _ same => same.2) spliced
      obtain ⟨stays', others⟩ := filed_of_spliceConditions rest later done
      refine ⟨fun t within => stays' t (stays t within), List.forall_mem_cons.mpr ⟨?_, others⟩⟩
      intro member present child asked
      obtain ⟨inner, inner', tidy, filed, within⟩ := own member present
      cases stays' _ within with
      | intro outer _ => exact (filed child asked).trans tidy outer
    · cases done

/-- Every member that is taken over comes down to a selection that is within the result. -/
theorem filed_of_spliceMembers : ∀ (members : List Selection) {s resolved : Selection},
    (∀ member ∈ members, ∃ t, Repeats member t) → spliceMembers s members = .ok resolved →
    (∀ t, Within t s → Within t resolved) ∧ ∀ member ∈ members, ∃ inner inner',
      Repeats inner inner' ∧ (∀ child, Asked schema .query member child →
        Filed child inner.children) ∧ Within inner resolved
  | [], s, resolved, _, done => by
    cases done
    exact ⟨fun _ within => within, List.forall_mem_nil _⟩
  | member :: rest, s, resolved, tidy, done => by
    obtain ⟨⟨member', own⟩, others⟩ := List.forall_mem_cons.mp tidy
    rw [spliceMembers] at done
    obtain ⟨inner, isInner, done⟩ := bind_eq_ok.mp done
    obtain ⟨next, spliced, done⟩ := bind_eq_ok.mp done
    have spliced := mapError_eq_ok.mp spliced
    have both := resolveRoot_inStep member' own
    rw [isInner] at both
    obtain ⟨inner', -, both⟩ := InStep.ok_iff.mp both
    obtain ⟨stays, each⟩ := filed_of_spliceMembers rest others done
    refine ⟨fun t within => stays t (within.splice inner spliced),
      List.forall_mem_cons.mpr ⟨⟨inner, inner', both, ?_, ?_⟩, each⟩⟩
    · exact filed_of_resolveRoot member own isInner
    · exact stays inner (.of_splice inner both spliced)

end

/-! ### Connections and edges -/

/-- Whatever every step of a walk establishes for its item, and later steps keep, holds for all
items in the end. -/
theorem foldlM_each {α β ε : Type} {step : β → α → Except ε β} (holds : α → β → Prop)
    (here : ∀ before item after, step before item = .ok after → holds item after)
    (keeps : ∀ before item after other, step before item = .ok after → holds other before →
      holds other after) {items : List α} {start last : β}
    (done : items.foldlM step start = .ok last) : ∀ item ∈ items, holds item last := by
  induction items generalizing start with
  | nil => exact List.forall_mem_nil _
  | cons item rest ih =>
    rw [List.foldlM_cons] at done
    obtain ⟨next, first, done⟩ := bind_eq_ok.mp done
    exact List.forall_mem_cons.mpr ⟨foldlM_preserves (holds item)
      (here start item next first) (fun before other _ after held step =>
        keeps before other after item step held) done, ih done⟩

theorem mergeInto_holds {there : Option Selection} {s merged : Selection} {path : Path}
    (done : mergeInto there s path = .ok merged) :
    (∀ s', Repeats s s' → Within s merged) ∧
      ∀ old t, there = some old → Within t old → Within t merged := by
  unfold mergeInto at done
  split at done
  · cases done
    exact ⟨fun _ tidy => tidy.within, fun _ _ none => nomatch none⟩
  · rename_i old
    have done := mapError_eq_ok.mp done
    rw [merge_result] at done
    split at done
    · refine ⟨fun _ tidy => .of_splice s tidy done, fun _ t same within => ?_⟩
      cases same
      exact within.splice s done
    · cases done

/-- A field of a connection is one that connections have. If it is the edges, they hold it, and if
it is a page info, what it asks has been noted. -/
structure ConnectionHolds (schema : Schema) (type : ObjectType) (path : Path)
    (entry : String × Selection) (parts : ConnectionParts) : Prop where
  offered : ((Context.list type).offer? schema entry.2.name).isSome
  edges : entry.2.name = "edges" → ∀ t, Repeats entry.2 t →
    ∃ edges, parts.edges = some edges ∧ Within entry.2 edges
  pageInfo : entry.2.name = "pageInfo" → ∃ request,
    pageInfoRequest (path.add entry.1) entry.2 = .ok request

theorem connectionField_holds {type : ObjectType} {path : Path} {parts next : ConnectionParts}
    {key : String} {child : Selection}
    (done : connectionField type.name path parts key child = .ok next) :
    ConnectionHolds schema type path (key, child) next := by
  unfold connectionField at done
  by_cases isEdges : child.name = "edges"
  · rw [if_pos isEdges] at done
    obtain ⟨merged, isMerged, done⟩ := bind_eq_ok.mp done
    cases pure_eq_ok.mp done
    refine ⟨by simp [Context.offer?, isEdges], fun _ t tidy => ?_, fun isInfo => ?_⟩
    · exact ⟨merged, rfl, (mergeInto_holds isMerged).1 t tidy⟩
    · exact absurd (isEdges.symm.trans isInfo) (by decide)
  · rw [if_neg isEdges] at done
    refine ⟨?_, fun same => absurd same isEdges, fun isInfo => ?_⟩
    · split at done
      · rename_i isInfo
        simp [Context.offer?, isInfo]
      · split at done
        · rename_i isCount
          rcases isCount with isCount | isCount <;> simp [Context.offer?, isCount]
        · split at done
          · rename_i isName
            simp [Context.offer?, isName, typeName]
          · cases done
    · rw [if_pos isInfo] at done
      obtain ⟨request, asked, -⟩ := bind_eq_ok.mp done
      exact ⟨request, asked⟩

theorem connectionField_keeps {type : ObjectType} {path : Path} {parts next : ConnectionParts}
    {key : String} {child : Selection} {other : String × Selection}
    (done : connectionField type.name path parts key child = .ok next)
    (held : ConnectionHolds schema type path other parts) :
    ConnectionHolds schema type path other next := by
  refine ⟨held.offered, fun isEdges t tidy => ?_, held.pageInfo⟩
  obtain ⟨edges, known, within⟩ := held.edges isEdges t tidy
  unfold connectionField at done
  split at done
  · obtain ⟨merged, isMerged, done⟩ := bind_eq_ok.mp done
    cases pure_eq_ok.mp done
    exact ⟨merged, rfl, (mergeInto_holds isMerged).2 edges other.2 known within⟩
  · split at done
    · obtain ⟨_, _, done⟩ := bind_eq_ok.mp done
      cases pure_eq_ok.mp done
      exact ⟨edges, known, within⟩
    · split at done
      · cases pure_eq_ok.mp done
        exact ⟨edges, known, within⟩
      · split at done
        · cases pure_eq_ok.mp done
          exact ⟨edges, known, within⟩
        · cases done

theorem connectionParts_holds (schema : Schema) {type : ObjectType} {path : Path}
    {children : List (String × Selection)} {parts : ConnectionParts}
    (done : connectionParts type.name path children = .ok parts) :
    ∀ entry ∈ children, ConnectionHolds schema type path entry parts :=
  foldlM_each (ConnectionHolds schema type path) (fun _ _ _ step => connectionField_holds step)
    (fun _ _ _ _ step held => connectionField_keeps step held) done

/-- A field of an edge is one that edges have. If it is the node, that holds it. -/
structure EdgeHolds (schema : Schema) (type : ObjectType) (entry : String × Selection)
    (parts : EdgeParts) : Prop where
  offered : ((Context.edge type).offer? schema entry.2.name).isSome
  node : entry.2.name = "node" → ∀ t, Repeats entry.2 t →
    ∃ node, parts.node = some node ∧ Within entry.2 node

theorem edgeField_holds {type : ObjectType} {path : Path} {parts next : EdgeParts}
    {key : String} {child : Selection}
    (done : edgeField type.name path parts key child = .ok next) :
    EdgeHolds schema type (key, child) next := by
  unfold edgeField at done
  by_cases isNode : child.name = "node"
  · rw [if_pos isNode] at done
    obtain ⟨merged, isMerged, done⟩ := bind_eq_ok.mp done
    cases pure_eq_ok.mp done
    exact ⟨by simp [Context.offer?, isNode], fun _ t tidy =>
      ⟨merged, rfl, (mergeInto_holds isMerged).1 t tidy⟩⟩
  · rw [if_neg isNode] at done
    refine ⟨?_, fun same => absurd same isNode⟩
    split at done
    · rename_i isCursor
      simp [Context.offer?, isCursor]
    · split at done
      · rename_i isName
        simp [Context.offer?, isName, typeName]
      · cases done

theorem edgeField_keeps {type : ObjectType} {path : Path} {parts next : EdgeParts}
    {key : String} {child : Selection} {other : String × Selection}
    (done : edgeField type.name path parts key child = .ok next)
    (held : EdgeHolds schema type other parts) : EdgeHolds schema type other next := by
  refine ⟨held.offered, fun isNode t tidy => ?_⟩
  obtain ⟨node, known, within⟩ := held.node isNode t tidy
  unfold edgeField at done
  split at done
  · obtain ⟨merged, isMerged, done⟩ := bind_eq_ok.mp done
    cases pure_eq_ok.mp done
    exact ⟨merged, rfl, (mergeInto_holds isMerged).2 node other.2 known within⟩
  · split at done
    · cases pure_eq_ok.mp done
      exact ⟨node, known, within⟩
    · split at done
      · cases pure_eq_ok.mp done
        exact ⟨node, known, within⟩
      · cases done

theorem edgeParts_holds (schema : Schema) {type : ObjectType} {path : Path}
    {children : List (String × Selection)} {parts : EdgeParts}
    (done : edgeParts type.name path children = .ok parts) :
    ∀ entry ∈ children, EdgeHolds schema type entry parts :=
  foldlM_each (EdgeHolds schema type) (fun _ _ _ step => edgeField_holds step)
    (fun _ _ _ _ step held => edgeField_keeps step held) done

/-- Every field of a page info that is bound is one that page infos have. -/
theorem pageInfoField_offered {path : Path} {asked next : PageInfoRequest} {key : String}
    {child : Selection} (done : pageInfoField path asked key child = .ok next) :
    (Context.pageInfo.offer? schema child.name).isSome := by
  have known : child.name = "hasNextPage" ∨ child.name = "hasPreviousPage" ∨
      child.name = "startCursor" ∨ child.name = "endCursor" ∨ child.name = typeName := by
    by_contra none
    simp only [not_or] at none
    obtain ⟨next, previous, start, last, name⟩ := none
    rw [pageInfoField, if_neg next, if_neg previous, if_neg start, if_neg last, if_neg name]
      at done
    cases done
  rw [Context.offer?, if_pos known]
  rfl

end GraphRead.Selection
