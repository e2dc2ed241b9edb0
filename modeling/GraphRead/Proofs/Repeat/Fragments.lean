import GraphRead.Binding.Parts
import GraphRead.Binding.Root
import GraphRead.Proofs.Repeat.Within
/-!
Fragments that stand again in a selection.

Fragments are taken over from a queue, to which each one adds those inside it. In a selection with
repetitions the queue holds some fragments again (`Queued`), and those bring the ones inside them
again. None of them finds anything that is not there: whatever was taken over before is held by
the target (`Taken`). So both queues end in step, with targets that repeat one another
(`spliceQueue_inStep`), and so do the fragments of the query type, which are taken over depth first
(`resolveRoot_inStep`).
-/

namespace GraphRead.Selection

open Fallible

/-- A fragment under the same condition that repeats another one. -/
structure Queued (entry entry' : String × Selection) : Prop where
  condition : entry'.1 = entry.1
  fragment : Repeats entry.2 entry'.2

theorem Repeats.fragmentList {s s' : Selection} (r : Repeats s s') :
    Repeating Queued [] s.fragmentList s'.fragmentList := by
  unfold Selection.fragmentList
  have both := r.fragments
  generalize s.fragments = fragments, s'.fragments = fragments' at both
  induction both with
  | nil => exact .done
  | @cons condition members members' rest others first later ih =>
    rw [List.flatMap_cons, List.flatMap_cons]
    have here : Repeating Queued [] (members.map fun member => (condition, member))
        (members'.map fun member => (condition, member)) :=
      first.map fun _ _ same => ⟨rfl, same⟩
    exact here.append ih

/-- What has become of a fragment of the queue: it was dropped, or it is held by the target, and
the fragments inside it were queued. -/
def Taken (accept : String → Except BindError Bool) (target : Selection)
    (queued : List (String × Selection)) (entry : String × Selection) : Prop :=
  ∃ applies, accept entry.1 = .ok applies ∧ (applies = true →
    Within entry.2.withoutFragments target ∧ ∀ inner ∈ entry.2.fragmentList, inner ∈ queued)

theorem Taken.mono {accept : String → Except BindError Bool} {target next : Selection}
    {queued more : List (String × Selection)} {entry : String × Selection}
    (taken : Taken accept target queued entry) (grows : ∀ t, Within t target → Within t next)
    (all : ∀ inner ∈ queued, inner ∈ more) : Taken accept next more entry := by
  obtain ⟨applies, known, held⟩ := taken
  refine ⟨applies, known, fun accepted => ?_⟩
  exact ⟨grows _ (held accepted).1, fun inner inside => all inner ((held accepted).2 inner inside)⟩

theorem spliceAt_inStep {s s' other other' : Selection} (r : Repeats s s')
    (own : Repeats other other') (path : Path) :
    InStep Repeats (spliceAt s other path) (spliceAt s' other' path) :=
  (splice_inStep other' r own).mapError

/-- **A queue with repetitions ends as the queue without them does.** -/
theorem spliceQueue_inStep {accept : String → Except BindError Bool} {path : Path}
    {target target' : Selection} {seen queue queue' : List (String × Selection)}
    (r : Repeats target target') (repeating : Repeating Queued seen queue queue')
    (taken : ∀ entry ∈ seen, Taken accept target (seen ++ queue) entry) :
    InStep Repeats (spliceQueue accept path target queue)
      (spliceQueue accept path target' queue') := by
  fun_induction spliceQueue accept path target' queue' generalizing target seen queue with
  | case1 target' =>
    cases repeating
    rw [spliceQueue]
    exact .ok r
  | case2 target' condition fragment' rest' ihTaken ihDropped =>
    cases repeating with
    | @next _ rest _ entry _ same later =>
      obtain ⟨condition', fragment⟩ := entry
      obtain ⟨rfl, own⟩ := same
      have moved : ∀ inner ∈ seen ++ (condition, fragment) :: rest,
          inner ∈ (condition, fragment) :: (seen ++ rest) :=
        fun inner present => List.perm_middle.mem_iff.mp present
      rw [spliceQueue]
      cases accepted : accept condition with
      | error e => exact .error e e
      | ok applies =>
        cases applies with
        | false =>
          refine ihDropped r later (List.forall_mem_cons.mpr ⟨?_, fun entry present => ?_⟩)
          · exact ⟨false, accepted, fun applies => absurd applies Bool.false_ne_true⟩
          · exact (taken entry present).mono (fun _ within => within) moved
        | true =>
          refine (spliceAt_inStep r own.withoutFragments path).bind
            fun next next' spliced both => ?_
          have spliced := mapError_eq_ok.mp spliced
          refine ihTaken next' both (later.append own.fragmentList)
            (List.forall_mem_cons.mpr ⟨?_, fun entry present => ?_⟩)
          · refine ⟨true, accepted, fun _ => ⟨.of_splice _ own.withoutFragments spliced, ?_⟩⟩
            intro inner inside
            exact List.mem_append_right _ (List.mem_append_right _ inside)
          · refine (taken entry present).mono (fun t within => within.splice _ spliced) ?_
            intro inner listed
            have := moved inner listed
            simp only [List.cons_append, List.mem_cons, List.mem_append] at this ⊢
            rcases this with here | before | behind
            · exact .inl here
            · exact .inr (.inl before)
            · exact .inr (.inr (.inl behind))
    | @more _ _ _ entry _ known same later =>
      obtain ⟨condition', fragment⟩ := entry
      obtain ⟨rfl, own⟩ := same
      obtain ⟨applies, accepted, held⟩ := taken _ known
      dsimp only at accepted
      rw [accepted]
      cases applies with
      | false => exact ihDropped r later taken
      | true =>
        obtain ⟨within, inside⟩ := held rfl
        obtain ⟨next', spliced, both⟩ :=
          splice_absorbed fragment'.withoutFragments r own.withoutFragments within
        show InStep Repeats _ (Except.bind (spliceAt target' fragment'.withoutFragments path) _)
        rw [spliceAt, spliced]
        refine ihTaken next' both (later.repeated fun inner' listed => ?_) taken
        obtain ⟨inner, there, same⟩ := own.fragmentList.source inner' listed
        exact ⟨inner, inside inner there, same⟩

/-- The fragments of a selection resolve as they do without the repetitions. -/
theorem resolveFragments_inStep {s s' : Selection} (r : Repeats s s')
    (accept : String → Except BindError Bool) (path : Path) :
    InStep Repeats (resolveFragments accept path s) (resolveFragments accept path s') :=
  spliceQueue_inStep r.withoutFragments r.fragmentList (List.forall_mem_nil _)

/-! ### The query type -/

/-- The members of a condition that were taken over stay within the target. -/
theorem resolved_mono {target next : Selection} {seen : List Selection}
    (held : ∀ member ∈ seen, ∃ resolved, resolveRoot member = .ok resolved ∧
      Within resolved target) (grows : ∀ t, Within t target → Within t next) :
    ∀ member ∈ seen, ∃ resolved, resolveRoot member = .ok resolved ∧ Within resolved next := by
  intro member present
  obtain ⟨resolved, isResolved, within⟩ := held member present
  exact ⟨resolved, isResolved, grows _ within⟩

mutual

/-- The fragments of the query type are taken over as they are without the repetitions. -/
theorem resolveRoot_inStep : ∀ (s' : Selection) {s : Selection}, Repeats s s' →
    InStep Repeats (resolveRoot s) (resolveRoot s')
  | ⟨_, _, _, _, fragments'⟩, ⟨_, _, _, _, _⟩, r => by
    rw [resolveRoot, resolveRoot]
    exact spliceConditions_inStep fragments' r.withoutFragments r.fragments

theorem spliceConditions_inStep : ∀ (fragments' : List (String × List Selection))
    {fragments : List (String × List Selection)} {s s' : Selection}, Repeats s s' →
    Keyed.Both (Repeating Repeats []) fragments fragments' →
    InStep Repeats (spliceConditions s fragments) (spliceConditions s' fragments')
  | [], _, s, s', r, .nil => .ok r
  | (condition, members') :: rest', _, s, s', r, .cons first later => by
    rw [spliceConditions, spliceConditions]
    split
    · exact (spliceMembers_inStep members' r first (List.forall_mem_nil _)).bind
        fun next next' _ both => spliceConditions_inStep rest' both later
    · exact .error _ _

theorem spliceMembers_inStep : ∀ (members' : List Selection) {seen members : List Selection}
    {s s' : Selection}, Repeats s s' → Repeating Repeats seen members members' →
    (∀ member ∈ seen, ∃ resolved, resolveRoot member = .ok resolved ∧ Within resolved s) →
    InStep Repeats (spliceMembers s members) (spliceMembers s' members')
  | [], _, _, s, s', r, .done, _ => .ok r
  | member' :: rest', seen, _, s, s', r, .next same later, held => by
    rw [spliceMembers, spliceMembers]
    refine (resolveRoot_inStep member' same).bind fun resolved resolved' isResolved own => ?_
    refine (splice_inStep resolved' r own).mapError.bind fun next next' spliced both => ?_
    have spliced := mapError_eq_ok.mp spliced
    refine spliceMembers_inStep rest' both later (List.forall_mem_cons.mpr ⟨?_, ?_⟩)
    · exact ⟨resolved, isResolved, .of_splice resolved own spliced⟩
    · exact resolved_mono held fun t within => within.splice resolved spliced
  | member' :: rest', seen, members, s, s', r, .more known same later, held => by
    rename_i member
    obtain ⟨resolved, isResolved, within⟩ := held _ known
    have own := resolveRoot_inStep member' same
    rw [isResolved] at own
    obtain ⟨resolved', isResolved', own⟩ := InStep.ok_iff.mp own
    obtain ⟨next', spliced, both⟩ := splice_absorbed resolved' r own within
    rw [spliceMembers, isResolved']
    show InStep Repeats _ (Except.bind ((splice s' resolved').result.mapError _) _)
    rw [spliced]
    exact spliceMembers_inStep rest' both later held

end

/-! ### Page infos, connections and edges -/

theorem mergeInto_inStep {there there' : Option Selection} {s s' : Selection}
    (before : Option.Rel Repeats there there') (r : Repeats s s') (path : Path) :
    InStep Repeats (mergeInto there s path) (mergeInto there' s' path) := by
  cases before with
  | none => exact .ok r
  | some old => exact (merge_inStep old r).mapError

/-- What is asked of a page info does not change. -/
theorem pageInfoRequest_inStep {s s' : Selection} (r : Repeats s s') (path : Path) :
    InStep (· = ·) (pageInfoRequest path s) (pageInfoRequest path s') := by
  refine (resolveFragments_inStep r always path).bind fun resolved resolved' _ both => ?_
  refine InStep.foldlM both.children rfl fun asked asked' key child child' same own => ?_
  dsimp only
  rw [same, pageInfoField, pageInfoField, own.name]
  exact .refl _

/-- What is asked of a connection, and what is asked of one with repetitions. -/
structure ConnectionParts.Repeats (parts parts' : ConnectionParts) : Prop where
  edges : Option.Rel Selection.Repeats parts.edges parts'.edges
  pageInfo : parts'.pageInfo = parts.pageInfo
  count : parts'.count = parts.count

theorem connectionParts_inStep {children children' : List (String × Selection)}
    (both : Keyed.Both Repeats children children') (type : String) (path : Path) :
    InStep ConnectionParts.Repeats (connectionParts type path children)
      (connectionParts type path children') := by
  refine InStep.foldlM both ⟨.none, rfl, rfl⟩ fun parts parts' key child child' same own => ?_
  dsimp only
  unfold connectionField
  rw [own.name]
  split
  · exact (mergeInto_inStep same.edges own _).bind fun merged merged' _ known =>
      .ok ⟨.some known, same.pageInfo, same.count⟩
  · split
    · refine (pageInfoRequest_inStep own _).bind fun asked asked' _ equal => .ok ?_
      rw [equal, same.pageInfo]
      exact ⟨same.edges, rfl, same.count⟩
    · split
      · exact .ok ⟨same.edges, same.pageInfo, rfl⟩
      · split
        · exact .ok same
        · exact .error _ _

/-- What is asked of an edge, and what is asked of one with repetitions. -/
structure EdgeParts.Repeats (parts parts' : EdgeParts) : Prop where
  node : Option.Rel Selection.Repeats parts.node parts'.node
  cursor : parts'.cursor = parts.cursor

theorem edgeParts_inStep {children children' : List (String × Selection)}
    (both : Keyed.Both Repeats children children') (type : String) (path : Path) :
    InStep EdgeParts.Repeats (edgeParts type path children) (edgeParts type path children') := by
  refine InStep.foldlM both ⟨.none, rfl⟩ fun parts parts' key child child' same own => ?_
  dsimp only
  unfold edgeField
  rw [own.name]
  split
  · exact (mergeInto_inStep same.node own _).bind fun merged merged' _ known =>
      .ok ⟨.some known, same.cursor⟩
  · split
    · exact .ok ⟨same.node, rfl⟩
    · split
      · exact .ok same
      · exact .error _ _

end GraphRead.Selection
