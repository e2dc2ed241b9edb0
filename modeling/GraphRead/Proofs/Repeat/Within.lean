import GraphRead.Proofs.Repeat.Basic
import GraphRead.Proofs.Value.Order
/-!
What a selection holds already.

A selection is within another one if every child of it stands there under its key, with the same
name and arguments and all that is below it, and every fragment under its condition
(`Selection.Within`). What has been taken over is within the result, and stays within whatever
that becomes (`Within.of_splice`, `Within.splice`). So taking it over again, from a repetition,
never fails and changes nothing but the number of fragments (`Selection.splice_absorbed`).
-/

namespace GraphRead.Selection

open Fallible

/-- Every fragment is one of those that stand under its condition. -/
def FragmentsWithin (some there : List (String × List Selection)) : Prop :=
  ∀ entry ∈ some, ∃ members, Keyed.get? there entry.1 = .some members ∧
    ∀ fragment ∈ entry.2, fragment ∈ members

mutual

/-- Whatever a selection holds stands in another one too. -/
inductive Within : Selection → Selection → Prop
  | intro {t s : Selection} (children : ∀ entry ∈ t.children, Filed entry.2 s.children)
    (fragments : FragmentsWithin t.fragments s.fragments) : Within t s

/-- Under the output key of a child stands the same field, with whatever the child holds. -/
inductive Filed : Selection → List (String × Selection) → Prop
  | intro {child there : Selection} {children : List (String × Selection)}
    (found : Keyed.get? children child.outputKey = some there) (name : there.name = child.name)
    (arguments : sameArguments there.arguments child.arguments = true)
    (within : Within child there) : Filed child children

end

/-! ### Fragments -/

namespace FragmentsWithin

variable {held there more : List (String × List Selection)}

theorem self (distinct : (held.map Prod.fst).Nodup) : FragmentsWithin held held :=
  fun entry present => ⟨entry.2, Keyed.get?_of_mem distinct present, fun _ listed => listed⟩

theorem insert (within : FragmentsWithin held there) (condition : String)
    (members : List Selection) : FragmentsWithin held (Keyed.insert there condition
      ((Keyed.get? there condition).getD [] ++ members)) := by
  intro entry present
  obtain ⟨old, found, all⟩ := within entry present
  rw [Keyed.get?_insert]
  split
  · rename_i same
    rw [same, found]
    exact ⟨_, rfl, fun fragment listed => List.mem_append_left _ (all fragment listed)⟩
  · exact ⟨old, found, all⟩

/-- Fragments stay where they are when others are added. -/
theorem add (within : FragmentsWithin held there) (more : List (String × List Selection)) :
    FragmentsWithin held (addFragments there more) := by
  unfold addFragments
  induction more generalizing there with
  | nil => exact within
  | cons entry rest ih => exact ih (within.insert entry.1 entry.2)

/-- Fragments that are added stand under their conditions. -/
theorem added (there more : List (String × List Selection)) :
    FragmentsWithin more (addFragments there more) := by
  induction more generalizing there with
  | nil => exact List.forall_mem_nil _
  | cons entry rest ih =>
    have here : FragmentsWithin [entry] (Keyed.insert there entry.1
        ((Keyed.get? there entry.1).getD [] ++ entry.2)) := by
      intro first present
      cases List.mem_singleton.mp present
      exact ⟨_, Keyed.get?_insert_self .., fun _ listed => List.mem_append_right _ listed⟩
    exact List.forall_mem_cons.mpr ⟨here.add rest entry (List.mem_singleton.mpr rfl), ih _⟩

/-- Repetitions of fragments that stand there are repetitions of what stands there. -/
theorem absorbed {there' more' : List (String × List Selection)}
    (within : FragmentsWithin more there)
    (both : Keyed.Both (Repeating Repeats []) there there')
    (repeated : Keyed.Both (Repeating Repeats []) more more') :
    Keyed.Both (Repeating Repeats []) there (addFragments there' more') := by
  unfold addFragments
  induction repeated generalizing there' with
  | nil => exact both
  | @cons condition members members' rest others first later ih =>
    obtain ⟨⟨old, found, all⟩, rest⟩ := List.forall_mem_cons.mp within
    obtain ⟨old', found', repeating⟩ := both.get?_some found
    refine ih rest (both.insert_right found ?_)
    rw [found']
    refine repeating.repeated fun fragment' listed => ?_
    obtain ⟨fragment, known, same⟩ := first.source fragment' listed
    exact ⟨fragment, all fragment known, same⟩

end FragmentsWithin

/-! ### What is taken over stays -/

/-- A child is filed under a new key, or merged with the same field there. -/
theorem place_ok {s child next : Selection} {merge : Selection → Change}
    (done : (place s child merge).result = .ok next) :
    (Keyed.get? s.children child.outputKey = none ∧
      next = { s with children := Keyed.insert s.children child.outputKey child }) ∨
    ∃ there merged, Keyed.get? s.children child.outputKey = some there ∧
      there.name = child.name ∧ sameArguments there.arguments child.arguments = true ∧
      (merge there).result = .ok merged ∧
      next = { s with children := Keyed.insert s.children child.outputKey merged } := by
  rw [place_result] at done
  cases found : Keyed.get? s.children child.outputKey with
  | none =>
    rw [found] at done
    cases done
    exact .inl ⟨rfl, rfl⟩
  | some there =>
    rw [found] at done
    dsimp only at done
    split at done
    · cases done
    · rename_i name
      split at done
      · cases done
      · rename_i arguments
        obtain ⟨merged, isMerged, rfl⟩ := map_eq_ok.mp done
        exact .inr ⟨there, merged, rfl, by simpa using name, by simpa using arguments, isMerged,
          rfl⟩

/-- What is filed stays filed when another child is filed, if merging keeps what is within. -/
theorem Filed.place {held s child next : Selection} (filed : Filed held s.children)
    (keeps : ∀ {t there merged : Selection}, Within t there →
      (splice there child).result = .ok merged → Within t merged)
    (done : (place s child fun there => splice there child).result = .ok next) :
    Filed held next.children := by
  obtain ⟨known, name, arguments, within⟩ := filed
  rcases place_ok done with ⟨missing, rfl⟩ | ⟨there, merged, found, -, -, isMerged, rfl⟩
  · refine .intro ?_ name arguments within
    dsimp only
    rw [Keyed.get?_insert, if_neg, known]
    intro same
    rw [same, known] at missing
    cases missing
  · by_cases same : child.outputKey = held.outputKey
    · rw [same, known] at found
      cases found
      obtain ⟨sameName, -, sameArguments⟩ := head_of_splice isMerged
      refine .intro ?_ (sameName.trans name) (sameArguments ▸ arguments) (keeps within isMerged)
      dsimp only
      rw [same, Keyed.get?_insert_self]
    · refine .intro ?_ name arguments within
      dsimp only
      rw [Keyed.get?_insert, if_neg same, known]

theorem fragments_of_place {s child next : Selection} {merge : Selection → Change}
    (done : (place s child merge).result = .ok next) : next.fragments = s.fragments := by
  rcases place_ok done with ⟨-, rfl⟩ | ⟨_, _, -, -, -, -, rfl⟩ <;> rfl

mutual

/-- What is within a selection stays within it, whatever it takes over. -/
theorem Within.splice : ∀ (other : Selection) {t s next : Selection}, Within t s →
    (splice s other).result = .ok next → Within t next
  | ⟨_, _, _, children, fragments⟩, t, s, next, .intro own within, done => by
    rw [splice_result] at done
    obtain ⟨spliced, isSpliced, rfl⟩ := map_eq_ok.mp done
    obtain ⟨stays, same⟩ := filed_spliceChildren children isSpliced
    refine .intro (fun entry present => stays _ (own entry present)) ?_
    dsimp only
    rw [same]
    exact within.add fragments

theorem filed_spliceChildren : ∀ (children : List (String × Selection)) {s next : Selection},
    (spliceChildren s children).result = .ok next →
    (∀ held, Filed held s.children → Filed held next.children) ∧ next.fragments = s.fragments
  | [], s, next, done => by
    cases done
    exact ⟨fun _ filed => filed, rfl⟩
  | (_, child) :: rest, s, next, done => by
    rw [spliceChildren_result] at done
    obtain ⟨placed, isPlaced, done⟩ := bind_eq_ok.mp done
    obtain ⟨stays, same⟩ := filed_spliceChildren rest done
    refine ⟨fun held filed => stays held ?_, same.trans (fragments_of_place isPlaced)⟩
    exact filed.place (Within.splice child) isPlaced

end

/-! ### What is taken over is held -/

theorem sameArguments_iff {left right : List (String × Value)} :
    sameArguments left right = true ↔ left.length = right.length ∧
      ∀ entry ∈ left, ∃ value, Keyed.get? right entry.1 = some value ∧
        (entry.2 == value) = true := by
  rw [sameArguments, Keyed.sameEntries, Bool.and_eq_true, beq_iff_eq, List.all_eq_true]
  refine and_congr Iff.rfl (forall₂_congr fun entry _ => ?_)
  obtain ⟨name, value⟩ := entry
  dsimp only
  cases Keyed.get? right name with
  | none => simp
  | some other =>
    refine ⟨fun same => ⟨other, rfl, same⟩, ?_⟩
    rintro ⟨_, found, same⟩
    cases found
    exact same

theorem sameArguments_self {arguments : List (String × Value)}
    (named : (arguments.map Prod.fst).Nodup) : sameArguments arguments arguments = true :=
  sameArguments_iff.mpr ⟨rfl, fun entry present =>
    ⟨entry.2, Keyed.get?_of_mem named present, BEq.rfl⟩⟩

/-- Every argument of one of two selections with the same arguments is one of the other, maybe
in another spelling. -/
theorem exists_of_sameArguments {left right : List (String × Value)}
    (same : sameArguments left right = true) (named : (left.map Prod.fst).Nodup) :
    ∀ entry ∈ right, ∃ value, (entry.1, value) ∈ left ∧ Value.same value entry.2 = true := by
  obtain ⟨length, each⟩ := sameArguments_iff.mp same
  have perm := Keyed.keys_perm named length fun entry present => by
    obtain ⟨value, found, -⟩ := each entry present
    rw [Keyed.hasKey, found]
    rfl
  intro entry present
  have there := perm.mem_iff.mpr (List.mem_map_of_mem present)
  obtain ⟨⟨name, value⟩, known, sameName⟩ := List.mem_map.mp there
  dsimp only at sameName
  subst sameName
  obtain ⟨value', found, same⟩ := each _ known
  rw [Keyed.get?_of_mem (perm.nodup_iff.mp named) present] at found
  cases found
  exact ⟨value, known, same⟩

theorem sameArguments_symm {left right : List (String × Value)}
    (same : sameArguments left right = true) (named : (left.map Prod.fst).Nodup) :
    sameArguments right left = true := by
  refine sameArguments_iff.mpr ⟨(sameArguments_iff.mp same).1.symm, fun entry present => ?_⟩
  obtain ⟨value, known, equal⟩ := exists_of_sameArguments same named entry present
  exact ⟨value, Keyed.get?_of_mem named known, BEq.symm equal⟩

mutual

/-- A selection is within itself. -/
theorem Repeats.within : ∀ {s s' : Selection}, Repeats s s' → Within s s
  | ⟨_, _, _, children, _⟩, _, r => by
    refine .intro (fun entry present => ?_) (.self r.conditions)
    obtain ⟨own, named⟩ := within_children children r.children entry present
    refine .intro ?_ rfl (sameArguments_self named) own
    rw [← r.keyed entry present]
    exact Keyed.get?_of_mem r.distinct present

theorem within_children : ∀ (children : List (String × Selection))
    {children' : List (String × Selection)}, Keyed.Both Repeats children children' →
    ∀ entry ∈ children, Within entry.2 entry.2 ∧ (entry.2.arguments.map Prod.fst).Nodup
  | [], _, _ => List.forall_mem_nil _
  | (_, _) :: rest, _, .cons first later =>
    List.forall_mem_cons.mpr ⟨⟨first.within, first.named⟩, within_children rest later⟩

end

/-- A child is filed once it has been filed, if merging keeps what it holds. -/
theorem filed_of_place {s child child' next : Selection} (own : Repeats child child')
    (keeps : ∀ {there merged : Selection}, (splice there child).result = .ok merged →
      Within child merged)
    (done : (place s child fun there => splice there child).result = .ok next) :
    Filed child next.children := by
  rcases place_ok done with ⟨-, rfl⟩ | ⟨there, merged, -, name, arguments, isMerged, rfl⟩
  · exact .intro (Keyed.get?_insert_self ..) rfl (sameArguments_self own.named) own.within
  · obtain ⟨sameName, -, sameArguments⟩ := head_of_splice isMerged
    exact .intro (Keyed.get?_insert_self ..) (sameName.trans name) (sameArguments ▸ arguments)
      (keeps isMerged)

mutual

/-- What a selection takes over is within the result. -/
theorem Within.of_splice : ∀ (other : Selection) {other' s next : Selection},
    Repeats other other' → (splice s other).result = .ok next → Within other next
  | ⟨_, _, _, children, fragments⟩, other', s, next, own, done => by
    rw [splice_result] at done
    obtain ⟨spliced, isSpliced, rfl⟩ := map_eq_ok.mp done
    have filed := filed_of_spliceChildren children own.children isSpliced
    exact .intro filed (.added _ fragments)

theorem filed_of_spliceChildren : ∀ (children : List (String × Selection))
    {children' : List (String × Selection)} {s next : Selection},
    Keyed.Both Repeats children children' → (spliceChildren s children).result = .ok next →
    ∀ entry ∈ children, Filed entry.2 next.children
  | [], _, _, _, _, _ => List.forall_mem_nil _
  | (_, child) :: rest, _, s, next, .cons first later, done => by
    rw [spliceChildren_result] at done
    obtain ⟨placed, isPlaced, done⟩ := bind_eq_ok.mp done
    have here := filed_of_place first (Within.of_splice child first) isPlaced
    exact List.forall_mem_cons.mpr ⟨(filed_spliceChildren rest done).1 child here,
      filed_of_spliceChildren rest later done⟩

end

/-! ### What holds a holder -/

theorem sameArguments_trans {first second third : List (String × Value)}
    (left : sameArguments first second = true) (right : sameArguments second third = true) :
    sameArguments first third = true := by
  rw [sameArguments_iff] at left right ⊢
  refine ⟨left.1.trans right.1, fun entry present => ?_⟩
  obtain ⟨value, found, same⟩ := left.2 entry present
  obtain ⟨value', found', same'⟩ := right.2 _ (Keyed.mem_of_get? found)
  exact ⟨value', found', BEq.trans same same'⟩

theorem FragmentsWithin.trans {held middle there : List (String × List Selection)}
    (inner : FragmentsWithin held middle) (outer : FragmentsWithin middle there) :
    FragmentsWithin held there := by
  intro entry present
  obtain ⟨members, found, all⟩ := inner entry present
  obtain ⟨others, found', more⟩ := outer _ (Keyed.mem_of_get? found)
  exact ⟨others, found', fun fragment listed => more fragment (all fragment listed)⟩

mutual

/-- What is within a selection is within whatever that one is within. -/
theorem Within.trans : ∀ (t : Selection) {s s' other : Selection}, Within t s → Repeats s s' →
    Within s other → Within t other
  | ⟨_, _, _, children, _⟩, s, s', other, .intro own fragments, r, .intro outer outerFragments =>
    .intro (filed_trans children own r outer) (fragments.trans outerFragments)

theorem filed_trans : ∀ (children : List (String × Selection))
    {s s' : Selection} {others : List (String × Selection)},
    (∀ entry ∈ children, Filed entry.2 s.children) → Repeats s s' →
    (∀ entry ∈ s.children, Filed entry.2 others) → ∀ entry ∈ children, Filed entry.2 others
  | [], _, _, _, _, _, _ => List.forall_mem_nil _
  | (key, child) :: rest, s, s', others, own, r, outer => by
    rw [List.forall_mem_cons] at own
    refine List.forall_mem_cons.mpr ⟨?_, filed_trans rest own.2 r outer⟩
    obtain ⟨found, name, arguments, within⟩ := own.1
    rename_i there
    have present := Keyed.mem_of_get? found
    obtain ⟨there', -, tidy⟩ := r.children.exists_of_mem present
    obtain ⟨found', name', arguments', within'⟩ := outer _ present
    refine .intro ?_ (name'.trans name) (sameArguments_trans arguments' arguments)
      (Within.trans child within tidy within')
    exact (congrArg _ (r.keyed _ present)).trans found'

end

theorem Filed.trans {child s s' : Selection} {others : List (String × Selection)}
    (filed : Filed child s.children) (r : Repeats s s')
    (outer : ∀ entry ∈ s.children, Filed entry.2 others) : Filed child others := by
  have alone : ∀ entry ∈ [("", child)], Filed entry.2 s.children :=
    List.forall_mem_singleton.mpr filed
  exact filed_trans [("", child)] alone r outer ("", child) List.mem_cons_self

/-! ### What is held is taken over in vain -/

/-- Storing what repeats a child that is there keeps a repetition one. -/
theorem Repeats.storeAgain {s s' there merged' : Selection} {key : String} (r : Repeats s s')
    (found : Keyed.get? s.children key = some there) (both : Repeats there merged') :
    Repeats s { s' with children := Keyed.insert s'.children key merged' } :=
  .intro r.name r.aliasName r.arguments r.named r.keyed r.distinct r.conditions
    (r.children.insert_right found both) r.fragments

/-- A repetition of a child that is filed already is merged into it. -/
theorem place_absorbed {s s' child child' : Selection} (r : Repeats s s')
    (own : Repeats child child') (filed : Filed child s.children)
    (absorbed : ∀ {there there' : Selection}, Within child there → Repeats there there' →
      ∃ merged', (splice there' child').result = .ok merged' ∧ Repeats there merged') :
    ∃ next', (place s' child' fun there => splice there child').result = .ok next' ∧
      Repeats s next' := by
  obtain ⟨found, name, arguments, within⟩ := filed
  rename_i there
  obtain ⟨there', found', both⟩ := r.children.get?_some found
  obtain ⟨merged', isMerged, repeats⟩ := absorbed within both
  rw [place_result, own.outputKey, found']
  dsimp only
  rw [both.name, both.arguments, own.name, own.arguments, name, arguments, isMerged,
    if_neg (not_not_intro rfl)]
  exact ⟨_, rfl, r.storeAgain found repeats⟩

mutual

/-- **Taking over again what is held already succeeds, and only repeats fragments.** -/
theorem splice_absorbed : ∀ (other' : Selection) {other s s' : Selection}, Repeats s s' →
    Repeats other other' → Within other s →
    ∃ next', (splice s' other').result = .ok next' ∧ Repeats s next'
  | ⟨_, _, _, children', fragments'⟩, other, s, s', r, own, .intro children fragments => by
    obtain ⟨spliced, isSpliced, repeats⟩ :=
      spliceChildren_absorbed children' r own.children children
    rw [splice_result, isSpliced]
    refine ⟨_, rfl, .intro repeats.name repeats.aliasName repeats.arguments r.named r.keyed
      r.distinct r.conditions repeats.children ?_⟩
    exact fragments.absorbed repeats.fragments own.fragments

theorem spliceChildren_absorbed : ∀ (children' : List (String × Selection))
    {children : List (String × Selection)} {s s' : Selection}, Repeats s s' →
    Keyed.Both Repeats children children' → (∀ entry ∈ children, Filed entry.2 s.children) →
    ∃ next', (spliceChildren s' children').result = .ok next' ∧ Repeats s next'
  | [], _, s, s', r, .nil, _ => ⟨s', rfl, r⟩
  | (_, child') :: rest', _, s, s', r, .cons first later, filed => by
    rw [List.forall_mem_cons] at filed
    obtain ⟨placed', isPlaced, repeats⟩ := place_absorbed r first filed.1
      fun within both => splice_absorbed child' both first within
    rw [spliceChildren_result, isPlaced]
    exact spliceChildren_absorbed rest' repeats later filed.2

end

end GraphRead.Selection
