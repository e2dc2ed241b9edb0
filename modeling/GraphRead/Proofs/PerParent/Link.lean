import GraphRead.Proofs.PerParent.Shares
import GraphRead.Resolve.Level
/-!
One association: its children planned, read, completed and dealt out for all parents together are
the answers that the parents get one by one (`attachLink_eq`).

Where a read for one of the keys fails, so does the joined read, and with it the answer of every
parent that has this key. Where all succeed, each parent finds its own records among the joined
ones.
-/

namespace GraphRead.PerParent

open Success

/-! ### Keys -/

section Keys

variable {column : String} {records : List Fetched}

/-- The keys of records that have the column are its distinct values, without null. -/
theorem joinKeys_toOption (known : ∀ r ∈ records, (r.record.get? column).isSome) :
    (joinKeys records column).toOption = some (Value.distinct
      ((records.map (joinValue column)).filter fun v => !v.isNull)) := by
  have values : (records.mapM fun r =>
      Attribute.fetch r.record.type.name r.record.get? column).toOption =
      some (records.map (joinValue column)) := by
    rw [toOption_mapM]
    refine mapM_eq_some.mpr ?_
    rw [List.map_map]
    refine List.map_congr_left fun r present => ?_
    have here := known r present
    rw [Attribute.fetch, Function.comp_apply, joinValue]
    cases found : r.record.get? column with
    | none => rw [found] at here; cases here
    | some v => rfl
  rw [joinKeys, toOption_bind, values]
  rfl

/-- Keys are not null. -/
theorem valued_of_mem_keys {values : List Value} {k : Value}
    (present : k ∈ Value.distinct (values.filter fun v => !v.isNull)) : k.isNull = false := by
  have kept := (List.mem_filter.mp (Value.mem_of_mem_distinct present)).2
  simpa using kept

end Keys

/-! ### Answers -/

/-- An answer depends only on the count for the value of its parent. -/
theorem linkAnswer_congr {counts counts' : ByValue Nat} {v : Value} (position : Path)
    (l : BoundLink) (children : List Fetched)
    (same : (counts.get? v).getD 0 = (counts'.get? v).getD 0) :
    linkAnswer position l counts v children = linkAnswer position l counts' v children := by
  rw [linkAnswer, linkAnswer, same]

theorem answer_of_null (connector : Connector) (position : Path) (l : BoundLink) {v : Value}
    (null : v.isNull) : answer connector position l v = linkAnswer position l [] v [] := by
  rw [answer, if_pos null]

theorem answer_toOption (store : Memory) (position : Path) (l : BoundLink) {v : Value}
    (valued : v.isNull = false) :
    (answer store.connector position l v).toOption =
      (checkOrders position l.targets).toOption.bind fun _ =>
        (l.targets.mapM (childOutput store position l v)).bind fun outputs =>
          (linkAnswer position l [(v, totalCount outputs)] v
            (outputs.flatMap Output.records)).toOption := by
  rw [answer, if_neg (by rw [valued]; decide), toOption_bind]
  refine congrArg (Option.bind _) (funext fun _ => ?_)
  rw [toOption_bind, toOption_mapM]
  refine congrArg (fun outputs => Option.bind outputs _) (mapM_congr fun target _ => ?_)
  rw [childOutput, toOption_bind]
  rfl

/-- Answers that are found value by value are attached record by record. -/
theorem mapM_attach (key : String) (column : String) (find : Value → Option (Answer Record))
    (records : List Fetched) :
    (((records.map (joinValue column)).mapM find).map fun answers =>
      List.zipWith (Fetched.attach key) records answers) =
      records.mapM fun r => (find (joinValue column r)).map (r.attach key) := by
  induction records with
  | nil => rfl
  | cons r rest ih =>
    rw [List.map_cons, List.mapM_cons, List.mapM_cons, ← ih]
    cases find (joinValue column r) with
    | none => rfl
    | some answer => cases (rest.map (joinValue column)).mapM find <;> rfl

/-- Outputs that are shared out one by one are so together. -/
theorem mapM_shares {joint single : Target → Option Output} {k : Value} {targets : List Target}
    (shared : ∀ target ∈ targets, ∀ out, joint target = some out →
      ∃ one, single target = some one ∧ Shares out k one)
    {outs : List Output} (done : targets.mapM joint = some outs) :
    ∃ ones, targets.mapM single = some ones ∧
      (outs.flatMap Output.records).filter (Fetched.joins k) = ones.flatMap Output.records ∧
      (outs.map fun out => out.tally.countOf k).sum = totalCount ones := by
  simp only [totalCount_eq]
  induction targets generalizing outs with
  | nil =>
    cases done
    exact ⟨[], rfl, rfl, rfl⟩
  | cons target rest ih =>
    rw [List.mapM_cons] at done
    obtain ⟨out, here, done⟩ := Option.bind_eq_some_iff.mp done
    obtain ⟨more, later, done⟩ := Option.bind_eq_some_iff.mp done
    cases done
    obtain ⟨one, found, shares⟩ := shared target List.mem_cons_self out here
    obtain ⟨ones, others, records, counts⟩ :=
      ih (fun target present => shared target (List.mem_cons_of_mem _ present)) later
    refine ⟨one :: ones, ?_, ?_, ?_⟩
    · rw [List.mapM_cons, found, others]
      rfl
    · rw [List.flatMap_cons, List.flatMap_cons, List.filter_append, shares.records, records]
    · rw [List.map_cons, List.map_cons, List.sum_cons, List.sum_cons, shares.count, counts]

/-! ### The association -/

section Link

variable (store : Memory) (size : Option Nat) (position : Path) (l : BoundLink)

/-- The keys of some parents. -/
def keysOf (values : List Value) : List Value := Value.distinct (values.filter fun v => !v.isNull)

theorem exists_mem_keysOf {values : List Value} {v : Value} (present : v ∈ values)
    (valued : v.isNull = false) : ∃ k ∈ keysOf values, v == k := by
  obtain ⟨k, known, same⟩ := Value.exists_mem_distinct
    (List.mem_filter.mpr ⟨present, by rw [valued]; rfl⟩ : v ∈ values.filter fun v => !v.isNull)
  exact ⟨k, known, BEq.symm same⟩

theorem isNull_of_keysOf_eq_nil {values : List Value} (none : keysOf values = []) {v : Value}
    (present : v ∈ values) : v.isNull := by
  by_contra valued
  obtain ⟨k, known, -⟩ := exists_mem_keysOf present (Bool.not_eq_true _ ▸ valued)
  rw [none] at known
  cases known

/-- What the joined outputs hold for a parent with a value is what the reads for this value
yield. -/
theorem exists_childOutputs {values : List Value} {outs : List Output}
    (done : (l.targets.map (joinedTask position l (keysOf values))).mapM (finished store size) =
      some outs) {v : Value} (present : v ∈ values) (valued : v.isNull = false) :
    ∃ ones, l.targets.mapM (childOutput store position l v) = some ones ∧
      (outs.flatMap Output.records).filter (Fetched.joins v) = ones.flatMap Output.records ∧
      (outs.map fun out => out.tally.countOf v).sum = totalCount ones := by
  have differ : (keysOf values).Pairwise Value.Differ := Value.distinct_pairwise _
  rw [mapM_map] at done
  obtain ⟨k, known, same⟩ := exists_mem_keysOf present valued
  obtain ⟨ones, found, records, counts⟩ := mapM_shares
    (fun target _ out yielded => shares_of_finished store size differ
      (fun k there => valued_of_mem_keys there) yielded known) done
  refine ⟨ones, ?_, ?_, ?_⟩
  · rw [← found]
    exact mapM_congr fun target _ => childOutput_congr store same
  · rw [Fetched.joins_congr same, records]
  · rw [← counts]
    refine congrArg List.sum (List.map_congr_left fun out _ => ?_)
    cases out.tally with
    | grouped groups => exact ByValue.sumAt_congr groups same
    | none => rfl
    | total n => rfl

/-- Every parent is answered from the joined outputs as it is on its own. -/
theorem linkAnswer_joined {values : List Value} {outs : List Output}
    (agreed : (checkOrders position l.targets).toOption = some ())
    (keyed : keysOf values ≠ [])
    (done : (l.targets.map (joinedTask position l (keysOf values))).mapM (finished store size) =
      some outs) {v : Value} (present : v ∈ values) :
    (linkAnswer position l (groupedCounts outs) v (if v.isNull then []
      else (outs.flatMap Output.records).filter (Fetched.joins v))).toOption =
      (answer store.connector position l v).toOption := by
  cases valued : v.isNull with
  | true =>
    have differ : (keysOf values).Pairwise Value.Differ := Value.distinct_pairwise _
    rw [mapM_map] at done
    have nothing : (outs.map fun out => out.tally.countOf v).sum = 0 := by
      refine List.sum_eq_zero_iff_forall_eq_nat.mpr fun n counted => ?_
      obtain ⟨out, found, rfl⟩ := List.mem_map.mp counted
      obtain ⟨target, -, yielded⟩ := exists_of_mem_mapM done found
      exact countOf_null store size differ keyed yielded valued
    rw [if_pos rfl, answer_of_null _ _ _ valued]
    refine congrArg Except.toOption (linkAnswer_congr position l [] ?_)
    rw [get?_groupedCounts, nothing]
    rfl
  | false =>
    obtain ⟨ones, single, records, counts⟩ :=
      exists_childOutputs store size position l done present valued
    rw [if_neg (by decide), answer_toOption store position l valued, agreed, single, records]
    refine congrArg Except.toOption (linkAnswer_congr position l _ ?_)
    rw [get?_groupedCounts, ByValue.get?, if_pos BEq.rfl, Option.getD_some, counts]

/-- Where a joined read fails, some parent has no answer. -/
theorem exists_unanswered {values : List Value}
    (failed : (l.targets.map (joinedTask position l (keysOf values))).mapM (finished store size) =
      none) (keyed : keysOf values ≠ []) :
    ∃ v ∈ values, (answer store.connector position l v).toOption = none := by
  have differ : (keysOf values).Pairwise Value.Differ := Value.distinct_pairwise _
  rw [mapM_map] at failed
  obtain ⟨target, reached, failed⟩ := mapM_eq_none.mp failed
  obtain ⟨k, known, missing⟩ : ∃ k ∈ keysOf values,
      childOutput store position l k target = none := by
    by_contra each
    have found := isSome_finished store size differ (fun k there => valued_of_mem_keys there)
      keyed fun k known => Option.isSome_iff_ne_none.mpr fun here => each ⟨k, known, here⟩
    rw [failed] at found
    cases found
  have listed := List.mem_filter.mp (Value.mem_of_mem_distinct known)
  refine ⟨k, listed.1, ?_⟩
  have nothing : l.targets.mapM (childOutput store position l k) = none :=
    mapM_eq_none.mpr ⟨target, reached, missing⟩
  rw [answer_toOption store position l (valued_of_mem_keys known), nothing]
  cases (checkOrders position l.targets).toOption <;> rfl

theorem planLink_toOption (key : String) {records : List Fetched} {keys : List Value}
    (known : ∀ r ∈ records, (r.record.get? l.association.localColumn).isSome)
    (same : keysOf (records.map (joinValue l.association.localColumn)) = keys) :
    (planLink position key l records).toOption =
      if keys.isEmpty then some []
      else (checkOrders (position.add key) l.targets).toOption.map fun _ =>
        l.targets.map (joinedTask (position.add key) l keys) := by
  rw [planLink, toOption_bind, toOption_mapError, joinKeys_toOption known, Option.bind_some]
  show Except.toOption (if (keysOf _).isEmpty then _ else _) = _
  rw [same]
  split
  · rfl
  · rw [toOption_bind, ← bind_some_map]
    refine congrArg (Option.bind _) (funext fun _ => ?_)
    rw [← same]
    rfl

theorem attachLink_toOption (key : String) (outs : List Output) (records : List Fetched) :
    (attachLink position key l outs records).toOption =
      ((records.map (joinValue l.association.localColumn)).mapM fun v =>
        (linkAnswer (position.add key) l (groupedCounts outs) v (if v.isNull then []
          else (outs.flatMap Output.records).filter (Fetched.joins v))).toOption).map
        fun answers => List.zipWith (Fetched.attach key) records answers := by
  rw [attachLink, linkAnswers_build, toOption_bind, toOption_mapM]
  exact bind_some_map _ _

/-- Records are joined by their columns, whatever has been attached to them. -/
theorem map_joinValue_bare (column : String) {records before : List Fetched}
    (same : records.map bare = before.map bare) :
    before.map (joinValue column) = records.map (joinValue column) := by
  have through (records : List Fetched) :
      records.map (joinValue column) = (records.map bare).map (joinValue column) := by
    rw [List.map_map]
    exact List.map_congr_left fun r _ => joinValue_bare rfl
  rw [through, ← same, ← through]

theorem mapM_attachAnswer (key : String) (records : List Fetched) :
    (records.mapM fun r => (attachAnswer store.connector position r (key, l)).toOption) =
      ((records.map (joinValue l.association.localColumn)).mapM fun v =>
        (answer store.connector (position.add key) l v).toOption).map fun answers =>
          List.zipWith (Fetched.attach key) records answers := by
  rw [mapM_attach]
  refine mapM_congr fun r _ => ?_
  rw [attachAnswer, toOption_bind]
  exact bind_some_map _ _

/-- Planning, reading, completing and dealing out the children of an association together gives
each record the answer that it gets on its own. -/
theorem attachLink_eq (key : String) {records before : List Fetched}
    (same : records.map bare = before.map bare)
    (known : ∀ r ∈ before, (r.record.get? l.association.localColumn).isSome) :
    ((planLink position key l before).toOption.bind fun tasks =>
      (tasks.mapM (finished store size)).bind fun outs =>
        (attachLink position key l outs records).toOption) =
      records.mapM fun r => (attachAnswer store.connector position r (key, l)).toOption := by
  rw [planLink_toOption position l key known (by rw [map_joinValue_bare _ same]),
    mapM_attachAnswer]
  simp only [attachLink_toOption]
  generalize records.map (joinValue l.association.localColumn) = vs
  by_cases keyed : keysOf vs = []
  · -- No parent has a value, so there is no read and nothing to deal out.
    rw [if_pos (by rw [keyed]; rfl), Option.bind_some]
    show Option.map _ (vs.mapM _) = _
    refine congrArg (Option.map _) (mapM_congr fun v present => ?_)
    have null := isNull_of_keysOf_eq_nil keyed present
    rw [if_pos null, answer_of_null _ _ _ null]
    rfl
  · rw [if_neg (by rw [List.isEmpty_iff]; exact keyed)]
    cases agreed : (checkOrders (position.add key) l.targets).toOption with
    | none =>
      obtain ⟨k, there⟩ := List.exists_mem_of_ne_nil _ keyed
      have listed := (List.mem_filter.mp (Value.mem_of_mem_distinct there)).1
      have failed : (answer store.connector (position.add key) l k).toOption = none := by
        rw [answer_toOption store _ l (valued_of_mem_keys there), agreed]
        rfl
      rw [mapM_eq_none.mpr ⟨k, listed, failed⟩]
      rfl
    | some agreement =>
      rw [Option.map_some, Option.bind_some]
      cases done : (l.targets.map (joinedTask (position.add key) l (keysOf vs))).mapM
          (finished store size) with
      | none =>
        obtain ⟨v, present, failed⟩ := exists_unanswered store size _ l done keyed
        rw [mapM_eq_none.mpr ⟨v, present, failed⟩]
        rfl
      | some outs =>
        rw [Option.bind_some]
        refine congrArg (Option.map _) (mapM_congr fun v present => ?_)
        exact linkAnswer_joined store size _ l agreed keyed done present

end Link

end GraphRead.PerParent
