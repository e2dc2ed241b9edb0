import GraphRead.Proofs.Metadata.Visit
/-!
What can fail because of what is asked about pages.

Leaving metadata out, a visit reads the same rows of every target except the spare ones at the end
(`Visit.rows_eq`). Everything else that a visit needs is the same, so it answers exactly if it does
without metadata and the spare rows of all visits below it can be shown
(`Visit.isSome_answer_iff`). This goes by induction from the associations to the records above them.
-/

namespace GraphRead

open PerParent Success Memory

/-! ### Visits without metadata -/

section Plain

variable (infos : Bool)

theorem BoundLink.visit_plain (position : Path) (l : BoundLink) (v : Value) :
    (l.plain infos).visit position v = (l.visit position v).plain infos := by
  rw [visit, visit, Visit.plain, plain_targets, plain_association, plain_filter]

theorem RootRead.visit_plain (read : RootRead) :
    (read.plain infos).visit = read.visit.plain infos := rfl

theorem Target.links_plain (target : Target) :
    (target.plain infos).links = target.links.map fun (key, l) => (key, l.plain infos) := by
  rw [links, links, plain_record]
  cases target.record? with
  | none => rfl
  | some f => exact f.plain_links infos

namespace Visit

variable (visit : Visit) (store : Memory) (target : Target)

theorem plan_plain : (visit.plain infos).plan (target.plain infos) =
    .compile (target.plain infos) (visit.filter target.type)
      (visit.parent.map fun (column, v) => ⟨column, [v]⟩) visit.take := by
  rw [plan, Target.plain_type]
  rfl

theorem columns_plain : ((visit.plain infos).plan (target.plain infos)).columns =
    (visit.plan target).columns := by
  rw [plan_plain]
  exact Plan.columns_plain ..

theorem passing_plain (rows : List Row) :
    (visit.plain infos).passing (target.plain infos) rows = visit.passing target rows := by
  rw [passing, passing, plan_plain, Plan.fetchFilter_plain]
  rfl

/-- Without metadata, a list has the same rows up to its limit, and a single record has the same. -/
theorem rows_plain : (visit.plain infos).rows store (target.plain infos) =
    match target.connection? with
    | some c => (visit.rows store target).take (c.plain infos).fetchLimit
    | none => visit.rows store target := by
  have own : (visit.plan target).take = match target.connection? with
      | some c => some c.fetchLimit
      | none => visit.take := rfl
  have plain : ((visit.plain infos).plan (target.plain infos)).take =
      match target.connection? with
      | some c => some (c.plain infos).fetchLimit
      | none => visit.take := by
    rw [plan_plain]
    show (match (target.plain infos).connection? with
      | some c => some c.fetchLimit
      | none => visit.take) = _
    rw [Target.plain_connection]
    cases target.connection? <;> rfl
  have order : ((visit.plain infos).plan (target.plain infos)).arguments.order =
      (visit.plan target).arguments.order := by
    rw [plan_plain]
    exact Plan.order_plain ..
  rw [rows, rows, plain, own, order, passing_plain, Target.plain_type]
  cases target.connection? with
  | none => rfl
  | some c =>
    show List.take _ _ = List.take _ (List.take _ _)
    rw [List.take_take, Nat.min_eq_left (c.fetchLimit_plain_le infos)]

/-- What is fetched is what is fetched without metadata, and then the spare rows. -/
theorem rows_eq : visit.rows store target =
    (visit.plain infos).rows store (target.plain infos) ++ visit.spare infos store target := by
  rw [rows_plain, spare]
  cases target.connection? with
  | none => exact (List.append_nil _).symm
  | some c => exact (List.take_append_drop _ _).symm

/-- Where page infos are kept, no row is spare. -/
theorem spare_true : visit.spare true store target = [] := by
  unfold spare
  split
  · rename_i c asked
    have own : (visit.plan target).take = some c.fetchLimit := by
      show (match target.connection? with
        | some c => some c.fetchLimit
        | none => visit.take) = _
      rw [asked]
    rw [BoundConnection.fetchLimit_plain_true, rows, own]
    exact List.drop_of_length_le (List.length_take_le _ _)
  · rfl

end Visit

end Plain

/-! ### When a visit answers -/

namespace Visit

variable (store : Memory)

/-- What the associations of a target answer to a row. -/
def answersTo (visit : Visit) (target : Target) (row : Row) :
    Option (List (String × Answer Record)) :=
  target.links.mapM fun link => ((PerParent.answer store.connector (visit.position.add link.1)
    link.2 (row.value link.2.association.localColumn)).toOption).map (link.1, ·)

theorem localColumn_mem (visit : Visit) {target : Target} {link : String × BoundLink}
    (linked : link ∈ target.links) :
    link.2.association.localColumn ∈ (visit.plan target).columns := by
  obtain ⟨f, asked, linked⟩ := Target.mem_links.mp linked
  rw [plan, Plan.compile, Plan.requiredColumns, List.mem_eraseDups, asked]
  refine List.mem_append_left _ (List.mem_append_left _ (List.mem_append_right _ ?_))
  exact List.mem_map.mpr ⟨link, linked, rfl⟩

/-- A row with all columns is completed with what the associations answer to it. -/
theorem finish_eq (visit : Visit) (target : Target) (row : Row) :
    visit.finish store target row =
      if holds (visit.plan target).columns row then
        (visit.answersTo store target row).map ((visit.plan target).recordFor row).attachAll
      else none := by
  have each : (answers store.connector visit.position target.links
      ((visit.plan target).recordFor row)).toOption = visit.answersTo store target row := by
    rw [answers, toOption_mapM, answersTo]
    refine mapM_congr fun link linked => ?_
    rw [toOption_map, joinValue, Plan.get?_recordFor (visit.localColumn_mem linked)]
    rfl
  rw [finish, finishRow, Plan.readRow]
  split
  · rw [Option.bind_some, complete_eq, toOption_map, each]
  · rfl

theorem isSome_finish {visit : Visit} {target : Target} {row : Row} :
    (visit.finish store target row).isSome ↔ holds (visit.plan target).columns row ∧
      ∀ link ∈ target.links, (PerParent.answer store.connector (visit.position.add link.1) link.2
        (row.value link.2.association.localColumn)).toOption.isSome := by
  rw [finish_eq]
  split
  · rename_i complete
    rw [Option.isSome_map, answersTo, isSome_mapM]
    simp [complete]
  · rename_i missing
    simp [missing]

/-- How many records a visit may be merged from. -/
def Allows (visit : Visit) (count : Nat) : Prop :=
  visit.many = true ∨ count ≤ 1 ∧ (visit.required.isSome → count ≠ 0)

theorem isSome_merge (visit : Visit) (found : List Fetched) :
    (visit.merge found).toOption.isSome ↔ visit.Allows found.length := by
  rw [merge, Allows]
  split
  · rename_i many
    simp [many]
  · rename_i single
    rw [toOption_map, Option.isSome_map, or_iff_right single]
    obtain _ | ⟨one, _ | ⟨other, rest⟩⟩ := found
    · cases visit.required <;> simp [mergeOne]
    · cases visit.required <;> simp [mergeOne]
    · simp [mergeOne]

/-- What a visit needs to answer. -/
structure Answers (visit : Visit) : Prop where
  agreed : checkOrders visit.position visit.targets = .ok ()
  readable : ∀ target ∈ visit.targets, (store.table? target.type.table).isSome
  finished : ∀ target ∈ visit.targets, ∀ row ∈ visit.rows store target,
    (visit.finish store target row).isSome
  allowed : visit.Allows (visit.targets.map fun target => (visit.rows store target).length).sum

theorem isSome_reads {visit : Visit} {target : Target} : (visit.reads store target).isSome ↔
    (store.table? target.type.table).isSome ∧
      ∀ row ∈ visit.rows store target, (visit.finish store target row).isSome := by
  rw [reads, ← isSome_mapM]
  cases store.table? target.type.table <;> simp

/-- A visit makes a record of every row. -/
theorem length_flatten_reads {visit : Visit} {targets : List Target} {found : List (List Fetched)}
    (done : targets.mapM (visit.reads store) = some found) : found.flatten.length =
      (targets.map fun target => (visit.rows store target).length).sum := by
  rw [List.length_flatten]
  refine congrArg List.sum (map_eq_of_mapM done fun target _ records done => ?_)
  obtain ⟨_, _, made⟩ := Option.bind_eq_some_iff.mp done
  have each := congrArg List.length (mapM_eq_some.mp made)
  rw [List.length_map, List.length_map] at each
  exact each.symm

theorem isSome_answer {visit : Visit} : (visit.answer store).isSome ↔ visit.Answers store := by
  constructor
  · intro done
    obtain ⟨_, done⟩ := Option.isSome_iff_exists.mp done
    obtain ⟨_, agreed, done⟩ := Option.bind_eq_some_iff.mp done
    obtain ⟨found, made, done⟩ := Option.bind_eq_some_iff.mp done
    obtain ⟨_, merged, -⟩ := Option.map_eq_some_iff.mp done
    have each := isSome_mapM.mp (Option.isSome_of_eq_some made)
    refine ⟨toOption_eq_some.mp agreed, fun target reached => ?_, fun target reached => ?_, ?_⟩
    · exact ((isSome_reads store).mp (each target reached)).1
    · exact ((isSome_reads store).mp (each target reached)).2
    · rw [← length_flatten_reads store made]
      exact (visit.isSome_merge _).mp (Option.isSome_of_eq_some merged)
  · rintro ⟨agreed, readable, finished, allowed⟩
    have each : (visit.targets.mapM (visit.reads store)).isSome := isSome_mapM.mpr
      fun target reached =>
        (isSome_reads store).mpr ⟨readable target reached, finished target reached⟩
    obtain ⟨found, made⟩ := Option.isSome_iff_exists.mp each
    rw [← length_flatten_reads store made] at allowed
    rw [answer, agreed, made]
    show ((visit.merge found.flatten).toOption.map Answer.plain).isSome
    rw [Option.isSome_map]
    exact (visit.isSome_merge _).mpr allowed

end Visit

/-! ### With and without metadata -/

/-- What binding guarantees of a visit: its targets belong together, only many records are asked for
as a list, and the associations below are bound. -/
structure Visit.Bound (schema : Schema) (visit : Visit) : Prop where
  together : schema.Together visit.targets
  many : ∀ c, .connection c ∈ visit.targets → visit.many = true
  binds : ∀ target ∈ visit.targets, ∀ link ∈ target.links, schema.Binds link.2

theorem Schema.Binds.visit {schema : Schema} {l : BoundLink} (bound : schema.Binds l)
    (position : Path) (v : Value) : (l.visit position v).Bound schema where
  together := bound.together
  many := fun _ asked => bound.many asked
  binds := fun _ reached _ linked => bound.below reached linked

theorem Selection.visit_of_rootReads {schema : Schema} {root : Selection} {reads : List RootRead}
    (bound : root.rootReads schema = .ok reads) {read : RootRead} (asked : read ∈ reads) :
    read.visit.Bound schema := by
  obtain ⟨key, s, isRoot⟩ := exists_bindRoot bound asked
  obtain ⟨_, _, _, isTargets⟩ := bindRoot_targets isRoot
  refine ⟨bindTargets_together isTargets, fun c asked => ?_, binds_of_bindTargets isTargets⟩
  rw [RootRead.visit, bindRoot_many isRoot asked]

section Split

variable (store : Memory) (infos : Bool)

/-- An association answers a parent exactly if it does without metadata, and all spare rows from
there on can be shown. -/
def Splits (l : BoundLink) : Prop :=
  ∀ position v, (PerParent.answer store.connector position l v).toOption.isSome ↔
    (PerParent.answer store.connector position (l.plain infos) v).toOption.isSome ∧
      ∀ last, (l.visit position v).Leads store last → last.ShowsSpare infos store

namespace Visit

variable {store infos} {visit : Visit}

/-- A row can be shown exactly if it can be shown without metadata, and so can all spare rows
below it. -/
theorem isSome_finish_iff {target : Target}
    (below : ∀ link ∈ target.links, Splits store infos link.2) (row : Row) :
    (visit.finish store target row).isSome ↔
      ((visit.plain infos).finish store (target.plain infos) row).isSome ∧
        ∀ link ∈ target.links, ∀ last, (link.2.visit (visit.position.add link.1)
          (row.value link.2.association.localColumn)).Leads store last →
            last.ShowsSpare infos store := by
  rw [isSome_finish, isSome_finish, columns_plain, Target.links_plain, List.forall_mem_map,
    and_assoc, ← forall₂_and]
  refine and_congr_right fun _ => forall₂_congr fun link linked => ?_
  rw [below link linked, BoundLink.plain_association]
  rfl

/-- What is asked about pages does not matter to whether there are too many records or none. -/
theorem allows_plain {schema : Schema} (bound : visit.Bound schema) :
    (visit.plain infos).Allows (((visit.plain infos).targets.map fun target =>
        ((visit.plain infos).rows store target).length).sum) ↔
      visit.Allows ((visit.targets.map fun target => (visit.rows store target).length).sum) := by
  by_cases many : visit.many = true
  · exact iff_of_true (.inl many) (.inl many)
  · have same : (visit.plain infos).targets.map (fun target =>
        ((visit.plain infos).rows store target).length) =
        visit.targets.map fun target => (visit.rows store target).length := by
      rw [plain, List.map_map]
      refine List.map_congr_left fun target reached => ?_
      have single : target.connection? = none := by
        obtain f | c | e := target
        · rfl
        · exact absurd (bound.many c reached) many
        · rfl
      have rows := visit.rows_plain infos store target
      rw [single] at rows
      exact congrArg List.length rows
    rw [same]
    rfl

/-- **A visit answers exactly if it does without metadata, and all spare rows from there on can be
shown.** -/
theorem isSome_answer_iff {schema : Schema} (bound : visit.Bound schema)
    (below : ∀ target ∈ visit.targets, ∀ link ∈ target.links, Splits store infos link.2) :
    (visit.answer store).isSome ↔ ((visit.plain infos).answer store).isSome ∧
      ∀ last, visit.Leads store last → last.ShowsSpare infos store := by
  have finish {target : Target} (reached : target ∈ visit.targets) (row : Row) :=
    visit.isSome_finish_iff (below target reached) row
  rw [isSome_answer, isSome_answer]
  constructor
  · rintro ⟨agreed, readable, finished, allowed⟩
    refine ⟨⟨?_, ?_, ?_, (allows_plain bound).mpr allowed⟩, fun last leads => ?_⟩
    · exact (checkOrders_plain infos _ _).trans agreed
    · refine List.forall_mem_map.mpr fun target reached => ?_
      rw [Target.plain_type]
      exact readable target reached
    · refine List.forall_mem_map.mpr fun target reached row present => ?_
      have fetched : row ∈ visit.rows store target := by
        rw [visit.rows_eq infos]
        exact List.mem_append_left _ present
      exact ((finish reached row).mp (finished target reached row fetched)).1
    · cases leads with
      | here =>
        intro target reached row spare
        have fetched : row ∈ visit.rows store target := by
          rw [visit.rows_eq infos]
          exact List.mem_append_right _ spare
        exact ((finish reached row).mp (finished target reached row fetched)).1
      | further reached fetched linked leads =>
        exact ((finish reached _).mp (finished _ reached _ fetched)).2 _ linked last leads
  · rintro ⟨⟨agreed, readable, finished, allowed⟩, shown⟩
    refine ⟨?_, fun target reached => ?_, fun target reached row fetched => ?_,
      (allows_plain bound).mp allowed⟩
    · exact (checkOrders_plain infos _ _).symm.trans agreed
    · rw [← target.plain_type infos]
      exact readable _ (List.mem_map_of_mem reached)
    · refine (finish reached row).mpr ⟨?_, fun link linked last leads =>
        shown last (.further reached fetched linked leads)⟩
      rw [visit.rows_eq infos] at fetched
      rcases List.mem_append.mp fetched with present | spare
      · exact finished _ (List.mem_map_of_mem reached) row present
      · exact shown visit .here target reached row spare

end Visit

/-- A parent without a value is not visited for any row. -/
theorem rows_of_null {store : Memory} (position : Path) (l : BoundLink) {v : Value}
    (null : v.isNull) (target : Target) : (l.visit position v).rows store target = [] := by
  have none : (l.visit position v).passing target (store.rowsOf target.type.table) = [] := by
    refine List.filter_eq_nil_iff.mpr fun row _ => ?_
    show ¬ (_ && (!v.isNull && _)) = true
    rw [null, Bool.not_true, Bool.false_and, Bool.and_false]
    exact Bool.false_ne_true
  rw [Visit.rows, none]
  unfold taken
  split <;> simp [sortRows]

/-- What is bound can be split, from the associations at the bottom up. -/
theorem Schema.Binds.splits {schema : Schema} {l : BoundLink} (bound : schema.Binds l) :
    Splits store infos l := by
  induction h : l.height using Nat.strongRecOn generalizing l with
  | ind height ih =>
  intro position v
  cases null : v.isNull with
  | true =>
    have answered (l : BoundLink) :
        (PerParent.answer store.connector position l v).toOption.isSome := by
      rw [← Option.isSome_map (f := Answer.plain), Visit.answer_null position l null]
      rfl
    refine iff_of_true (answered l) ⟨answered (l.plain infos), fun last leads => ?_⟩
    cases leads with
    | here =>
      intro target reached row spare
      have none := (rows_of_null position l null target).symm.trans
        ((l.visit position v).rows_eq infos store target)
      rw [(List.append_eq_nil_iff.mp none.symm).2] at spare
      cases spare
    | further reached fetched =>
      rw [rows_of_null position l null] at fetched
      cases fetched
  | false =>
    rw [Visit.isSome_answer_link position l null,
      Visit.isSome_answer_link position (l.plain infos) null, BoundLink.visit_plain]
    refine Visit.isSome_answer_iff (bound.visit position v) fun target reached link linked => ?_
    obtain ⟨f, asked, member⟩ := Target.mem_links.mp linked
    have lower : link.2.height < l.height :=
      Nat.lt_of_le_of_lt (link_height_le asked member) (target_height_lt reached)
    exact ih link.2.height (h ▸ lower) (bound.below reached linked) rfl

end Split

end GraphRead
