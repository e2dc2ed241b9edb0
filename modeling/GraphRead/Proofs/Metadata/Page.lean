import GraphRead.Proofs.Metadata.Spare
/-!
What is shown does not depend on what is asked about pages.

Where a visit answers with and without metadata, it answers with the same records
(`Visit.answer_eq`). A list is merged from the fetched rows of all its types, of which the first so
many are the same, and the page needs no more than these (`Pagination.cut_mergeSort_parts`). Only a
page from the end of its list could differ, if rows tie: then the spare row takes the place of
another one. That no rows tie there is `Visit.Untied`.
-/

namespace GraphRead

open PerParent Success Memory

/-- No rows of a visit tie where it asks for a page from the end of a list: its types have different
names, and the rows of each table different primary keys. -/
def Visit.Untied (visit : Visit) (store : Memory) : Prop :=
  ∀ c, .connection c ∈ visit.targets → c.pagination.isBackward = true →
    (visit.targets.map fun target => target.type.name).Nodup ∧
      ∀ target ∈ visit.targets, (store.rowsOf target.type.table).Pairwise fun l r =>
        (l.value target.type.primaryKey == r.value target.type.primaryKey) = false

/-! ### What is merged -/

namespace Visit

variable {store : Memory} {visit : Visit}

/-- The rows that are fetched for all targets. -/
def entries (visit : Visit) (store : Memory) : List Entry :=
  visit.targets.flatMap fun target => (visit.rows store target).map (Entry.mk target)

/-- The record of a row, completed if this is possible. -/
def shown (visit : Visit) (store : Memory) (e : Entry) : Fetched :=
  (visit.finish store e.target e.row).getD ((visit.plan e.target).recordFor e.row)

theorem shown_eq {e : Entry} {r : Fetched} (done : visit.finish store e.target e.row = some r) :
    visit.shown store e = r := by
  rw [shown, done, Option.getD_some]

/-- Completing a row only adds answers to its record. -/
theorem bare_shown (visit : Visit) (store : Memory) (e : Entry) :
    PerParent.bare (visit.shown store e) = (visit.plan e.target).recordFor e.row := by
  rw [shown]
  cases done : visit.finish store e.target e.row with
  | none => rfl
  | some r => exact (bare_of_finishRow done).1

theorem mem_entries {e : Entry} : e ∈ visit.entries store ↔
    e.target ∈ visit.targets ∧ e.row ∈ visit.rows store e.target :=
  Entry.mem_flatMap

/-- The records of all targets, one for each row. -/
theorem flatten_reads {targets : List Target} {found : List (List Fetched)}
    (done : targets.mapM (visit.reads store) = some found) : found.flatten =
      (targets.flatMap fun target => (visit.rows store target).map (Entry.mk target)).map
        (visit.shown store) := by
  have each : found = targets.map fun target =>
      ((visit.rows store target).map (Entry.mk target)).map (visit.shown store) := by
    rw [← List.map_id found]
    refine map_eq_of_mapM done fun target _ records done => ?_
    obtain ⟨_, -, made⟩ := Option.bind_eq_some_iff.mp done
    rw [id_eq, ← List.map_id records, List.map_map]
    exact map_eq_of_mapM made fun row _ r done => (@shown_eq _ _ ⟨target, row⟩ _ done).symm
  rw [each, List.map_flatMap, List.flatMap_def]

theorem answer_eq_some {answer : Answer Record} (done : visit.answer store = some answer) :
    checkOrders visit.position visit.targets = .ok () ∧
      (visit.merge ((visit.entries store).map (visit.shown store))).toOption.map Answer.plain =
        some answer := by
  obtain ⟨_, agreed, done⟩ := Option.bind_eq_some_iff.mp done
  obtain ⟨found, made, done⟩ := Option.bind_eq_some_iff.mp done
  rw [flatten_reads made] at done
  exact ⟨toOption_eq_some.mp agreed, done⟩

/-- Records compare as the rows that they are made of. -/
theorem compareFetched_shown {order : Order} {l r : Entry}
    (left : ∃ own, l.target = .connection own ∧ own.effectiveOrder = order)
    (right : ∃ own, r.target = .connection own ∧ own.effectiveOrder = order) :
    compareFetched order (visit.shown store l) (visit.shown store r) = l.compare order r := by
  have keyed {e : Entry} (lists : ∃ own, e.target = .connection own ∧ own.effectiveOrder = order) :
      (visit.shown store e).sortKey = order.columns.map e.row.value := by
    obtain ⟨own, same, rfl⟩ := lists
    have bare := congrArg Fetched.sortKey (visit.bare_shown store e)
    rw [same] at bare
    exact bare
  have typed (e : Entry) : (visit.shown store e).record.type = e.target.type :=
    congrArg (fun r => r.record.type) (visit.bare_shown store e)
  rw [compareFetched, keyed left, keyed right, compareKeys_values, typed, typed]
  rfl

/-- What a page shows of the rows that are fetched for all types. -/
theorem plain_merge_of_list {c : BoundConnection} (many : visit.many = true)
    (head : visit.targets.head?.bind Target.connection? = some c)
    (ordered : ∀ target ∈ visit.targets, ∃ own, target = .connection own ∧
      own.effectiveOrder = c.effectiveOrder) :
    (visit.merge ((visit.entries store).map (visit.shown store))).toOption.map Answer.plain =
      some (.many ⟨(c.pagination.cut ((visit.entries store).mergeSort
        (notAfter (Entry.compare c.effectiveOrder)))).map
          fun e => (visit.shown store e).record.plain, 0, none⟩) := by
  have sorted : ((visit.entries store).map (visit.shown store)).mergeSort
      (fun l r => compareFetched c.effectiveOrder l r != .gt) =
      ((visit.entries store).mergeSort (notAfter (Entry.compare c.effectiveOrder))).map
        (visit.shown store) := by
    refine (List.map_mergeSort fun l here r there => ?_).symm
    rw [notAfter, compareFetched_shown (ordered _ (mem_entries.mp here).1)
      (ordered _ (mem_entries.mp there).1)]
  rw [merge, if_pos many, head, mergeMany, sorted, Pagination.cut_map]
  show some (Answer.many ⟨Record.plainEach _, 0, none⟩) = _
  rw [Record.plainEach_eq, List.map_map, List.map_map]
  rfl

/-- What is merged where no list is asked for depends only on what the records show. -/
theorem plain_merge_of_records {other : Visit} {found found' : List Fetched}
    (many : visit.many = other.many) (required : visit.required = other.required)
    (head : visit.targets.head?.bind Target.connection? = none)
    (head' : other.targets.head?.bind Target.connection? = none)
    (same : found.map (fun r => r.record.plain) = found'.map fun r => r.record.plain) :
    (visit.merge found).toOption.map Answer.plain =
      (other.merge found').toOption.map Answer.plain := by
  rw [merge, merge, many]
  split
  · rw [head, head']
    show some (Answer.many ⟨Record.plainEach _, 0, none⟩) =
      some (Answer.many ⟨Record.plainEach _, 0, none⟩)
    rw [Record.plainEach_eq, Record.plainEach_eq, List.map_map, List.map_map]
    exact congrArg (fun records => some (Answer.many ⟨records, 0, none⟩)) same
  · rw [required]
    obtain _ | ⟨one, _ | ⟨two, rest⟩⟩ := found
    · cases List.map_eq_nil_iff.mp same.symm
      cases other.required <;> rfl
    · obtain ⟨one', rfl, shown⟩ := List.map_eq_singleton_iff.mp same.symm
      cases other.required <;> exact congrArg (fun r => some (Answer.one (some r))) shown.symm
    · obtain ⟨one', later, rfl, -, same⟩ := List.map_eq_cons_iff.mp same.symm
      obtain ⟨two', rest', rfl, -, -⟩ := List.map_eq_cons_iff.mp same
      cases other.required <;> rfl

end Visit

/-! ### With and without metadata -/

/-- A row of a target that is asked for its records only. -/
def Entry.plain (infos : Bool) (e : Entry) : Entry := ⟨e.target.plain infos, e.row⟩

section Agree

variable (store : Memory) (infos : Bool)

/-- Where an association answers a parent with and without metadata, it shows the same records. -/
def Agrees (l : BoundLink) : Prop :=
  ∀ position v answer answer',
    (PerParent.answer store.connector position l v).toOption = some answer →
    (PerParent.answer store.connector position (l.plain infos) v).toOption = some answer' →
    (infos = false → ∀ last, ((l.plain infos).visit position v).Leads store last →
      last.Untied store) →
    answer.plain = answer'.plain

namespace Visit

variable {store infos} {visit : Visit}

theorem plain_answersTo_eq {target : Target} {row : Row}
    (below : ∀ link ∈ target.links, Agrees store infos link.2)
    (untied : infos = false → ∀ link ∈ target.links, ∀ last, ((link.2.plain infos).visit
      (visit.position.add link.1) (row.value link.2.association.localColumn)).Leads store last →
        last.Untied store) {answers answers' : List (String × Answer Record)}
    (done : visit.answersTo store target row = some answers)
    (done' : (visit.plain infos).answersTo store (target.plain infos) row = some answers') :
    Answer.plainLinks answers = Answer.plainLinks answers' := by
  rw [answersTo, Target.links_plain, mapM_map] at done'
  rw [Answer.plainLinks_eq, Answer.plainLinks_eq]
  refine map_eq_map_of_mapM done done' fun link linked one other yields yields' => ?_
  obtain ⟨answer, answered, rfl⟩ := Option.map_eq_some_iff.mp yields
  rw [BoundLink.plain_association] at yields'
  obtain ⟨answer', answered', rfl⟩ := Option.map_eq_some_iff.mp yields'
  exact congrArg (Prod.mk link.1)
    (below link linked _ _ answer answer' answered answered' fun drops => untied drops link linked)

/-- A row that can be shown with and without metadata is shown by the same record. -/
theorem plain_finish_eq {target : Target} {row : Row}
    (below : ∀ link ∈ target.links, Agrees store infos link.2)
    (untied : infos = false → ∀ link ∈ target.links, ∀ last, ((link.2.plain infos).visit
      (visit.position.add link.1) (row.value link.2.association.localColumn)).Leads store last →
        last.Untied store) {r r' : Fetched} (done : visit.finish store target row = some r)
    (done' : (visit.plain infos).finish store (target.plain infos) row = some r') :
    r.record.plain = r'.record.plain := by
  rw [finish_eq] at done done'
  split at done
  · split at done'
    · obtain ⟨answers, made, rfl⟩ := Option.map_eq_some_iff.mp done
      obtain ⟨answers', made', rfl⟩ := Option.map_eq_some_iff.mp done'
      have links := plain_answersTo_eq below untied made made'
      have columns := visit.columns_plain infos target
      have type := target.plain_type infos
      show Record.mk target.type (visit.plan target).columns
          ((visit.plan target).columns.map row.value) none (Answer.plainLinks answers) =
        Record.mk (target.plain infos).type ((visit.plain infos).plan (target.plain infos)).columns
          (((visit.plain infos).plan (target.plain infos)).columns.map row.value) none
            (Answer.plainLinks answers')
      rw [links, columns, type]
    · cases done'
  · cases done

/-- The rows that are fetched without metadata, for the targets with it. -/
def kept (visit : Visit) (infos : Bool) (store : Memory) : List Entry :=
  visit.targets.flatMap fun target =>
    ((visit.plain infos).rows store (target.plain infos)).map (Entry.mk target)

theorem entries_plain : (visit.plain infos).entries store =
    (visit.kept infos store).map (Entry.plain infos) := by
  rw [entries, kept, plain, List.flatMap_map, List.map_flatMap]
  refine List.flatMap_congr fun target _ => ?_
  rw [List.map_map]
  rfl

theorem mem_kept {e : Entry} : e ∈ visit.kept infos store ↔ e.target ∈ visit.targets ∧
    e.row ∈ (visit.plain infos).rows store (e.target.plain infos) :=
  Entry.mem_flatMap

/-- The first entries of a list are kept, from the end at which the page begins. -/
theorem map_rows_plain (own : BoundConnection) :
    ((visit.plain infos).rows store ((Target.connection own).plain infos)).map
        (Entry.mk (.connection own)) =
      (((visit.passing (.connection own) (store.rowsOf own.type.table)).map
        (Entry.mk (.connection own))).mergeSort
          (notAfter (own.pagination.toward (Entry.compare own.effectiveOrder)))).take
            (own.plain infos).fetchLimit := by
  have kept : (visit.plain infos).rows store ((Target.connection own).plain infos) =
      (visit.rows store (.connection own)).take (own.plain infos).fetchLimit :=
    visit.rows_plain infos store (.connection own)
  have fetched : (visit.rows store (.connection own)).map (Entry.mk (.connection own)) = _ :=
    own.map_taken _
  rw [kept, List.map_take, fetched, List.take_take, Nat.min_eq_left (own.fetchLimit_plain_le infos)]
  rfl

/-- A visit has no rows that tie if it has none without metadata. -/
theorem untied_of_plain (untied : (visit.plain infos).Untied store) : visit.Untied store := by
  intro c asked backward
  rw [← c.plain_pagination infos] at backward
  obtain ⟨types, keys⟩ := untied _ (List.mem_map_of_mem asked) backward
  have names : (visit.plain infos).targets.map (fun target => target.type.name) =
      visit.targets.map fun target => target.type.name := by
    rw [plain, List.map_map]
    refine List.map_congr_left fun target _ => ?_
    rw [Function.comp_apply, Target.plain_type]
  rw [names] at types
  refine ⟨types, fun target reached => ?_⟩
  have own := keys _ (List.mem_map_of_mem reached)
  rwa [Target.plain_type] at own

/-- Where page infos are kept, everything that is fetched is kept. -/
theorem kept_true : visit.kept true store = visit.entries store := by
  refine List.flatMap_congr fun target _ => ?_
  rw [visit.rows_eq true, visit.spare_true, List.append_nil]

/-- Where no rows tie, the page of what is kept is the page of all rows that qualify, whether page
infos are kept or not. -/
theorem cut_kept {c : BoundConnection} (asked : .connection c ∈ visit.targets)
    (alike : ∀ target ∈ visit.targets, ∃ own, target = .connection own ∧ own.shared = c.shared ∧
      own.effectiveOrder = c.effectiveOrder) (untied : visit.Untied store) (infos : Bool) :
    c.pagination.cut ((visit.kept infos store).mergeSort
        (notAfter (Entry.compare c.effectiveOrder))) =
      c.pagination.cut ((visit.targets.flatMap fun target =>
        (visit.passing target (store.rowsOf target.type.table)).map (Entry.mk target)).mergeSort
          (notAfter (Entry.compare c.effectiveOrder))) := by
  let parts (target : Target) : List Entry :=
    (visit.passing target (store.rowsOf target.type.table)).map (Entry.mk target)
  have kept : visit.kept infos store = visit.targets.flatMap fun target =>
      ((parts target).mergeSort (notAfter (c.pagination.toward (Entry.compare
        c.effectiveOrder)))).take (c.plain infos).fetchLimit := by
    refine List.flatMap_congr fun target reached => ?_
    obtain ⟨own, rfl, shared, order⟩ := alike target reached
    have page : own.pagination = c.pagination := congrArg Shared.pagination shared
    have info : own.pageInfo = c.pageInfo := congrArg Shared.pageInfo shared
    have limit : (own.plain infos).fetchLimit = (c.plain infos).fetchLimit := by
      rw [BoundConnection.fetchLimit, BoundConnection.fetchLimit, own.plain_pagination,
        c.plain_pagination, own.plain_pageInfo, c.plain_pageInfo, page, info]
    rw [map_rows_plain, order, limit, page]
    rfl
  rw [kept]
  refine Pagination.cut_mergeSort_parts _ parts (c.limit_le_fetchLimit_plain infos) _
    fun backward => ?_
  obtain ⟨types, keys⟩ := untied c asked backward
  refine strict_entries types
    (fun target reached => (keys target reached).sublist List.filter_sublist)
    fun target reached => ?_
  obtain ⟨own, rfl, -, order⟩ := alike target reached
  rw [← order]
  exact Order.mem_columns_withTiebreaker own.order own.type.primaryKey

/-- The first list of a position, which says how its page is made, is the first one without
metadata. -/
theorem head_plain : (visit.plain infos).targets.head?.bind Target.connection? =
    (visit.targets.head?.bind Target.connection?).map (BoundConnection.plain infos) := by
  rw [plain, List.head?_map, Option.bind_map, Option.map_bind]
  refine congrArg (Option.bind _) (funext fun target => ?_)
  exact target.plain_connection infos

/-- Entries are sorted without metadata as they are with it. -/
theorem mergeSort_map_plain (order : Order) (entries : List Entry) :
    (entries.map (Entry.plain infos)).mergeSort (notAfter (Entry.compare order)) =
      (entries.mergeSort (notAfter (Entry.compare order))).map (Entry.plain infos) := by
  refine (List.map_mergeSort fun l _ r _ => ?_).symm
  rw [notAfter, notAfter, Entry.compare, Entry.compare, Entry.plain, Entry.plain,
    Target.plain_type, Target.plain_type]

/-- All targets of a list ask for one page and agree on its order. -/
theorem Bound.exists_head {schema : Schema} (bound : visit.Bound schema)
    (agreed : checkOrders visit.position visit.targets = .ok ())
    {c : BoundConnection} (asked : .connection c ∈ visit.targets) :
    ∃ head, .connection head ∈ visit.targets ∧
      visit.targets.head?.bind Target.connection? = some head ∧
      ∀ target ∈ visit.targets, ∃ own, target = .connection own ∧
        own.shared = head.shared ∧ own.effectiveOrder = head.effectiveOrder := by
  obtain ⟨head, asked, -, isHead⟩ :=
    Place.exists_head (show schema.Together (Place.mk visit.targets .always none).targets from
      bound.together) asked
  refine ⟨head, asked, isHead, ?_⟩
  rcases bound.together.alike with none | ⟨shared, -, each⟩
  · exact absurd (none _ asked) (by simp [Target.connection?])
  · obtain ⟨_, same, isShared, -⟩ := each _ asked
    cases same
    intro target reached
    obtain ⟨own, rfl, ownShared, -⟩ := each target reached
    exact ⟨own, rfl, ownShared.trans isShared.symm,
      effectiveOrder_of_checkOrders agreed asked reached⟩

section Merged

variable (shows : ∀ e ∈ visit.kept infos store, (visit.shown store e).record.plain =
  ((visit.plain infos).shown store (e.plain infos)).record.plain)

include shows

/-- A position without lists is merged from the same rows. -/
theorem merge_eq_of_single (single : ∀ target ∈ visit.targets, target.connection? = none) :
    (visit.merge ((visit.entries store).map (visit.shown store))).toOption.map Answer.plain =
      ((visit.plain infos).merge (((visit.plain infos).entries store).map
        ((visit.plain infos).shown store))).toOption.map Answer.plain := by
  have entries : visit.entries store = visit.kept infos store := by
    refine List.flatMap_congr fun target reached => ?_
    rw [rows_plain, single target reached]
  have head : visit.targets.head?.bind Target.connection? = none := by
    refine Option.bind_eq_none_iff.mpr fun target first => ?_
    exact single target (List.mem_of_mem_head? first)
  have head' : (visit.plain infos).targets.head?.bind Target.connection? = none := by
    rw [head_plain, head, Option.map_none]
  refine plain_merge_of_records rfl rfl head head' ?_
  rw [entries_plain, entries, List.map_map, List.map_map, List.map_map]
  exact List.map_congr_left shows

/-- The page of a list is merged from the same rows. -/
theorem merge_eq_of_list {schema : Schema} (bound : visit.Bound schema)
    (agreed : checkOrders visit.position visit.targets = .ok ())
    (untied : infos = false → visit.Untied store)
    {c : BoundConnection} (asked : .connection c ∈ visit.targets) :
    (visit.merge ((visit.entries store).map (visit.shown store))).toOption.map Answer.plain =
      ((visit.plain infos).merge (((visit.plain infos).entries store).map
        ((visit.plain infos).shown store))).toOption.map Answer.plain := by
  have many := bound.many c asked
  have many' : (visit.plain infos).many = true := many
  obtain ⟨head, asked, isHead, alike⟩ := bound.exists_head agreed asked
  have isHead' : (visit.plain infos).targets.head?.bind Target.connection? =
      some (head.plain infos) := by
    rw [head_plain, isHead, Option.map_some]
  have ordered : ∀ target ∈ visit.targets, ∃ own, target = .connection own ∧
      own.effectiveOrder = head.effectiveOrder := fun target reached => by
    obtain ⟨own, same, -, order⟩ := alike target reached
    exact ⟨own, same, order⟩
  have ordered' : ∀ target ∈ (visit.plain infos).targets, ∃ own, target = .connection own ∧
      own.effectiveOrder = (head.plain infos).effectiveOrder := by
    refine List.forall_mem_map.mpr fun target reached => ?_
    obtain ⟨own, rfl, order⟩ := ordered target reached
    refine ⟨own.plain infos, rfl, ?_⟩
    rw [own.plain_effectiveOrder, head.plain_effectiveOrder, order]
  have cut : head.pagination.cut ((visit.entries store).mergeSort
      (notAfter (Entry.compare head.effectiveOrder))) =
      head.pagination.cut ((visit.kept infos store).mergeSort
        (notAfter (Entry.compare head.effectiveOrder))) := by
    rw [← kept_true]
    cases infos with
    | true => rfl
    | false => rw [cut_kept asked alike (untied rfl), cut_kept asked alike (untied rfl)]
  rw [plain_merge_of_list many isHead ordered, plain_merge_of_list many' isHead' ordered',
    entries_plain, head.plain_pagination, head.plain_effectiveOrder, mergeSort_map_plain,
    Pagination.cut_map, cut, List.map_map]
  have same : (head.pagination.cut ((visit.kept infos store).mergeSort
      (notAfter (Entry.compare head.effectiveOrder)))).map
        (fun e => (visit.shown store e).record.plain) =
      (head.pagination.cut ((visit.kept infos store).mergeSort
        (notAfter (Entry.compare head.effectiveOrder)))).map
          ((fun e => ((visit.plain infos).shown store e).record.plain) ∘ Entry.plain infos) := by
    refine List.map_congr_left fun e present => shows e ?_
    exact (List.mergeSort_perm _ _).mem_iff.mp (mem_of_mem_cut present)
  rw [same]

end Merged

/-- **Where a visit answers with and without metadata, it answers the same.** -/
theorem answer_eq {schema : Schema} (bound : visit.Bound schema)
    (below : ∀ target ∈ visit.targets, ∀ link ∈ target.links, Agrees store infos link.2)
    {answer answer' : Answer Record} (done : visit.answer store = some answer)
    (done' : (visit.plain infos).answer store = some answer')
    (untied : infos = false → ∀ last, (visit.plain infos).Leads store last → last.Untied store) :
    answer = answer' := by
  have finished := ((isSome_answer store).mp (Option.isSome_of_eq_some done)).finished
  have finished' := ((isSome_answer store).mp (Option.isSome_of_eq_some done')).finished
  have shows : ∀ e ∈ visit.kept infos store, (visit.shown store e).record.plain =
      ((visit.plain infos).shown store (e.plain infos)).record.plain := by
    intro e present
    obtain ⟨reached, fetched⟩ := mem_kept.mp present
    have fetched' : e.row ∈ visit.rows store e.target := by
      rw [visit.rows_eq infos]
      exact List.mem_append_left _ fetched
    obtain ⟨r, yields⟩ := Option.isSome_iff_exists.mp (finished _ reached _ fetched')
    obtain ⟨r', yields'⟩ := Option.isSome_iff_exists.mp
      (finished' _ (List.mem_map_of_mem reached) _ fetched)
    have own : (visit.plain infos).finish store (e.plain infos).target (e.plain infos).row =
      some r' := yields'
    rw [shown_eq yields, shown_eq own]
    refine plain_finish_eq (below _ reached) (fun drops link linked last leads => ?_) yields yields'
    have linked' : (link.1, link.2.plain infos) ∈ (e.target.plain infos).links := by
      rw [Target.links_plain]
      exact List.mem_map.mpr ⟨link, linked, rfl⟩
    rw [← link.2.plain_association infos] at leads
    exact untied drops last (.further (List.mem_map_of_mem reached) fetched linked' leads)
  obtain ⟨agreed, merged⟩ := answer_eq_some done
  obtain ⟨-, merged'⟩ := answer_eq_some done'
  by_cases lists : ∃ c, .connection c ∈ visit.targets
  · obtain ⟨c, asked⟩ := lists
    have same := merge_eq_of_list shows bound agreed
      (fun drops => untied_of_plain (untied drops _ .here)) asked
    exact Option.some.inj (merged.symm.trans (same.trans merged'))
  · have single : ∀ target ∈ visit.targets, target.connection? = none := by
      rintro (f | c | e) reached
      · rfl
      · exact absurd ⟨c, reached⟩ lists
      · rfl
    have same := merge_eq_of_single shows single
    exact Option.some.inj (merged.symm.trans (same.trans merged'))

end Visit

/-- What is bound shows the same with and without metadata, from the associations at the bottom
up. -/
theorem Schema.Binds.agrees {schema : Schema} {l : BoundLink} (bound : schema.Binds l) :
    Agrees store infos l := by
  induction h : l.height using Nat.strongRecOn generalizing l with
  | ind height ih =>
  intro position v answer answer' done done' untied
  cases null : v.isNull with
  | true =>
    have own := congrArg (Option.map Answer.plain) done
    have own' := congrArg (Option.map Answer.plain) done'
    rw [Visit.answer_null position l null] at own
    rw [Visit.answer_null position (l.plain infos) null, l.plain_association] at own'
    exact Option.some.inj (own.symm.trans own')
  | false =>
    have own := congrArg (Option.map Answer.plain) done
    have own' := congrArg (Option.map Answer.plain) done'
    rw [Visit.answer_link position l null, Option.map_some] at own
    rw [Visit.answer_link position (l.plain infos) null, Option.map_some,
      BoundLink.visit_plain] at own'
    rw [BoundLink.visit_plain] at untied
    refine Visit.answer_eq (bound.visit position v) (fun target reached link linked => ?_)
      own own' untied
    obtain ⟨f, asked, member⟩ := Target.mem_links.mp linked
    have lower : link.2.height < l.height :=
      Nat.lt_of_le_of_lt (link_height_le asked member) (target_height_lt reached)
    exact ih link.2.height (h ▸ lower) (bound.below reached linked) rfl

end Agree

end GraphRead
