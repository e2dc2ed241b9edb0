import GraphRead.Proofs.Page.Fetch
import GraphRead.Proofs.PerParent.Execute
import Mathlib.Data.List.Nodup
/-!
Where the answers of a response lie, and what they were made from.

A response answers its root fields, and below every record that it shows the associations that are
asked of the record (`Response.At`). Every one of these answers is the answer of the resolution per
parent at this place (`found_of_at`), by induction on the way down: a record that is shown was
completed for a target of its type, and what it shows of an association is what the association
answers to it (`answer_of_complete`). Nothing that is asked is left without an answer
(`exists_shown`, `Completed.exists_answer`).
-/

namespace GraphRead

open PerParent Success

/-- The place of a root field. -/
def RootRead.place (read : RootRead) : Place := ⟨read.targets, read.filter, none⟩

/-- The place of an association below the records with a value. -/
def BoundLink.place (l : BoundLink) (v : Value) : Place :=
  ⟨l.targets, l.filter, some (l.association.remoteColumn, v)⟩

/-- The records that an answer shows. -/
def Answer.records : Answer Record → List Record
  | .many page => page.records
  | .one record => record.toList

/-- A response answers at a place: at a root field, or at an association that is asked of a record
which is shown further up. -/
inductive Response.At (reads : List RootRead) (response : Response) :
    Place → Answer Record → Prop
  | root {read : RootRead} {answer : Answer Record} (asked : read ∈ reads)
    (shown : (read.key, answer) ∈ response) : response.At reads read.place answer
  | link {place : Place} {above : Answer Record} {record : Record} {target : Target}
    {f : BoundField} {key : String} {l : BoundLink} {answer : Answer Record}
    (upper : response.At reads place above) (listed : record ∈ above.records)
    (reached : target ∈ place.targets) (ofType : target.type = record.type)
    (asked : target.record? = some f) (linked : (key, l) ∈ f.links)
    (shown : (key, answer) ∈ record.links) :
    response.At reads (l.place ((record.get? l.association.localColumn).getD .null)) answer

/-! ### What a completed record shows -/

/-- Whatever a record shows after some associations were answered, it showed before or it is what
one of them answers to the record. -/
theorem answer_of_attached {connector : Connector} {position : Path}
    {links : List (String × BoundLink)} {r r' : Fetched}
    (done : links.foldlM (attachAnswer connector position) r = .ok r') {key : String}
    {answer : Answer Record} (shown : (key, answer) ∈ r'.record.links) :
    (key, answer) ∈ r.record.links ∨ ∃ l, (key, l) ∈ links ∧
      PerParent.answer connector (position.add key) l (joinValue l.association.localColumn r') =
        .ok answer := by
  induction links generalizing r with
  | nil =>
    cases Fallible.pure_eq_ok.mp done
    exact .inl shown
  | cons link rest ih =>
    rw [List.foldlM_cons] at done
    obtain ⟨next, first, done⟩ := Fallible.bind_eq_ok.mp done
    rcases ih done with before | ⟨l, linked, answered⟩
    · obtain ⟨found, answered, attached⟩ := Fallible.bind_eq_ok.mp first
      cases Fallible.pure_eq_ok.mp attached
      rcases List.mem_append.mp before with old | new
      · exact .inl old
      · cases List.mem_singleton.mp new
        have same : joinValue link.2.association.localColumn r' =
            joinValue link.2.association.localColumn r :=
          joinValue_bare ((foldlM_attachAnswer_bare done).trans (attach_bare _ r answer))
        exact .inr ⟨link.2, List.mem_cons_self, same ▸ answered⟩
    · exact .inr ⟨l, List.mem_cons_of_mem _ linked, answered⟩

/-- A record keeps what it shows when further associations are answered. -/
theorem mem_of_attached {connector : Connector} {position : Path}
    {links : List (String × BoundLink)} {r r' : Fetched}
    (done : links.foldlM (attachAnswer connector position) r = .ok r')
    {entry : String × Answer Record} (shown : entry ∈ r.record.links) :
    entry ∈ r'.record.links := by
  induction links generalizing r with
  | nil =>
    cases Fallible.pure_eq_ok.mp done
    exact shown
  | cons link rest ih =>
    rw [List.foldlM_cons] at done
    obtain ⟨next, first, done⟩ := Fallible.bind_eq_ok.mp done
    obtain ⟨found, -, attached⟩ := Fallible.bind_eq_ok.mp first
    cases Fallible.pure_eq_ok.mp attached
    exact ih done (List.mem_append_left _ shown)

/-- A record shows an answer of every association once they all were answered. -/
theorem exists_answer_of_attached {connector : Connector} {position : Path}
    {links : List (String × BoundLink)} {r r' : Fetched}
    (done : links.foldlM (attachAnswer connector position) r = .ok r') {key : String}
    {l : BoundLink} (linked : (key, l) ∈ links) : ∃ answer, (key, answer) ∈ r'.record.links := by
  induction links generalizing r with
  | nil => cases linked
  | cons link rest ih =>
    rw [List.foldlM_cons] at done
    obtain ⟨next, first, done⟩ := Fallible.bind_eq_ok.mp done
    rcases List.mem_cons.mp linked with rfl | later
    · obtain ⟨found, -, attached⟩ := Fallible.bind_eq_ok.mp first
      cases Fallible.pure_eq_ok.mp attached
      exact ⟨found, mem_of_attached done List.mem_concat_self⟩
    · exact ih done later

/-- What a completed record shows of an association is what the association answers to it. -/
theorem answer_of_complete {connector : Connector} {position : Path} {target : Target}
    {f : BoundField} {r r' : Fetched} (asked : target.record? = some f)
    (distinct : (f.links.map Prod.fst).Nodup) (fresh : r.record.links = [])
    (done : complete connector position target r = .ok r') {key : String} {l : BoundLink}
    (linked : (key, l) ∈ f.links) {answer : Answer Record}
    (shown : (key, answer) ∈ r'.record.links) :
    PerParent.answer connector (position.add key) l
      ((r'.record.get? l.association.localColumn).getD .null) = .ok answer := by
  rw [complete_of_some r asked] at done
  rcases answer_of_attached done shown with before | ⟨l', linked', answered⟩
  · rw [fresh] at before
    cases before
  · have found := Keyed.get?_of_mem distinct linked
    rw [Keyed.get?_of_mem distinct linked'] at found
    cases found
    exact answered

/-! ### What an answer shows -/

theorem mem_of_mem_cut {α : Type} {page : Pagination} {items : List α} {a : α}
    (present : a ∈ page.cut items) : a ∈ items := by
  cases page with
  | forward first after => exact List.mem_of_mem_take present
  | backward last before => exact List.mem_of_mem_drop present

/-- A page shows records that were fetched. -/
theorem mem_of_mem_mergeMany {fetched : List Fetched} {connection : Option BoundConnection}
    {total : Nat} {record : Record}
    (listed : record ∈ (mergeMany fetched connection total).records) :
    ∃ r ∈ fetched, r.record = record := by
  unfold mergeMany at listed
  split at listed
  · exact List.mem_map.mp listed
  · obtain ⟨r, present, same⟩ := List.mem_map.mp listed
    exact ⟨r, (List.mergeSort_perm _ _).mem_iff.mp (mem_of_mem_cut present), same⟩

theorem mem_of_mergeOne {fetched : List Fetched} {position : Path} {required : Option Value}
    {record : Record} (done : mergeOne fetched position required = .ok (some record)) :
    ∃ r ∈ fetched, r.record = record := by
  unfold mergeOne at done
  split at done
  · cases done
  · cases done
  · rename_i one
    exact ⟨one, List.mem_cons_self, Option.some.inj (Except.ok.inj done)⟩
  · cases done

theorem mem_of_mergeOne_answer {fetched : List Fetched} {position : Path} {required : Option Value}
    {answer : Answer Record} (done : (mergeOne fetched position required).map .one = .ok answer)
    {record : Record} (listed : record ∈ answer.records) : ∃ r ∈ fetched, r.record = record := by
  obtain ⟨one, merged, rfl⟩ := Fallible.map_eq_ok.mp done
  rw [Option.mem_toList.mp listed] at merged
  exact mem_of_mergeOne merged

/-- An association shows children that were fetched. -/
theorem mem_of_linkAnswer {position : Path} {l : BoundLink} {counts : ByValue Nat} {v : Value}
    {children : List Fetched} {answer : Answer Record}
    (done : linkAnswer position l counts v children = .ok answer) {record : Record}
    (listed : record ∈ answer.records) : ∃ r ∈ children, r.record = record := by
  unfold linkAnswer at done
  split at done
  · cases done
    exact mem_of_mem_mergeMany listed
  · exact mem_of_mergeOne_answer done listed

theorem mem_of_rootAnswer {read : RootRead} {outputs : List Output} {answer : Answer Record}
    (done : read.answer outputs = .ok answer) {record : Record} (listed : record ∈ answer.records) :
    ∃ r ∈ outputs.flatMap Output.records, r.record = record := by
  unfold RootRead.answer at done
  split at done
  · exact mem_of_mergeOne_answer done listed
  · cases done
    exact mem_of_mem_mergeMany listed

/-! ### What is fetched for a place -/

section Rows

variable {store : Memory}

/-- The completed records of the rows that are fetched for a target of a place. -/
def Place.reads (place : Place) (store : Memory) (position : Path) (target : Target) :
    Option (List Fetched) :=
  (store.table? target.type.table).bind fun rows =>
    (place.fetched target rows).mapM (finishRow store position target (place.plan target))

/-- An output has the records that are read for a target of a place. -/
def Place.Serves (place : Place) (store : Memory) (target : Target) (out : Output) : Prop :=
  ∃ position, place.reads store position target = some out.records

/-- Whatever is fetched for a target is to be listed. -/
theorem Place.admits_of_mem_fetched {place : Place} {target : Target} {rows : List Row} {row : Row}
    (present : row ∈ place.fetched target rows) : row ∈ rows ∧ place.admits target row = true := by
  obtain ⟨known, passes⟩ := List.mem_filter.mp
    (Memory.mem_sortRows.mp (Memory.mem_of_mem_taken present))
  obtain ⟨fetched, joined⟩ := Bool.and_eq_true_iff.mp passes
  have own : (Filter.allOf [target.type.scope, place.filter]).matches row :=
    Plan.matches_of_fetchFilter fetched
  rw [Filter.matches_pair] at own
  exact ⟨known, by rw [admits, own, joined]; rfl⟩

/-- A record that was completed for a target. -/
def Completed (store : Memory) (target : Target) (record : Record) : Prop :=
  record.type = target.type ∧ ∃ position r r', r.record.links = [] ∧ r'.record = record ∧
    complete store.connector position target r = .ok r'

/-- A completed record answers whatever is asked of it. -/
theorem Completed.exists_answer {store : Memory} {target : Target} {record : Record}
    (completed : Completed store target record) {f : BoundField}
    (asked : target.record? = some f) {key : String} {l : BoundLink} (linked : (key, l) ∈ f.links) :
    ∃ answer, (key, answer) ∈ record.links := by
  obtain ⟨-, position, r, r', -, rfl, done⟩ := completed
  rw [complete_of_some r asked] at done
  exact exists_answer_of_attached done linked

/-- A record that was made from a row which is to be listed at a place, and completed for a target
of the place. -/
def Place.Made (place : Place) (store : Memory) (target : Target) (record : Record) : Prop :=
  Completed store target record ∧ ∃ row ∈ store.rowsOf target.type.table,
    place.admits target row = true ∧ record.bare = place.record ⟨target, row⟩

theorem table?_eq_some {store : Memory} {table : String} {rows : List Row}
    (there : store.table? table = some rows) : store.rowsOf table = rows := by
  unfold Memory.table? at there
  split at there
  · cases there
  · rw [Memory.rowsOf, there, Option.getD_some]

/-- The record of a row is completed. -/
theorem complete_of_finishRow {position : Path} {target : Target} {plan : Plan} {row : Row}
    {r : Fetched} (done : finishRow store position target plan row = some r) :
    complete store.connector position target (plan.recordFor row) = .ok r := by
  obtain ⟨before, made, completed⟩ := Option.bind_eq_some_iff.mp done
  unfold Plan.readRow at made
  split at made
  · cases made
    exact toOption_eq_some.mp completed
  · cases made

theorem bare_of_finishRow {position : Path} {target : Target} {plan : Plan} {row : Row}
    {r : Fetched} (done : finishRow store position target plan row = some r) :
    bare r = plan.recordFor row ∧ ∃ before, before.record.links = [] ∧
      complete store.connector position target before = .ok r :=
  ⟨complete_bare (complete_of_finishRow done), _, rfl, complete_of_finishRow done⟩

theorem Place.Serves.bare {place : Place} {target : Target} {out : Output}
    (serves : place.Serves store target out) :
    out.records.map PerParent.bare =
      (place.fetched target (store.rowsOf target.type.table)).map
        (place.plan target).recordFor := by
  obtain ⟨position, done⟩ := serves
  obtain ⟨rows, there, made⟩ := Option.bind_eq_some_iff.mp done
  rw [table?_eq_some there]
  exact map_eq_of_mapM made fun row _ r finished => (bare_of_finishRow finished).1

/-- What serves a target is made from rows of its table. -/
theorem Place.Serves.made {place : Place} {target : Target} {out : Output}
    (serves : place.Serves store target out) {r : Fetched} (present : r ∈ out.records) :
    place.Made store target r.record := by
  obtain ⟨position, done⟩ := serves
  obtain ⟨rows, there, made⟩ := Option.bind_eq_some_iff.mp done
  obtain ⟨row, known, finished⟩ := exists_of_mem_mapM made present
  obtain ⟨same, before, fresh, completed⟩ := bare_of_finishRow finished
  have type : (PerParent.bare r).record.type = target.type := by rw [same]; rfl
  obtain ⟨listed, admitted⟩ := Place.admits_of_mem_fetched known
  refine ⟨⟨type, position, before, r, fresh, rfl, completed⟩, row, ?_, admitted,
    congrArg Fetched.record same⟩
  rw [table?_eq_some there]
  exact listed

/-- The read of a target for one parent has the records of the place below the parent. -/
theorem map_records_childOutput (position : Path) (l : BoundLink) (v : Value) (target : Target) :
    (childOutput store position l v target).map Output.records =
      (l.place v).reads store position target := by
  have passes : (only l.association.remoteColumn v ((l.place v).plan target).fetchFilter).matches =
      fun row => ((l.place v).plan target).fetchFilter.matches row && (l.place v).joins row := by
    funext row
    rw [only, Filter.matches_pair, Filter.matches_equals]
    rfl
  rw [childOutput_eq store [v], Option.map_bind, Place.reads]
  refine congrArg (Option.bind _) (funext fun rows => ?_)
  rw [Function.comp_apply, Option.map_map, Place.fetched, ← passes]
  exact Option.map_id'

/-- The read of a target for a root list has the records of the place of the root field. -/
theorem map_records_root {read : RootRead} (many : read.kind = .many) (target : Target) :
    (finished store none (read.task target)).map Output.records =
      read.place.reads store read.position target := by
  have plan : (read.task target).plan = read.place.plan target := by
    rw [RootRead.task, many]
    rfl
  have same : (read.task target).target = target := rfl
  have passes : (fun row => (read.place.plan target).fetchFilter.matches row &&
      read.place.joins row) = (read.place.plan target).fetchFilter.matches := by
    funext row
    exact Bool.and_true _
  rw [finished, same, plan,
    Plan.execute_plain store (rfl : (read.place.plan target).join = none) (Plan.compile_covered ..),
    Option.bind_assoc, Option.map_bind, Place.reads]
  refine congrArg (Option.bind _) (funext fun rows => ?_)
  rw [Function.comp_apply, map_bind_completeOutput, Option.map_map, Place.fetched, passes]
  exact Option.map_id'

theorem serves_of_childOutput {position : Path} {l : BoundLink} {v : Value} {target : Target}
    {out : Output} (done : childOutput store position l v target = some out) :
    (l.place v).Serves store target out :=
  ⟨position, (map_records_childOutput position l v target).symm.trans
    (congrArg (Option.map Output.records) done)⟩

theorem serves_of_root {read : RootRead} (many : read.kind = .many) {target : Target} {out : Output}
    (done : finished store none (read.task target) = some out) :
    read.place.Serves store target out :=
  ⟨read.position, (map_records_root many target).symm.trans
    (congrArg (Option.map Output.records) done)⟩

/-- A lookup differs from a list in its filter and its limit, which do not show in its records. -/
theorem exists_filter_of_task (read : RootRead) (target : Target) :
    ∃ given, (read.task target).plan.filter = .allOf [target.type.scope, given] ∧
      (∀ row, given.matches row → read.filter.matches row) ∧
      (read.task target).plan.type = target.type ∧
      (read.task target).plan.recordFor = (read.place.plan target).recordFor := by
  unfold RootRead.task
  cases read.kind with
  | many => exact ⟨_, rfl, fun _ => id, rfl, rfl⟩
  | single key =>
    refine ⟨_, rfl, fun row passes => ?_, rfl, rfl⟩
    rw [Filter.matches_pair, Bool.and_eq_true] at passes
    exact passes.1

/-- Whatever a root field reads for a target is made from rows of its table. -/
theorem made_of_root {read : RootRead} {target : Target} {out : Output}
    (done : finished store none (read.task target) = some out) {r : Fetched}
    (present : r ∈ out.records) : read.place.Made store target r.record := by
  obtain ⟨output, executed, done⟩ := Option.bind_eq_some_iff.mp done
  rw [completeOutput_toOption] at done
  obtain ⟨records, made, rfl⟩ := Option.map_eq_some_iff.mp done
  obtain ⟨before, known, completed⟩ := exists_of_mem_mapM made present
  have planned := rootTask_planned read target
  obtain ⟨rows, row, there, chosen, rfl⟩ := Plan.mem_execute store planned.covered planned.keyed
    (toOption_eq_some.mp executed) before known
  obtain ⟨listed, passes⟩ := List.mem_filter.mp chosen
  have completed := toOption_eq_some.mp completed
  obtain ⟨given, filter, narrows, type, shown⟩ := exists_filter_of_task read target
  have bare : PerParent.bare r = (read.place.plan target).recordFor row := by
    rw [complete_bare completed, ← shown]
    rfl
  have passes := Plan.matches_of_fetchFilter passes
  rw [filter, Filter.matches_pair, Bool.and_eq_true] at passes
  rw [Plan.table, type] at there
  refine ⟨⟨congrArg (fun r => r.record.type) bare, read.position, _, r, rfl, rfl, completed⟩, row,
    ?_, ?_, congrArg Fetched.record bare⟩
  · rw [table?_eq_some there]
    exact listed
  · rw [Place.admits, passes.1, RootRead.place, narrows row passes.2]
    rfl

end Rows

/-! ### The answers of a response -/

/-- An answer that the resolution per parent gives at a place. -/
inductive Place.Answered (store : Memory) : Place → Answer Record → Prop
  | root {read : RootRead} {answer : Answer Record}
    (done : rootAnswer store.connector read = .ok answer) : Answered store read.place answer
  | link {position : Path} {l : BoundLink} {v : Value} {answer : Answer Record}
    (done : PerParent.answer store.connector position l v = .ok answer) :
    Answered store (l.place v) answer

section Answers

variable {store : Memory}

theorem rootAnswer_ok {read : RootRead} {answer : Answer Record}
    (done : rootAnswer store.connector read = .ok answer) :
    checkOrders read.position read.targets = .ok () ∧ ∃ outputs,
      (read.targets.mapM fun target => finished store none (read.task target)) = some outputs ∧
        read.answer outputs = .ok answer := by
  have done := toOption_eq_some.mpr done
  rw [rootAnswer_toOption store none, mapM_map] at done
  obtain ⟨_, agreed, done⟩ := Option.bind_eq_some_iff.mp done
  obtain ⟨outputs, made, answered⟩ := Option.bind_eq_some_iff.mp done
  exact ⟨toOption_eq_some.mp agreed, outputs, made, toOption_eq_some.mp answered⟩

theorem answer_ok {position : Path} {l : BoundLink} {v : Value} {answer : Answer Record}
    (done : PerParent.answer store.connector position l v = .ok answer)
    (valued : v.isNull = false) :
    checkOrders position l.targets = .ok () ∧ ∃ outputs,
      l.targets.mapM (childOutput store position l v) = some outputs ∧
        linkAnswer position l [(v, totalCount outputs)] v (outputs.flatMap Output.records) =
          .ok answer := by
  have done := toOption_eq_some.mpr done
  rw [answer_toOption store position l valued] at done
  obtain ⟨_, agreed, done⟩ := Option.bind_eq_some_iff.mp done
  obtain ⟨outputs, made, answered⟩ := Option.bind_eq_some_iff.mp done
  exact ⟨toOption_eq_some.mp agreed, outputs, made, toOption_eq_some.mp answered⟩

/-- A root field for many records answers with a page. -/
theorem exists_page_of_rootAnswer {read : RootRead} {answer : Answer Record}
    (many : read.kind = .many) (done : rootAnswer store.connector read = .ok answer) :
    ∃ page, answer = .many page := by
  obtain ⟨-, outputs, -, answered⟩ := rootAnswer_ok done
  rw [RootRead.answer, many] at answered
  cases answered
  exact ⟨_, rfl⟩

/-- An association that leads to many records answers with a page. -/
theorem exists_page_of_answer {position : Path} {l : BoundLink} {v : Value} {answer : Answer Record}
    (many : l.association.isMany)
    (done : PerParent.answer store.connector position l v = .ok answer) :
    ∃ page, answer = .many page := by
  have paged {counts : ByValue Nat} {children : List Fetched}
      (answered : linkAnswer position l counts v children = .ok answer) :
      ∃ page, answer = .many page := by
    rw [linkAnswer, if_pos many] at answered
    cases answered
    exact ⟨_, rfl⟩
  cases null : v.isNull with
  | true =>
    rw [answer_of_null _ _ _ null] at done
    exact paged done
  | false =>
    obtain ⟨-, outputs, -, answered⟩ := answer_ok done null
    exact paged answered

/-- Every record that is shown at a place was made for one of its targets. -/
theorem Place.Answered.made {place : Place} {answer : Answer Record}
    (answered : place.Answered store answer) {record : Record} (listed : record ∈ answer.records) :
    ∃ target ∈ place.targets, place.Made store target record := by
  cases answered with
  | root done =>
    obtain ⟨-, outputs, made, answered⟩ := rootAnswer_ok done
    obtain ⟨r, present, rfl⟩ := mem_of_rootAnswer answered listed
    obtain ⟨out, yielded, there⟩ := List.mem_flatMap.mp present
    obtain ⟨target, reached, read⟩ := exists_of_mem_mapM made yielded
    exact ⟨target, reached, made_of_root read there⟩
  | @link position l v _ done =>
    cases null : v.isNull with
    | true =>
      rw [answer_of_null _ _ _ null] at done
      obtain ⟨r, present, -⟩ := mem_of_linkAnswer done listed
      cases present
    | false =>
      obtain ⟨-, outputs, made, answered⟩ := answer_ok done null
      obtain ⟨r, present, rfl⟩ := mem_of_linkAnswer answered listed
      obtain ⟨out, yielded, there⟩ := List.mem_flatMap.mp present
      obtain ⟨target, reached, read⟩ := exists_of_mem_mapM made yielded
      exact ⟨target, reached, (serves_of_childOutput read).made there⟩

end Answers

/-- What is known of a place in a response: its targets belong together, and its answer is the one
of the resolution per parent. -/
structure Place.Found (schema : Schema) (store : Memory) (place : Place) (answer : Answer Record) :
    Prop where
  together : schema.Together place.targets
  formed : ∀ target ∈ place.targets, target.Formed schema.Together
  answered : place.Answered store answer

/-- What a record that is shown at a place shows of an association is what the association answers
to it. -/
theorem Place.Found.exists_answer {schema : Schema} {store : Memory} {place : Place}
    {above : Answer Record} (found : place.Found schema store above) {record : Record}
    (listed : record ∈ above.records) {target : Target} (reached : target ∈ place.targets)
    (ofType : target.type = record.type) {f : BoundField} (asked : target.record? = some f)
    {key : String} {l : BoundLink} (linked : (key, l) ∈ f.links) {answer : Answer Record}
    (shown : (key, answer) ∈ record.links) : ∃ position, PerParent.answer store.connector position l
      ((record.get? l.association.localColumn).getD .null) = .ok answer := by
  obtain ⟨other, known, ⟨type, position, r, r', fresh, rfl, completed⟩, -⟩ :=
    found.answered.made listed
  obtain rfl := found.together.single target reached other known (ofType.trans type)
  exact ⟨_, answer_of_complete asked ((found.formed target reached).keys_nodup asked) fresh
    completed linked shown⟩

section Shown

variable {connector : Connector} {reads : List RootRead} {response : Response}
  (distinct : (reads.map RootRead.key).Nodup)
  (done : PerParent.response connector reads = .ok response) {read : RootRead}
  (asked : read ∈ reads)

include distinct done asked

/-- Every root field is answered. -/
theorem exists_shown : ∃ answer, (read.key, answer) ∈ response := by
  obtain ⟨answers, made, same⟩ := Fallible.bind_eq_ok.mp done
  cases Fallible.pure_eq_ok.mp same
  have each := toOption_mapM (rootAnswer connector) reads
  rw [made] at each
  have keys : ((reads.map RootRead.key).zip answers).map Prod.fst = reads.map RootRead.key :=
    List.map_fst_zip (by rw [List.length_map]; exact Nat.le_of_eq (length_of_mapM each.symm).symm)
  rw [Keyed.ofList_of_nodup (keys.symm ▸ distinct)]
  have known : read.key ∈ reads.map RootRead.key := List.mem_map_of_mem asked
  rw [← keys] at known
  obtain ⟨⟨_, answer⟩, present, rfl⟩ := List.mem_map.mp known
  exact ⟨answer, present⟩

/-- A root field shows what it answers in the resolution per parent. -/
theorem rootAnswer_of_shown {answer : Answer Record} (shown : (read.key, answer) ∈ response) :
    rootAnswer connector read = .ok answer := by
  obtain ⟨answers, made, same⟩ := Fallible.bind_eq_ok.mp done
  cases Fallible.pure_eq_ok.mp same
  have pair := Keyed.mem_of_mem_ofList shown
  rw [List.zip_map_left] at pair
  obtain ⟨⟨other, found⟩, paired, same⟩ := List.mem_map.mp pair
  obtain ⟨key, rfl⟩ := Prod.mk.inj same
  obtain rfl := List.inj_on_of_nodup_map distinct (List.of_mem_zip paired).1 asked key
  have each := toOption_mapM (rootAnswer connector) reads
  rw [made] at each
  exact toOption_eq_some.mp (eq_some_of_mem_zip each.symm paired)

end Shown

/-- Every answer of a response is the answer of the resolution per parent at its place. -/
theorem found_of_at {schema : Schema} {store : Memory} {reads : List RootRead}
    {response : Response} (distinct : (reads.map RootRead.key).Nodup)
    (formed : ∀ read ∈ reads, schema.Together read.targets ∧
      ∀ target ∈ read.targets, target.Formed schema.Together)
    (done : PerParent.response store.connector reads = .ok response) {place : Place}
    {answer : Answer Record} (here : response.At reads place answer) :
    place.Found schema store answer := by
  induction here with
  | @root read answer asked shown =>
    exact ⟨(formed read asked).1, (formed read asked).2,
      .root (rootAnswer_of_shown distinct done asked shown)⟩
  | link upper listed reached ofType asked linked shown ih =>
    have own := ih.formed _ reached
    obtain ⟨position, answered⟩ := ih.exists_answer listed reached ofType asked linked shown
    exact ⟨own.together_of_mem asked linked, fun child below => own.child asked linked below,
      .link answered⟩

/-! ### Lists -/

/-- The types of a position agree on its order exactly if no two of them differ. -/
theorem checkOrders_eq_ok {position : Path} {targets : List Target} :
    checkOrders position targets = .ok () ↔
      ∀ entry ∈ targetOrders targets, ∀ other ∈ targetOrders targets, other.2 = entry.2 := by
  unfold checkOrders
  cases targetOrders targets with
  | nil => simp
  | cons first rest =>
    dsimp only
    split
    · rename_i none
      have all : ∀ entry ∈ first :: rest, entry.2 = first.2 :=
        List.forall_mem_cons.mpr ⟨rfl, fun entry present => by
          simpa using List.find?_eq_none.mp none entry present⟩
      exact iff_of_true rfl fun entry here other there =>
        (all other there).trans (all entry here).symm
    · rename_i found
      have differ := List.find?_some found
      refine iff_of_false (fun same => nomatch same) fun each => ?_
      have same := each first List.mem_cons_self _
        (List.mem_cons_of_mem _ (List.mem_of_find?_eq_some found))
      exact absurd same (by simpa using differ)

/-- Where the orders of a position are checked, all its lists have the same order. -/
theorem effectiveOrder_of_checkOrders {position : Path} {targets : List Target}
    (agreed : checkOrders position targets = .ok ()) {c own : BoundConnection}
    (asked : .connection c ∈ targets) (reached : .connection own ∈ targets) :
    own.effectiveOrder = c.effectiveOrder := by
  have orders {d : BoundConnection} (there : .connection d ∈ targets) :
      (d.type.name, d.effectiveOrder) ∈ targetOrders targets :=
    List.mem_filterMap.mpr ⟨.connection d, there, rfl⟩
  exact checkOrders_eq_ok.mp agreed _ (orders asked) _ (orders reached)

namespace Place

variable {schema : Schema} {store : Memory} {place : Place} {c : BoundConnection}

theorem lists_of_together (together : schema.Together place.targets)
    (asked : .connection c ∈ place.targets) {position : Path}
    (agreed : checkOrders position place.targets = .ok ()) : place.Lists c := by
  rcases together.alike with none | ⟨shared, -, each⟩
  · exact absurd (none _ asked) (by simp [Target.connection?])
  · obtain ⟨_, same, isShared, -⟩ := each _ asked
    cases same
    refine ⟨fun target reached => ?_⟩
    obtain ⟨own, rfl, ownShared, fits⟩ := each target reached
    exact ⟨own, rfl, ownShared.trans isShared.symm,
      effectiveOrder_of_checkOrders agreed asked reached, fits⟩

/-- The first target speaks for all of them. -/
theorem exists_head (together : schema.Together place.targets)
    (asked : .connection c ∈ place.targets) :
    ∃ head, .connection head ∈ place.targets ∧ head.shared = c.shared ∧
      place.targets.head?.bind Target.connection? = some head := by
  rcases together.alike with none | ⟨shared, -, each⟩
  · exact absurd (none _ asked) (by simp [Target.connection?])
  · obtain ⟨_, same, isShared, -⟩ := each _ asked
    cases same
    obtain ⟨first, rest, shape⟩ := List.exists_cons_of_ne_nil (List.ne_nil_of_mem asked)
    rw [shape] at each ⊢
    obtain ⟨head, rfl, headShared, -⟩ := each first List.mem_cons_self
    exact ⟨head, List.mem_cons_self, headShared.trans isShared.symm, rfl⟩

/-- What serves all targets of a place are the fronts of its list. -/
theorem bare_of_serves {read : Target → Option Output} {outputs : List Output}
    (made : place.targets.mapM read = some outputs)
    (serves : ∀ target out, read target = some out → place.Serves store target out) :
    (outputs.flatMap Output.records).map bare =
      (place.targets.flatMap (place.front store)).map place.shown := by
  have each : outputs.map (fun out => out.records.map bare) = place.targets.map fun target =>
      (place.front store target).map place.shown := by
    refine map_eq_of_mapM made fun target _ out done => ?_
    rw [(serves target out done).bare, front, List.map_map]
    rfl
  rw [List.map_flatMap, List.map_flatMap, List.flatMap_def, List.flatMap_def, each]

/-- Where no row joins the place, the page is empty, and so is the list. -/
theorem shows_of_unjoined (unjoined : ∀ row, place.joins row = false) {head : BoundConnection}
    (shared : head.shared = c.shared) (total : Nat) :
    place.Shows store c (mergeMany [] (some head) total) := by
  have page : head.pagination = c.pagination := congrArg Shared.pagination shared
  have info : head.pageInfo = c.pageInfo := congrArg Shared.pageInfo shared
  have empty : place.entries store c.effectiveOrder = [] := by
    have none (target : Target) : place.listed store target = [] := by
      refine List.map_eq_nil_iff.mpr (List.filter_eq_nil_iff.mpr fun row _ => ?_)
      rw [admits, unjoined, Bool.and_false]
      exact Bool.false_ne_true
    rw [entries, List.flatMap_eq_nil_iff.mpr fun target _ => none target, List.mergeSort_nil]
  unfold mergeMany
  dsimp only
  rw [page, info, List.mergeSort_nil]
  rw [Pagination.cut_nil]
  constructor
  · rw [empty, Pagination.window_eq_cut, Pagination.beyond, List.filter_nil, Pagination.cut_nil]
    rfl
  · rw [empty]
    cases c.pagination <;> rfl

/-- The page that a response shows at the place of a connection is the window of its list. -/
theorem Found.shows {page : Page Record} (found : place.Found schema store (.many page))
    (asked : .connection c ∈ place.targets) (regular : place.Regular store c) :
    place.Shows store c page := by
  obtain ⟨together, formed, answered⟩ := found
  obtain ⟨head, first, shared, isHead⟩ := exists_head together asked
  cases answered with
  | @root read _ done =>
    obtain ⟨agreed, outputs, made, answered⟩ := rootAnswer_ok done
    unfold RootRead.answer at answered
    split at answered
    · obtain ⟨_, -, same⟩ := Fallible.map_eq_ok.mp answered
      cases same
    · rename_i many
      cases answered
      have isHead : read.targets.head?.bind Target.connection? = some head := isHead
      rw [isHead]
      exact mergeMany_shows (bare_of_serves made fun target out => serves_of_root many)
        (lists_of_together together asked agreed) regular shared
        (effectiveOrder_of_checkOrders agreed asked first) _
  | @link position l v _ done =>
    have isHead : l.targets.head?.bind Target.connection? = some head := isHead
    cases null : v.isNull with
    | true =>
      rw [answer_of_null _ _ _ null] at done
      unfold linkAnswer at done
      split at done
      · cases done
        rw [isHead]
        refine shows_of_unjoined (fun row => ?_) shared _
        show (!v.isNull && row.has l.association.remoteColumn v) = false
        rw [null]
        rfl
      · obtain ⟨_, -, same⟩ := Fallible.map_eq_ok.mp done
        cases same
    | false =>
      obtain ⟨agreed, outputs, made, answered⟩ := answer_ok done null
      unfold linkAnswer at answered
      split at answered
      · cases answered
        rw [isHead]
        exact mergeMany_shows (bare_of_serves made fun target out => serves_of_childOutput)
          (lists_of_together together asked agreed) regular shared
          (effectiveOrder_of_checkOrders agreed asked first) _
      · obtain ⟨_, -, same⟩ := Fallible.map_eq_ok.mp answered
        cases same

end Place

end GraphRead
