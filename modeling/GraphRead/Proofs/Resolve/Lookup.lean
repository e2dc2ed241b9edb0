import GraphRead.Proofs.Binding.Below
import GraphRead.Proofs.Page.Located
import Mathlib
/-!
Looking up a single record.

A lookup asks for the record with a primary key among several types, and reads at most two rows of
each. Two are enough to tell whether there is none, one or more of them: a sum of numbers is known
up to two if each of them is (`min_sum_min`). The rows that are read are the first ones that match
(`RootRead.matching`), and every one of them is completed before the lookup decides, so what the
lookup answers depends on their number only (`RootRead.answer_entries`).

Where nothing fails below them, root fields that are resolved together answer what each of them
answers alone, and the first of them that fails decides how the whole fails
(`resolveReads_eq_response`, `response_eq_parts`).
-/

namespace GraphRead

open Success Memory PerParent

section Resolving

variable {store : Memory} {size : Option Nat}

/-! ### Root fields below which nothing fails -/

/-- Nothing fails below a root field: its types agree on an order, they are read, and every record
that is read is completed with its associations. What the field itself makes of the records may
still be an error. -/
structure RootRead.Undisturbed (store : Memory) (size : Option Nat) (read : RootRead) : Prop where
  agreed : checkOrders read.position read.targets = .ok ()
  completed : ∀ target ∈ read.targets, ∃ output,
    (read.task target).plan.execute store.connector size = .ok output ∧
      ∀ r ∈ output.records, ∃ whole, complete store.connector read.position target r = .ok whole

namespace RootRead.Undisturbed

variable {read : RootRead}

theorem exists_outputs (undisturbed : read.Undisturbed store size) :
    ∃ outputs, (read.targets.map read.task).mapM (finished store size) = some outputs := by
  rw [← Option.isSome_iff_exists, isSome_mapM, List.forall_mem_map]
  intro target reached
  obtain ⟨output, executed, all⟩ := undisturbed.completed target reached
  rw [finished, executed, toOption_ok, Option.bind_some, completeOutput_toOption, Option.isSome_map,
    isSome_mapM]
  intro r present
  obtain ⟨whole, done⟩ := all r present
  show (complete store.connector read.position target r).toOption.isSome
  rw [done]
  rfl

theorem tasks_eq (undisturbed : read.Undisturbed store size) :
    read.tasks = .ok (read.targets.map read.task) := by
  rw [RootRead.tasks, undisturbed.agreed]
  rfl

/-- All that is left is what the field makes of the records. -/
theorem rootAnswer_eq (undisturbed : read.Undisturbed store size) {outputs : List Output}
    (done : (read.targets.map read.task).mapM (finished store size) = some outputs) :
    rootAnswer store.connector read = read.answer outputs := by
  have outputs : (read.targets.mapM fun target => do
      let output ← (read.task target).plan.execute store.connector none
      completeOutput store.connector read.position target output) = .ok outputs := by
    rw [← toOption_eq_some, toOption_mapM, ← done, mapM_map]
    refine mapM_congr fun target _ => ?_
    rw [finished, toOption_bind, execute_alone store.connector (rootTask_join read target) size]
    rfl
  rw [rootAnswer, undisturbed.agreed, outputs]
  rfl

end RootRead.Undisturbed

section Together

variable {reads : List RootRead} (undisturbed : ∀ read ∈ reads, read.Undisturbed store size)

include undisturbed

theorem mapM_tasks_undisturbed :
    reads.mapM RootRead.tasks = .ok (reads.map fun read => read.targets.map read.task) := by
  rw [← toOption_eq_some, toOption_mapM]
  refine mapM_eq_some.mpr ?_
  rw [List.map_map]
  refine List.map_congr_left fun read asked => ?_
  rw [(undisturbed read asked).tasks_eq]
  rfl

/-- Root fields take their own outputs from those of all tasks. -/
theorem rootAnswers_eq : ∃ outputs,
    (reads.map fun read => read.targets.map read.task).flatten.mapM (finished store size) =
        some outputs ∧
      rootAnswers reads outputs = reads.mapM (rootAnswer store.connector) := by
  induction reads with
  | nil => exact ⟨[], rfl, rfl⟩
  | cons read rest ih =>
    obtain ⟨own, here⟩ := (undisturbed read List.mem_cons_self).exists_outputs
    obtain ⟨others, later, same⟩ := ih fun read asked =>
      undisturbed read (List.mem_cons_of_mem _ asked)
    have long : own.length = read.targets.length := by rw [length_of_mapM here, List.length_map]
    refine ⟨own ++ others, ?_, ?_⟩
    · rw [List.map_cons, List.flatten_cons, List.mapM_append, here, later]
      rfl
    · rw [rootAnswers, ← long, List.take_left, List.drop_left, same, List.mapM_cons,
        (undisturbed read List.mem_cons_self).rootAnswer_eq here]

variable {together : List Target → Prop}

/-- Where nothing fails below them, root fields that are resolved level by level answer what they
answer one after the other, down to the error. -/
theorem resolveReads_eq_response {completion : Completion} (every : completion.Complete)
    (formed : ∀ read ∈ reads, ∀ target ∈ read.targets, target.Formed together) :
    (resolveReads store.connector size completion reads).outcome =
      response store.connector reads := by
  obtain ⟨outputs, found, same⟩ := rootAnswers_eq undisturbed
  have planned := mapM_tasks_undisturbed undisturbed
  have each : ∀ task ∈ (reads.map fun read => read.targets.map read.task).flatten,
      Planned task ∧ task.target.Formed together := by
    intro task present
    obtain ⟨read, asked, target, reached, rfl⟩ := exists_of_mem_tasks planned present
    exact ⟨rootTask_planned read target, formed read asked target reached⟩
  have level := resolveLevel_toOption store size every 0 each
  rw [found, toOption_eq_some] at level
  rw [resolveReads, planned]
  dsimp only
  rw [level, response, ← same]
  rfl

end Together

theorem response_singleton (connector : Connector) (read : RootRead) :
    response connector [read] =
      (rootAnswer connector read).map fun answer => [(read.key, answer)] := by
  rw [response, List.mapM_cons]
  cases rootAnswer connector read <;> rfl

theorem flatten_zipWith_key (reads : List RootRead) (answers : List (Answer Record)) :
    (List.zipWith (fun read answer => [(read.key, answer)]) reads answers).flatten =
      (reads.map RootRead.key).zip answers := by
  induction reads generalizing answers with
  | nil => rfl
  | cons read rest ih =>
    cases answers with
    | nil => rfl
    | cons answer more => exact congrArg ((read.key, answer) :: ·) (ih more)

/-- The response to root fields with different keys is put together from the responses to each of
them, and the first of these that is an error is the error of all. -/
theorem response_eq_parts {connector : Connector} {reads : List RootRead}
    (distinct : (reads.map RootRead.key).Nodup) :
    response connector reads =
      (reads.mapM fun read => response connector [read]).map List.flatten := by
  simp only [response_singleton]
  rw [mapM_map_zipWith, response]
  cases done : reads.mapM (rootAnswer connector) with
  | error e => rfl
  | ok answers =>
    have long : answers.length = reads.length :=
      length_of_mapM (by rw [← toOption_mapM, done]; rfl)
    show Except.ok (Keyed.ofList _) = Except.ok _
    rw [flatten_zipWith_key, Keyed.ofList_of_nodup]
    rwa [List.map_fst_zip (by simp [long])]

/-! ### Lookups -/

/-- Two at most of several numbers are enough to know two at most of their sum. -/
theorem min_sum_min (numbers : List Nat) :
    min (numbers.map (min · 2)).sum 2 = min numbers.sum 2 := by
  induction numbers with
  | nil => rfl
  | cons n rest ih =>
    rw [List.map_cons, List.sum_cons, List.sum_cons]
    omega

theorem Memory.sortRows_nil (rows : List Row) : sortRows [] rows = rows :=
  List.mergeSort_of_pairwise (List.pairwise_of_forall fun _ _ => rfl)

namespace RootRead

/-- The rows of a type that a lookup looks for: those in its scope that pass the filters of the
field and have the primary key. Null is no key. -/
def matching (store : Memory) (read : RootRead) (id : Value) (target : Target) : List Row :=
  (store.rowsOf target.type.table).filter fun row =>
    target.type.scope.matches row && read.filter.matches row &&
      (!id.isNull && row.has target.type.primaryKey id)

variable {read : RootRead} {id : Value} (single : read.kind = .single id)

include single

theorem lookup_plan (target : Target) : (read.task target).plan =
    .compile target (.allOf [read.filter, .equals target.type.primaryKey id]) none
      (some lookupLimit) := by
  rw [task, single]

/-- The rows that are read are the first ones that match. -/
theorem chosen_lookup {target : Target} (record : target.connection? = none) (rows : List Row)
    (table : String) (columns : List String) :
    chosen rows (.plain table columns (read.task target).plan.arguments) =
      (rows.filter fun row => target.type.scope.matches row && read.filter.matches row &&
        (!id.isNull && row.has target.type.primaryKey id)).take lookupLimit := by
  have arguments : (read.task target).plan.arguments = ⟨.allOf [target.type.scope,
      .allOf [read.filter, .equals target.type.primaryKey id]], [], some lookupLimit⟩ := by
    rw [lookup_plan single, Plan.arguments, Plan.fetchFilter, Plan.compile, record]
    rfl
  rw [arguments, chosen, sortRows_nil]
  refine congrArg (List.take lookupLimit) (congrArg (rows.filter ·) (funext fun row => ?_))
  rw [Filter.matches_pair, Filter.matches_pair, Filter.matches_equals, Bool.and_assoc]

/-- The first rows of a type that match are read, and all of them are completed. -/
theorem finished_lookup {target : Target} (record : target.connection? = none) :
    finished store size (read.task target) = (store.table? target.type.table).bind fun _ =>
      (((read.matching store id target).take lookupLimit).mapM
        (finishRow store read.position target (read.task target).plan)).map
          fun records => ⟨records, .none⟩ := by
  have uncounted : (read.task target).plan.counts = false := by
    rw [lookup_plan single, Plan.counts, Plan.compile, record]
    rfl
  have table : (read.task target).plan.table = target.type.table := by
    rw [lookup_plan single]
    rfl
  have executed := Plan.execute_plain store (rootTask_join read target)
    (rootTask_planned read target).covered size
  rw [finished, executed, uncounted, table, Option.bind_assoc]
  refine Option.bind_congr fun rows there => ?_
  rw [matching, table?_eq_some there, chosen_lookup single record]
  exact map_bind_completeOutput store read.position target _ _ _

omit single in
/-- The rows that a lookup reads, with the targets that they are read for. -/
def candidates (store : Memory) (read : RootRead) (id : Value) : List Entry :=
  read.targets.flatMap fun target =>
    ((read.matching store id target).take lookupLimit).map (Entry.mk target)

omit single in
theorem length_candidates : (read.candidates store id).length =
    (read.targets.map fun target => min (read.matching store id target).length 2).sum := by
  rw [candidates, List.length_flatMap]
  refine congrArg List.sum (List.map_congr_left fun target _ => ?_)
  rw [List.length_map, List.length_take, Nat.min_comm, lookupLimit]

/-- The completed record of a candidate. -/
def finishEntry (store : Memory) (read : RootRead) (e : Entry) : Option Fetched :=
  finishRow store read.position e.target (read.task e.target).plan e.row

/-- A lookup decides by its candidates alone. -/
theorem rootAnswer_candidates (records : ∀ target ∈ read.targets, target.connection? = none)
    (undisturbed : read.Undisturbed store size) :
    ∃ found, (read.candidates store id).mapM (read.finishEntry store) = some found ∧
      rootAnswer store.connector read = (mergeOne found read.position none).map .one := by
  obtain ⟨outputs, done⟩ := undisturbed.exists_outputs
  refine ⟨outputs.flatMap Output.records, ?_, ?_⟩
  · have each : ∀ target ∈ read.targets, ((finished store size (read.task target)).map
        Output.records) = (((read.matching store id target).take lookupLimit).map
          (Entry.mk target)).mapM (read.finishEntry store) := by
      intro target reached
      have yields : (finished store size (read.task target)).isSome :=
        isSome_mapM.mp (by rw [done]; rfl) _ (List.mem_map_of_mem reached)
      rw [finished_lookup single (records target reached)] at yields ⊢
      cases there : store.table? target.type.table with
      | none =>
        rw [there] at yields
        cases yields
      | some rows =>
        rw [mapM_map, Option.bind_some, Option.map_map]
        exact congrFun Option.map_id _
    rw [candidates, ← mapM_flatMap, ← mapM_congr each, ← mapM_map_result, ← mapM_map, done]
    rfl
  · rw [undisturbed.rootAnswer_eq done, answer, single]

/-- What a lookup comes to, by the number of rows that match. -/
structure Decides (store : Memory) (read : RootRead) (id : Value)
    (outcome : Except ResolveError Response) : Prop where
  none : (read.targets.map fun target => (read.matching store id target).length).sum = 0 →
    outcome = .ok [(read.key, .one .none)]
  /-- The record of the one row is completed with its associations. -/
  one : (read.targets.map fun target => (read.matching store id target).length).sum = 1 →
    ∃ target ∈ read.targets, ∃ row r, read.matching store id target = [row] ∧
      complete store.connector read.position target
        ((read.task target).plan.recordFor row) = .ok r ∧
      outcome = .ok [(read.key, .one (some r.record))]
  /-- Of every type, no more than two rows are reported. -/
  several : 2 ≤ (read.targets.map fun target => (read.matching store id target).length).sum →
    outcome = .error (.tooManyRecords read.position
      (read.targets.map fun target => min (read.matching store id target).length 2).sum)

/-- A lookup decides as if it had read all rows. -/
theorem decides (records : ∀ target ∈ read.targets, target.connection? = .none)
    (undisturbed : read.Undisturbed store size) :
    read.Decides store id (response store.connector [read]) := by
  obtain ⟨found, made, same⟩ := rootAnswer_candidates single records undisturbed
  have long : found.length =
      (read.targets.map fun target => min (read.matching store id target).length 2).sum :=
    (length_of_mapM made).trans length_candidates
  have enough := min_sum_min (read.targets.map fun target => (read.matching store id target).length)
  rw [List.map_map] at enough
  have enough : min found.length 2 = min (read.targets.map fun target =>
      (read.matching store id target).length).sum 2 := long ▸ enough
  rw [response_singleton, same]
  refine ⟨fun zero => ?_, fun one => ?_, fun several => ?_⟩
  · have empty : found = [] := List.eq_nil_of_length_eq_zero (by omega)
    rw [empty]
    rfl
  · obtain ⟨r, rfl⟩ := List.length_eq_one_iff.mp (show found.length = 1 by omega)
    obtain ⟨⟨target, row⟩, alone⟩ :=
      List.length_eq_one_iff.mp ((length_of_mapM made).symm.trans rfl)
    have finished : read.finishEntry store ⟨target, row⟩ = some r := by
      rw [alone] at made
      exact (List.cons.inj (mapM_eq_some.mp made)).1
    have present : ⟨target, row⟩ ∈ read.candidates store id := alone ▸ List.mem_cons_self
    obtain ⟨reached, known⟩ := Entry.mem_flatMap.mp present
    have known : row ∈ read.matching store id target := List.mem_of_mem_take known
    have few : (read.matching store id target).length ≤ 1 :=
      one ▸ List.le_sum_of_mem (List.mem_map_of_mem reached)
    obtain ⟨only, same⟩ := List.length_eq_one_iff.mp
      (Nat.le_antisymm few (List.length_pos_of_mem known))
    rw [same, List.mem_singleton] at known
    exact ⟨target, reached, row, r, known ▸ same, complete_of_finishRow finished, rfl⟩
  · match found with
    | [] | [_] => simp only [List.length_nil, List.length_singleton] at enough; omega
    | first :: second :: rest =>
      rw [← long]
      rfl

end RootRead

/-- **A lookup finds out whether there is no record, one or more, although it reads two rows of each
type at most.** If nothing fails below it, then with no matching row it answers nothing, with a
single one it answers its record with the associations, and with several it fails with the number of
those that it read. Root fields that are resolved together come to what each of them comes to
alone, one after the other. -/
theorem resolveReads_lookup {completion : Completion} (every : completion.Complete)
    {together : List Target → Prop} {reads : List RootRead}
    (distinct : (reads.map RootRead.key).Nodup)
    (formed : ∀ read ∈ reads, ∀ target ∈ read.targets, target.Formed together)
    (undisturbed : ∀ read ∈ reads, read.Undisturbed store size) :
    (∀ read ∈ reads, ∀ id, read.kind = .single id →
      (∀ target ∈ read.targets, target.connection? = none) →
      read.Decides store id (resolveReads store.connector size completion [read]).outcome) ∧
    (resolveReads store.connector size completion reads).outcome =
      (reads.mapM fun read => (resolveReads store.connector size completion [read]).outcome).map
        List.flatten := by
  have alone : ∀ read ∈ reads, (resolveReads store.connector size completion [read]).outcome =
      response store.connector [read] := fun read asked =>
    resolveReads_eq_response (List.forall_mem_singleton.mpr (undisturbed read asked)) every
      (List.forall_mem_singleton.mpr (formed read asked))
  constructor
  · intro read asked id single records
    rw [alone read asked]
    exact RootRead.decides single records (undisturbed read asked)
  · rw [resolveReads_eq_response undisturbed every formed, response_eq_parts distinct,
      mapM_congr alone]

end Resolving

namespace Nodes

def post : ObjectType := ⟨"Post", "posts", "id", .always, []⟩

def photo : ObjectType := ⟨"Photo", "photos", "id", .always, []⟩

/-- A post and a photo share a key, and another post has one of its own. -/
def store : Memory :=
  ⟨[("posts", [[("id", .int 1)], [("id", .int 6)]]), ("photos", [[("id", .int 1)]])], []⟩

/-- The lookup of a post or a photo. -/
def node (key : String) (id : Int64) : RootRead :=
  ⟨key, .always, [.field ⟨post, []⟩, .field ⟨photo, []⟩], .single (.int id)⟩

/-- No associations are asked for, so a lookup is undisturbed if both types can be read. -/
theorem undisturbed_node {key : String} {id : Int64}
    (reads : (node key id).targets.all fun target =>
      (((node key id).task target).plan.execute store.connector none).isOk) :
    (node key id).Undisturbed store none where
  agreed := rfl
  completed := by
    intro target reached
    have read := List.all_eq_true.mp reads target reached
    rw [← isSome_toOption] at read
    obtain ⟨output, executed⟩ := Option.isSome_iff_exists.mp read
    refine ⟨output, toOption_eq_some.mp executed, fun r _ => ⟨r, ?_⟩⟩
    obtain rfl | rfl : target = .field ⟨post, []⟩ ∨ target = .field ⟨photo, []⟩ := by
      simpa [node] using reached
    · exact complete_of_some (f := ⟨post, []⟩) r rfl
    · exact complete_of_some (f := ⟨photo, []⟩) r rfl

/-- A key of nothing, one of a post alone and one of both types. -/
def lookups : List RootRead := [node "none" 9, node "one" 6, node "both" 1]

theorem undisturbed_lookups : ∀ read ∈ lookups, read.Undisturbed store none := by
  simp only [lookups, List.forall_mem_cons]
  exact ⟨undisturbed_node (by cbv), undisturbed_node (by cbv), undisturbed_node (by cbv), nofun⟩

theorem formed_lookups : ∀ read ∈ lookups, ∀ target ∈ read.targets,
    target.Formed fun _ => True := by
  have formed (type : ObjectType) : (Target.field ⟨type, []⟩).Formed fun _ => True :=
    .intro (fun _ asked => by cases asked; exact .nil) (fun _ _ _ _ _ => trivial)
      (fun _ asked _ _ linked => by cases asked; cases linked)
  simp only [lookups, node, List.forall_mem_cons]
  exact ⟨⟨formed post, formed photo, nofun⟩, ⟨formed post, formed photo, nofun⟩,
    ⟨formed post, formed photo, nofun⟩, nofun⟩

/-- Each of the lookups comes to what it should, and the ambiguous one fails all three. -/
theorem resolveReads_lookup_nodes :
    Completion.inOrder.Complete ∧ (lookups.map RootRead.key).Nodup ∧
      (∀ read ∈ lookups, ∀ target ∈ read.targets, target.Formed fun _ => True) ∧
      (∀ read ∈ lookups, read.Undisturbed store none) ∧
      (resolveReads store.connector none .inOrder [node "none" 9]).outcome =
        .ok [("none", .one none)] ∧
      (∃ record, (resolveReads store.connector none .inOrder [node "one" 6]).outcome =
        .ok [("one", .one (some record))]) ∧
      (resolveReads store.connector none .inOrder lookups).outcome =
        .error (.tooManyRecords (node "both" 1).position 2) := by
  have distinct : (lookups.map RootRead.key).Nodup := by decide
  obtain ⟨alone, together⟩ := resolveReads_lookup Completion.inOrder_complete distinct
    formed_lookups undisturbed_lookups
  have records (key : String) (id : Int64) :
      ∀ target ∈ (node key id).targets, target.connection? = none := by
    simp [node, Target.connection?]
  have zero := (alone (node "none" 9) (by simp [lookups]) (.int 9) rfl (records _ _)).none (by cbv)
  obtain ⟨_, -, _, r, -, -, one⟩ :=
    (alone (node "one" 6) (by simp [lookups]) (.int 6) rfl (records _ _)).one (by cbv)
  have two := (alone (node "both" 1) (by simp [lookups]) (.int 1) rfl (records _ _)).several
    (by cbv)
  refine ⟨Completion.inOrder_complete, distinct, formed_lookups, undisturbed_lookups, zero,
    ⟨r.record, one⟩, ?_⟩
  rw [together]
  simp only [lookups, List.mapM_cons, zero, one, two]
  rfl

end Nodes

end GraphRead
