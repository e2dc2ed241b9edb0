import GraphRead.Proofs.PerParent.Roots
import GraphRead.Proofs.Resolve.Descent
import GraphRead.Proofs.Resolve.Issued
import Mathlib
/-!
How many reads a resolution makes.

The places of the tree of what is bound are the root targets, and below each place the targets of
its associations (`Spot.below`). The tasks of a level stand at places of one depth, no two of them
at the same place (`Descends.spots`), so there are no more levels than the tree has layers
(`Descends.length_le`), and no more reads than the places cost.

* `resolveReads_budget` — the number of levels, of tasks and of reads.
-/

namespace GraphRead

open Success PerParent

/-! ### Places -/

/-- A place in the tree of what is bound: a position, and one of the targets there. -/
abbrev Spot := Path × Target

namespace Spot

/-- The places below a place, which are the targets of its associations. -/
def below (spot : Spot) : List Spot :=
  (spot.2.record?.map fun f => f.links.flatMap fun (key, l) =>
    l.targets.map fun target => (spot.1.add key, target)).getD []

/-- The places at a depth below some places. -/
def layer (spots : List Spot) : Nat → List Spot
  | 0 => spots
  | depth + 1 => (layer spots depth).flatMap below

theorem layer_flatMap_below (spots : List Spot) (depth : Nat) :
    layer (spots.flatMap below) depth = layer spots (depth + 1) := by
  induction depth with
  | zero => rfl
  | succ depth ih => exact congrArg (List.flatMap below) ih

/-- Fewer places have fewer places below them. -/
theorem layer_sublist {some_of spots : List Spot} (among : some_of.Sublist spots) (depth : Nat) :
    (layer some_of depth).Sublist (layer spots depth) := by
  induction depth with
  | zero => exact among
  | succ depth ih => exact ih.flatMap below

end Spot

namespace Task

/-- The place at which a task reads. -/
def spot (task : Task) : Spot := (task.position, task.target)

/-- The keys of a task are distinct values, none of which is null. -/
def Keyed (task : Task) : Prop :=
  ∀ join, task.plan.join = some join →
    join.keys.Pairwise Value.Differ ∧ ∀ key ∈ join.keys, key.isNull = false

end Task

/-- The children of an executed task stand at places below it. -/
theorem Task.children_spots (task : Task) (output : Output) :
    ((task.children output).map Task.spot).Sublist task.spot.below := by
  unfold children Spot.below
  show List.Sublist _ ((task.target.record?.map _).getD [])
  cases task.target.record? with
  | none => exact .refl _
  | some f =>
    rw [Option.map_some, Option.getD_some, Option.map_some, Option.getD_some, List.map_flatMap]
    refine List.Sublist.flatMap_right f.links fun link _ => ?_
    obtain ⟨key, l⟩ := link
    show ((l.tasks (task.position.add key) output.records).map spot).Sublist
      (l.targets.map fun target => (task.position.add key, target))
    rw [BoundLink.tasks]
    split
    · exact List.nil_sublist _
    · rw [List.map_map]
      exact .refl _

/-- The children of a level stand at places below it. -/
theorem children_spots_sublist (level : List Task) (outputs : List Output) :
    (((level.zip outputs).flatMap fun entry => entry.1.children entry.2).map Task.spot).Sublist
      ((level.map Task.spot).flatMap Spot.below) := by
  induction level generalizing outputs with
  | nil => exact List.nil_sublist _
  | cons task rest ih =>
    cases outputs with
    | nil => exact List.nil_sublist _
    | cons output others =>
      rw [List.zip_cons_cons, List.flatMap_cons, List.map_append, List.map_cons,
        List.flatMap_cons]
      exact (task.children_spots output).append (ih others)

section Levels

variable {connector : Connector} {size : Option Nat} {tasks : List Task}
  {levels : List (List Task)}

/-- No place of the tree is read by more than one task. -/
theorem Descends.spots (descends : Descends connector size tasks levels) {depth : Nat}
    {level : List Task} (there : levels[depth]? = some level) :
    (level.map Task.spot).Sublist (Spot.layer (tasks.map Task.spot) depth) := by
  induction descends generalizing depth with
  | ended => cases there
  | failed =>
    cases depth with
    | zero => cases there; exact .refl _
    | succ depth => cases there
  | unplanned =>
    cases depth with
    | zero => cases there; exact .refl _
    | succ depth => cases there
  | @further first outputs levels some_task done ready rest ih =>
    cases depth with
    | zero => cases there; exact .refl _
    | succ depth =>
      rw [← Spot.layer_flatMap_below]
      exact (ih there).trans (Spot.layer_sublist (children_spots_sublist first outputs) depth)

/-- The children of a task lie less high. -/
theorem Task.children_height_lt {task child : Task} {output : Output}
    (present : child ∈ task.children output) : child.target.height < task.target.height := by
  obtain ⟨f, key, l, target, asked, linked, reached, _, rfl⟩ := exists_link present
  exact Target.height_lt asked linked reached

/-- There are no more levels than the tree has layers. -/
theorem Descends.length_le (descends : Descends connector size tasks levels) :
    levels.length ≤ levelHeight tasks := by
  induction descends with
  | ended => exact Nat.zero_le _
  | failed present => exact Nat.succ_le_of_lt (Nat.zero_lt_of_lt (height_lt_levelHeight present))
  | unplanned _ stuck =>
    obtain ⟨entry, present, _⟩ := stuck
    have known := (List.of_mem_zip present).1
    exact Nat.succ_le_of_lt (Nat.zero_lt_of_lt (height_lt_levelHeight known))
  | @further level outputs levels some_task done ready rest ih =>
    have lower : levelHeight ((level.zip outputs).flatMap fun entry => entry.1.children entry.2) ≤
        levelHeight level - 1 := by
      refine levelHeight_le fun child present => ?_
      obtain ⟨entry, executed, own⟩ := List.mem_flatMap.mp present
      have less := Task.children_height_lt own
      have known := height_lt_levelHeight (List.of_mem_zip executed).1
      omega
    obtain ⟨task, present⟩ := List.exists_mem_of_ne_nil level some_task
    have positive := height_lt_levelHeight present
    rw [List.length_cons]
    omega

theorem Task.children_planned {task child : Task} {output : Output}
    (present : child ∈ task.children output) : Planned child := by
  obtain ⟨f, key, l, target, _, _, _, keyed, rfl⟩ := exists_link present
  refine ⟨⟨_, _, _, rfl⟩, fun join joined => ?_⟩
  cases joined
  exact keyed

theorem Task.children_keyed {task child : Task} {output : Output}
    (present : child ∈ task.children output) : child.Keyed := by
  obtain ⟨f, key, l, target, _, _, _, _, rfl⟩ := exists_link present
  intro join joined
  cases joined
  refine ⟨Value.distinct_pairwise _, fun k known => ?_⟩
  have kept := (List.mem_filter.mp (Value.mem_of_mem_distinct known)).2
  simpa using kept

theorem Descends.head (descends : Descends connector size tasks levels) :
    levels[0]?.getD [] = tasks := by
  cases descends with
  | ended => rfl
  | failed => rfl
  | unplanned => rfl
  | further => rfl

/-- A level is followed by the children of all its tasks, if it is followed by any. -/
theorem Descends.next (descends : Descends connector size tasks levels) {depth : Nat}
    {level next : List Task} (there : levels[depth]? = some level)
    (below : levels[depth + 1]? = some next) :
    ∃ outputs, Executed connector size level outputs ∧
      next = (level.zip outputs).flatMap fun entry => entry.1.children entry.2 := by
  induction descends generalizing depth with
  | ended => cases there
  | failed => cases below
  | unplanned => cases below
  | @further first outputs levels some_task done ready rest ih =>
    cases depth with
    | zero =>
      cases there
      refine ⟨outputs, done, ?_⟩
      rw [← rest.head, show levels[0]? = some next from below]
      rfl
    | succ depth => exact ih there below

theorem Executed.succeeds {level : List Task} {outputs : List Output}
    (done : Executed connector size level outputs) {task : Task} (present : task ∈ level) :
    task.succeeds connector size := by
  obtain ⟨output, answer⟩ := forall_of_mapM_ok done task present
  rw [Task.succeeds, answer]
  rfl

/-- A level whose tasks succeed, and whose children can be planned, is followed by them. -/
theorem Descends.exact (descends : Descends connector size tasks levels) {depth : Nat}
    {level : List Task} (there : levels[depth]? = some level) {outputs : List Output}
    (done : Executed connector size level outputs)
    (ready : ∀ entry ∈ level.zip outputs, entry.1.Plannable entry.2) :
    levels[depth + 1]?.getD [] =
      (level.zip outputs).flatMap fun entry => entry.1.children entry.2 := by
  induction descends generalizing depth with
  | ended => cases there
  | @failed first task present fails =>
    cases depth with
    | zero =>
      cases there
      rw [done.succeeds present] at fails
      cases fails
    | succ depth => cases there
  | @unplanned first others executed stuck =>
    cases depth with
    | zero =>
      cases there
      rw [Executed, executed] at done
      cases done
      obtain ⟨entry, present, not_ready⟩ := stuck
      exact absurd (ready entry present) not_ready
    | succ depth => cases there
  | @further first others levels some_task executed _ rest ih =>
    cases depth with
    | zero =>
      cases there
      rw [Executed, executed] at done
      cases done
      exact rest.head
    | succ depth => exact ih there

end Levels

/-! ### Reads -/

namespace Spot

/-- What a place costs for each batch of keys: a request for rows, and one for counts if records are
counted there. -/
def cost (spot : Spot) : Nat := 1 + if spot.2.connection?.any BoundConnection.count then 1 else 0

/-- The places at some depths, starting from the first ones. -/
def upTo (spots : List Spot) (depths : Nat) : List Spot := (List.range depths).flatMap (layer spots)

end Spot

theorem Plan.counts_compile (target : Target) (filter : Filter) (join : Option Join)
    (take : Option Nat) :
    (compile target filter join take).counts = target.connection?.any BoundConnection.count := by
  unfold compile counts
  dsimp only
  cases target.connection? with
  | none => rfl
  | some c => rfl

/-- How many reads a task makes. -/
theorem PerParent.Planned.length_reads {task : Task} (planned : Planned task) (size : Option Nat) :
    (task.reads size).length = task.plan.batches size * task.spot.cost := by
  obtain ⟨filter, join, take, compiled⟩ := planned.compiled
  rw [Task.reads, Plan.length_reads planned.keyed, Spot.cost, Task.spot]
  dsimp only
  rw [compiled, Plan.counts_compile]

/-- Tasks that stand level by level at places of a tree stand all at places of it. -/
theorem map_spot_sublist {levels : List (List Task)} {layer : Nat → List Spot}
    (each : ∀ (depth : Nat) (level : List Task), levels[depth]? = some level →
      (level.map Task.spot).Sublist (layer depth)) :
    (levels.flatten.map Task.spot).Sublist ((List.range levels.length).flatMap layer) := by
  induction levels generalizing layer with
  | nil => exact .refl _
  | cons level rest ih =>
    have later := @ih (fun depth => layer (depth + 1))
      fun depth level there => each (depth + 1) level there
    rw [List.flatten_cons, List.map_append, List.length_cons, List.range_succ_eq_map,
      List.flatMap_cons, List.flatMap_map]
    exact (each 0 level rfl).append later

/-! ### Resolutions -/

namespace RootRead

/-- The places of a root field. -/
def spots (read : RootRead) : List Spot := read.targets.map fun target => (read.position, target)

theorem task_spot (read : RootRead) (target : Target) :
    (read.task target).spot = (read.position, target) := by
  unfold task Task.spot
  cases read.kind <;> rfl

end RootRead

theorem rootTasks_spots (reads : List RootRead) :
    (rootTasks reads).map Task.spot = reads.flatMap RootRead.spots := by
  rw [rootTasks, List.map_flatMap]
  refine List.flatMap_congr fun read _ => ?_
  rw [List.map_map]
  exact List.map_congr_left fun target _ => read.task_spot target

theorem levelHeight_rootTasks (reads : List RootRead) :
    levelHeight (rootTasks reads) ≤ Target.listHeight (reads.flatMap RootRead.targets) + 1 := by
  refine levelHeight_le fun task present => ?_
  obtain ⟨read, asked, own⟩ := List.mem_flatMap.mp present
  obtain ⟨target, reached, rfl⟩ := List.mem_map.mp own
  have same : (read.task target).target = target := congrArg Prod.snd (read.task_spot target)
  rw [same]
  exact Nat.lt_succ_of_le
    (Target.height_le_listHeight (List.mem_flatMap.mpr ⟨read, asked, reached⟩))

/-- How many reads a resolution makes, and an execution of it: as many as the tree of what is bound
has places for, and batches of keys. -/
structure Budget (connector : Connector) (config : Config) (timing : Timing) (reads : List RootRead)
    (resolution : Resolution Response) : Prop where
  /-- There is at most one level more than associations lie below one another. -/
  depth : resolution.levels.length ≤ Target.listHeight (reads.flatMap RootRead.targets) + 1
  /-- No place of the tree is read by more than one task. -/
  once : ∀ (depth : Nat) (level : List Task), resolution.levels[depth]? = some level →
    (level.map Task.spot).Sublist (Spot.layer (reads.flatMap RootRead.spots) depth)
  /-- A task makes a request for rows per batch of keys, and one for counts where these are asked
  for. -/
  costs : ∀ level ∈ resolution.levels, ∀ task ∈ level,
    (task.reads config.maxBindValues).length =
      task.plan.batches config.maxBindValues * task.spot.cost
  /-- The keys that are cut into batches are distinct, and none of them is null. -/
  keyed : ∀ level ∈ resolution.levels, ∀ task ∈ level, task.Keyed
  /-- Nothing else is issued. -/
  issued : (observe connector config timing resolution).reads.Sublist
    (resolution.levels.flatten.flatMap (Task.reads config.maxBindValues))
  /-- If a read may hold any number of keys, what is issued is bounded by the tree. -/
  bounded : config.maxBindValues = none →
    (observe connector config timing resolution).reads.length ≤
      ((Spot.upTo (reads.flatMap RootRead.spots)
        (Target.listHeight (reads.flatMap RootRead.targets) + 1)).map Spot.cost).sum
  /-- The first level reads the targets of the root fields. -/
  first : (∀ read ∈ reads, read.Plannable) → resolution.levels[0]?.getD [] = rootTasks reads
  /-- What is read below a level are targets of associations that have a key. -/
  next : ∀ (depth : Nat) (level next : List Task), resolution.levels[depth]? = some level →
    resolution.levels[depth + 1]? = some next →
      ∃ outputs, Executed connector config.maxBindValues level outputs ∧
        next = (level.zip outputs).flatMap fun entry => entry.1.children entry.2
  /-- If the tasks of a level succeed and what is below it can be planned, all of that is read. -/
  exact : ∀ (depth : Nat) (level : List Task), resolution.levels[depth]? = some level →
    ∀ outputs, Executed connector config.maxBindValues level outputs →
      (∀ entry ∈ level.zip outputs, entry.1.Plannable entry.2) →
        resolution.levels[depth + 1]?.getD [] =
          (level.zip outputs).flatMap fun entry => entry.1.children entry.2
  /-- If all tasks succeed and nothing interrupts the execution, all their reads are issued. -/
  complete : config.queryTimeout = none → timing.cancelAfter = none →
    (∀ level ∈ resolution.levels, ∀ task ∈ level, task.succeeds connector config.maxBindValues) →
      (observe connector config timing resolution).reads =
        resolution.levels.flatten.flatMap (Task.reads config.maxBindValues)

/-- Tasks of a level are planned, and the levels stay within the tree. -/
theorem resolveReads_within (connector : Connector) (size : Option Nat) {completion : Completion}
    (complete : completion.Complete) (reads : List RootRead) :
    let levels := (resolveReads connector size completion reads).levels
    levels.length ≤ Target.listHeight (reads.flatMap RootRead.targets) + 1 ∧
      (∀ (depth : Nat) (level : List Task), levels[depth]? = some level →
        (level.map Task.spot).Sublist (Spot.layer (reads.flatMap RootRead.spots) depth)) ∧
      ∀ level ∈ levels, ∀ task ∈ level, Planned task ∧ task.Keyed := by
  intro levels
  rcases resolveReads_descends connector size complete reads with ⟨_, descends⟩ | ⟨_, none⟩
  · refine ⟨descends.length_le.trans (levelHeight_rootTasks reads), ?_,
      descends.forall_tasks ?_ fun _ present =>
        ⟨Task.children_planned present, Task.children_keyed present⟩⟩
    · intro depth level there
      rw [← rootTasks_spots]
      exact descends.spots there
    · intro task present
      obtain ⟨read, _, own⟩ := List.mem_flatMap.mp present
      obtain ⟨target, _, rfl⟩ := List.mem_map.mp own
      refine ⟨rootTask_planned read target, fun join joined => ?_⟩
      rw [rootTask_join] at joined
      cases joined
  · have none : levels = [] := none
    rw [none]
    refine ⟨Nat.zero_le _, fun depth level there => ?_, fun level listed => nomatch listed⟩
    rw [List.getElem?_nil] at there
    cases there

/-- Where keys are not limited, the reads of planned tasks that stand at places of a tree are no
more than its places cost. -/
theorem length_reads_le {levels : List (List Task)} {spots : List Spot} {depths : Nat}
    (depth : levels.length ≤ depths)
    (once : ∀ (depth : Nat) (level : List Task), levels[depth]? = some level →
      (level.map Task.spot).Sublist (Spot.layer spots depth))
    (planned : ∀ level ∈ levels, ∀ task ∈ level, Planned task) :
    (levels.flatten.flatMap (Task.reads none)).length ≤
      ((Spot.upTo spots depths).map Spot.cost).sum := by
  have each : ∀ task ∈ levels.flatten, (task.reads none).length = task.spot.cost := by
    intro task present
    obtain ⟨level, listed, known⟩ := List.mem_flatten.mp present
    have single : task.plan.batches none = 1 := by
      unfold Plan.batches
      cases task.plan.join with
      | none => rfl
      | some join => rfl
    rw [(planned level listed task known).length_reads none, single, Nat.one_mul]
  have within : (levels.flatten.map Task.spot).Sublist (Spot.upTo spots depths) :=
    (map_spot_sublist once).trans ((List.range_sublist.mpr depth).flatMap _)
  calc (levels.flatten.flatMap (Task.reads none)).length
    _ = (levels.flatten.map fun task => (task.reads none).length).sum := List.length_flatMap
    _ = ((levels.flatten.map Task.spot).map Spot.cost).sum := by
        rw [List.map_map]
        exact congrArg List.sum (List.map_congr_left each)
    _ ≤ ((Spot.upTo spots depths).map Spot.cost).sum :=
        (within.map Spot.cost).sum_le_sum fun _ _ => Nat.zero_le _

/-- **The number of reads is bounded by the query, not by the data.** Every place of the tree of
what is bound is read by at most one task, which makes its reads for each batch of its keys and
nothing else, whatever the data, the limits and the order in which reads complete. Exactly the
places that have a key are read, as long as tasks succeed and the places below can be planned. -/
theorem resolveReads_budget (connector : Connector) (config : Config) (timing : Timing)
    (reads : List RootRead) {completion : Completion} {limit : Nat}
    (allowed : completion.Allowed limit) :
    Budget connector config timing reads
      (resolveReads connector config.maxBindValues completion reads) := by
  have descends := resolveReads_descends connector config.maxBindValues allowed.complete reads
  obtain ⟨depth, once, planned⟩ :=
    resolveReads_within connector config.maxBindValues allowed.complete reads
  have issued := observe_reads_sublist connector config timing
    (resolveReads connector config.maxBindValues completion reads)
  generalize resolveReads connector config.maxBindValues completion reads = resolution at *
  refine ⟨depth, once, fun level listed task known =>
      (planned level listed task known).1.length_reads config.maxBindValues,
    fun level listed task known => (planned level listed task known).2, issued,
    fun unlimited => ?_, fun ready => ?_, ?_, ?_, ?_⟩
  · rw [unlimited] at issued
    exact issued.length_le.trans (length_reads_le depth once
      fun level listed task known => (planned level listed task known).1)
  · rcases descends with ⟨_, descends⟩ | ⟨⟨read, asked, stuck⟩, _⟩
    · exact descends.head
    · exact absurd (ready read asked) stuck
  · intro depth level next there below
    rcases descends with ⟨_, descends⟩ | ⟨_, none⟩
    · exact descends.next there below
    · rw [none] at there
      cases there
  · intro depth level there outputs done ready
    rcases descends with ⟨_, descends⟩ | ⟨_, none⟩
    · exact descends.exact there done ready
    · rw [none] at there
      cases there
  · exact fun patient going succeed => observe_reads_eq connector patient going succeed

/-! ### A feed of two types -/

namespace Feed

def user : ObjectType := ⟨"User", "users", "id", .always, []⟩

def entries : Association :=
  ⟨"feed", .oneToMany, "Entry", "id", "user_id", true, some [⟨"title", .ascending⟩], []⟩

/-- The entries of a type in the feed, by their titles. -/
def connection (type table key : String) : BoundConnection :=
  ⟨⟨type, table, key, .always, []⟩, [⟨"title", .ascending⟩], .forward 5 none, none, none, false,
    true⟩

/-- Posts and videos, whose primary keys have different names. -/
def feed : BoundLink :=
  ⟨entries, .always,
    [.connection (connection "Post" "posts" "id"),
      .connection (connection "Video" "videos" "code")]⟩

/-- Asks for the feed of the first user. -/
def lookup : RootRead :=
  ⟨"user", .always, [.field ⟨user, [("feed", .link feed)]⟩], .single (.int 1)⟩

def store : Memory := ⟨[("users", [[("id", .int 1)]]), ("posts", []), ("videos", [])], []⟩

/-- What the read of the user yields. -/
def found : Output := ⟨[⟨⟨user, ["id"], [.int 1], none, []⟩, [], none⟩], .none⟩

theorem budget_feed : Completion.inOrder.Allowed 1 ∧
    Budget store.connector .default .instant [lookup]
      (resolveReads store.connector Config.default.maxBindValues .inOrder [lookup]) :=
  ⟨Completion.inOrder_allowed Nat.zero_lt_one,
    resolveReads_budget store.connector .default .instant [lookup]
      (Completion.inOrder_allowed Nat.zero_lt_one)⟩

/-- Everything that is read succeeds, and the feed has a key. Still it is not read, since posts and
videos do not agree on its order. -/
theorem feed_unread :
    (resolveReads store.connector none .inOrder [lookup]).levels = [rootTasks [lookup]] ∧
      (∀ task ∈ rootTasks [lookup], task.succeeds store.connector none) ∧
      Executed store.connector none (rootTasks [lookup]) [found] ∧
      feed.keys found.records ≠ [] ∧
      ∀ task ∈ rootTasks [lookup], task.position ≠ lookup.position.add "feed" := by
  have executed : Executed store.connector none (rootTasks [lookup]) [found] := by cbv
  refine ⟨by cbv, fun task present => executed.succeeds present, executed, ?_, ?_⟩
  · have keys : feed.keys found.records = [.int 1] := by cbv
    rw [keys]
    exact List.cons_ne_nil _ _
  · exact List.forall_mem_singleton.mpr (by decide)

end Feed

end GraphRead
