import GraphRead.Binding.Height
import GraphRead.Fallible
import GraphRead.Resolve.Assemble
/-!
Resolving level by level.

The reads of a level are made together, and only when all of them have been answered the reads of
the next level are planned from their records: one for each target of each association, whatever
the number of records. The records are put together from the last level up. `resolveLevel` also
tells which tasks it executed. It comes to an end because the targets of an association lie less
high than the target that asks for it (`levelHeight_planLevel_lt`).

The reads of a level run concurrently, so they may complete in any order. Which one is a parameter.
-/

namespace GraphRead

/-- A read to make: what is asked of one type at one position. -/
structure Task where
  position : Path
  target : Target
  plan : Plan

/-- A read for the children of another one, by the place of that one in its level and the key of
the association. -/
structure ChildTask where
  parent : Nat
  key : String
  task : Task

/-- The order in which the reads of a level complete: for the depth of a level and the number of
its tasks, the places of the tasks. -/
abbrev Completion := Nat → Nat → List Nat

/-- Every read completes as soon as it is made. -/
def Completion.inOrder : Completion := fun _ count => List.range count

/-- Something that was found, and the tasks of every level that was executed for it. -/
structure Resolution (α : Type) where
  levels : List (List Task)
  outcome : Except ResolveError α

/-! ### Planning -/

/-- The reads for the children of some records by an association: one for each target, or none if
no record has a child. -/
def planLink (position : Path) (key : String) (l : BoundLink) (records : List Fetched) :
    Except ResolveError (List Task) := do
  let position := position.add key
  let keys ← (joinKeys records l.association.localColumn).mapError .domain
  if keys.isEmpty then return []
  checkOrders position l.targets
  let join : Join := ⟨l.association.remoteColumn, keys⟩
  return l.targets.map fun target =>
    ⟨position, target, .compile target l.filter (some join) none⟩

/-- The reads for the children of some records by several associations, under their keys. -/
def planLinks (position : Path) (records : List Fetched) :
    List (String × BoundLink) → Except ResolveError (List (String × Task))
  | [] => .ok []
  | (key, l) :: rest => do
    let tasks ← planLink position key l records
    let more ← planLinks position records rest
    return tasks.map (fun task => (key, task)) ++ more

/-- The reads for the children of a task. -/
def planChildren (task : Task) (output : Output) : Except ResolveError (List (String × Task)) :=
  match task.target.record? with
  | none => .ok []
  | some f => planLinks task.position output.records f.links

/-- The reads for the children of a level, the first task of which has the given place. -/
def planLevel (place : Nat) : List (Task × Output) → Except ResolveError (List ChildTask)
  | [] => .ok []
  | (task, output) :: rest => do
    let children ← planChildren task output
    let more ← planLevel (place + 1) rest
    return children.map (fun (key, child) => ⟨place, key, child⟩) ++ more

section Planned

open Fallible

theorem planLink_target {position : Path} {key : String} {l : BoundLink} {records : List Fetched}
    {tasks : List Task} (done : planLink position key l records = .ok tasks) :
    ∀ task ∈ tasks, task.target ∈ l.targets := by
  unfold planLink at done
  simp only [bind_eq_ok] at done
  obtain ⟨keys, _, done⟩ := done
  split at done
  · cases pure_eq_ok.mp done
    intro task present
    cases present
  · obtain ⟨_, _, done⟩ := bind_eq_ok.mp done
    cases pure_eq_ok.mp done
    intro task present
    obtain ⟨target, reached, rfl⟩ := List.mem_map.mp present
    exact reached

/-- What is planned for several associations is planned for one of them. -/
theorem exists_of_mem_planLinks {position : Path} {records : List Fetched}
    {links : List (String × BoundLink)} {entries : List (String × Task)}
    (done : planLinks position records links = .ok entries) {entry : String × Task}
    (planned : entry ∈ entries) :
    ∃ l tasks, (entry.1, l) ∈ links ∧ planLink position entry.1 l records = .ok tasks ∧
      entry.2 ∈ tasks := by
  induction links generalizing entries with
  | nil =>
    cases done
    cases planned
  | cons link rest ih =>
    obtain ⟨key, l⟩ := link
    simp only [planLinks, bind_eq_ok, pure_eq_ok] at done
    obtain ⟨here, first, more, later, rfl⟩ := done
    rcases List.mem_append.mp planned with mine | others
    · obtain ⟨task, made, rfl⟩ := List.mem_map.mp mine
      exact ⟨l, here, List.mem_cons_self, first, made⟩
    · obtain ⟨l', tasks, linked, made⟩ := ih later others
      exact ⟨l', tasks, List.mem_cons_of_mem _ linked, made⟩

/-- What is planned below a level is planned for an association of one of its tasks, whose place
is not before that of the first task. -/
theorem exists_of_mem_planLevel {place : Nat} {executed : List (Task × Output)}
    {children : List ChildTask} (done : planLevel place executed = .ok children)
    {child : ChildTask} (planned : child ∈ children) :
    place ≤ child.parent ∧ ∃ parent ∈ executed, ∃ f l tasks,
      parent.1.target.record? = some f ∧ (child.key, l) ∈ f.links ∧
        planLink parent.1.position child.key l parent.2.records = .ok tasks ∧
          child.task ∈ tasks := by
  induction executed generalizing place children with
  | nil =>
    cases done
    cases planned
  | cons entry rest ih =>
    obtain ⟨task, output⟩ := entry
    simp only [planLevel, bind_eq_ok, pure_eq_ok] at done
    obtain ⟨here, first, more, later, rfl⟩ := done
    rcases List.mem_append.mp planned with mine | others
    · obtain ⟨made, among, rfl⟩ := List.mem_map.mp mine
      unfold planChildren at first
      split at first
      · cases first
        cases among
      · rename_i f asked
        obtain ⟨l, tasks, linked, reads⟩ := exists_of_mem_planLinks first among
        exact ⟨Nat.le_refl _, _, List.mem_cons_self, f, l, tasks, asked, linked, reads⟩
    · obtain ⟨behind, parent, known, reads⟩ := ih later others
      exact ⟨Nat.le_of_succ_le behind, parent, List.mem_cons_of_mem _ known, reads⟩

end Planned

/-! ### The levels come to an end -/

section Height

/-- One more than the height of the highest target of some tasks, and zero if there is no task. -/
def levelHeight : List Task → Nat
  | [] => 0
  | task :: rest => max (task.target.height + 1) (levelHeight rest)

theorem height_lt_levelHeight {task : Task} {tasks : List Task} (present : task ∈ tasks) :
    task.target.height < levelHeight tasks := by
  induction tasks with
  | nil => cases present
  | cons first rest ih =>
    simp only [levelHeight]
    rcases List.mem_cons.mp present with rfl | later
    · omega
    · have := ih later
      omega

theorem levelHeight_le {tasks : List Task} {bound : Nat}
    (below : ∀ task ∈ tasks, task.target.height < bound) : levelHeight tasks ≤ bound := by
  induction tasks with
  | nil => simp [levelHeight]
  | cons first rest ih =>
    have here := below first List.mem_cons_self
    have later := ih fun task present => below task (List.mem_cons_of_mem _ present)
    simp only [levelHeight]
    omega

/-- The children of a level lie less high than the level. -/
theorem levelHeight_planLevel_lt {place : Nat} {tasks : List Task} {outputs : List Output}
    {children : List ChildTask} (some_task : tasks ≠ [])
    (done : planLevel place (tasks.zip outputs) = .ok children) :
    levelHeight (children.map ChildTask.task) < levelHeight tasks := by
  have positive : 0 < levelHeight tasks := by
    cases tasks with
    | nil => exact absurd rfl some_task
    | cons first rest => simp only [levelHeight]; omega
  suffices levelHeight (children.map ChildTask.task) ≤ levelHeight tasks - 1 by omega
  refine levelHeight_le fun task present => ?_
  obtain ⟨child, planned, rfl⟩ := List.mem_map.mp present
  obtain ⟨-, parent, executed, f, l, read, asked, linked, made, among⟩ :=
    exists_of_mem_planLevel done planned
  have := Target.height_lt asked linked (planLink_target made _ among)
  have := height_lt_levelHeight (List.of_mem_zip executed).1
  omega

end Height

/-! ### Executing and assembling -/

/-- Files the outputs of a level as they come in, each in the place of its task. The first failure
that comes in ends the level. -/
def gather (places : List Output) :
    List (Nat × Except ResolveError Output) → Except ResolveError (List Output)
  | [] => .ok places
  | (place, .ok output) :: rest => gather (places.set place output) rest
  | (_, .error e) :: _ => .error e

/-- Executes the tasks of a level. The order of completion is a list of their places. -/
def executeLevel (connector : Connector) (maxBindValues : Option Nat) (order : List Nat)
    (tasks : List Task) : Except ResolveError (List Output) :=
  let answers := tasks.map fun task => task.plan.execute connector maxBindValues
  gather (tasks.map fun _ => .empty)
    (order.filterMap fun place => answers[place]?.map fun answer => (place, answer))

/-- The outputs of the children of a task, under the keys of their associations. -/
def childrenOf (place : Nat) (children : List (ChildTask × Output)) : List (String × Output) :=
  children.filterMap fun (child, output) =>
    if child.parent = place then some (child.key, output) else none

/-- Completes the outputs of a level, the last one first, with the outputs of its children. The
first task has the given place. -/
def assembleLevel (children : List (ChildTask × Output)) (place : Nat) :
    List (Task × Output) → Except ResolveError (List Output)
  | [] => .ok []
  | (task, output) :: rest => do
    let later ← assembleLevel children (place + 1) rest
    let first ← assemble task.position task.target (childrenOf place children) output
    return first :: later

/-- Resolves the tasks of a level, which lies at a depth below the root fields. -/
def resolveLevel (connector : Connector) (maxBindValues : Option Nat) (completion : Completion)
    (depth : Nat) (tasks : List Task) : Resolution (List Output) :=
  if _ended : tasks = [] then ⟨[], .ok []⟩
  else
    match executeLevel connector maxBindValues (completion depth tasks.length) tasks with
    | .error e => ⟨[tasks], .error e⟩
    | .ok outputs =>
      match _planned : planLevel 0 (tasks.zip outputs) with
      | .error e => ⟨[tasks], .error e⟩
      | .ok children =>
        let below := resolveLevel connector maxBindValues completion (depth + 1)
          (children.map ChildTask.task)
        ⟨tasks :: below.levels, do
          let found ← below.outcome
          assembleLevel (children.zip found) 0 (tasks.zip outputs)⟩
termination_by levelHeight tasks
decreasing_by exact levelHeight_planLevel_lt _ended _planned

end GraphRead
