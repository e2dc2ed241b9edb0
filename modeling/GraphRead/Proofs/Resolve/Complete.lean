import GraphRead.Proofs.Success
import GraphRead.Resolve.Level
/-!
In which order the reads of a level complete.

As long as every read completes once (`Completion.Complete`), the outputs of a level are those of
its tasks, each in the place of its task, and the level fails if one of the tasks does
(`executeLevel_toOption`): outputs that come in later do not touch what is there, and no output is
missing in the end. A level and what is planned from its outputs make the resolution
(`resolveLevel_cons`).
-/

namespace GraphRead

open Success

/-- Every read of every level completes once. -/
def Completion.Complete (completion : Completion) : Prop :=
  ∀ depth count, (completion depth count).Perm (List.range count)

theorem Completion.inOrder_complete : inOrder.Complete := fun _ _ => .rfl

/-- Outputs that come in one after the other are filed in their places. -/
theorem gather_ok (places : List Output) (outs : List (Nat × Output)) :
    gather places (outs.map fun entry => (entry.1, .ok entry.2)) =
      .ok (outs.foldl (fun places entry => places.set entry.1 entry.2) places) := by
  induction outs generalizing places with
  | nil => rfl
  | cons entry rest ih => exact ih (places.set entry.1 entry.2)

/-- One failure is enough for the level to fail. -/
theorem gather_error {places : List Output}
    {entries : List (Nat × Except ResolveError Output)} (place : Nat) (e : ResolveError)
    (failed : (place, .error e) ∈ entries) : (gather places entries).toOption = none := by
  induction entries generalizing places with
  | nil => cases failed
  | cons entry rest ih =>
    obtain ⟨first, answer⟩ := entry
    cases answer with
    | error e => rfl
    | ok output =>
      rcases List.mem_cons.mp failed with here | later
      · cases here
      · exact ih later

/-- What is in a place after some outputs have been filed. -/
theorem getElem?_foldl_set {outs : List Output} (order : List Nat) (places : List Output)
    (long : places.length = outs.length) (i : Nat) :
    ((order.filterMap fun p => outs[p]?.map fun out => (p, out)).foldl
      (fun places entry => places.set entry.1 entry.2) places)[i]? =
      if i ∈ order then outs[i]? else places[i]? := by
  induction order generalizing places with
  | nil => rfl
  | cons p rest ih =>
    rw [List.filterMap_cons]
    by_cases within : p < outs.length
    · simp only [List.getElem?_eq_getElem within, Option.map_some, List.foldl_cons]
      rw [ih _ (by rw [List.length_set]; exact long), List.getElem?_set]
      by_cases later : i ∈ rest
      · rw [if_pos later, if_pos (List.mem_cons_of_mem _ later)]
      · by_cases same : p = i
        · subst same
          rw [if_neg later, if_pos rfl, if_pos (by omega), if_pos List.mem_cons_self,
            List.getElem?_eq_getElem within]
        · rw [if_neg later, if_neg same, if_neg]
          intro known
          rcases List.mem_cons.mp known with here | there
          · exact same here.symm
          · exact later there
    · simp only [List.getElem?_eq_none (Nat.le_of_not_lt within), Option.map_none]
      rw [ih places long]
      by_cases same : i = p
      · subst same
        have beyond : places[i]? = none := List.getElem?_eq_none (by omega)
        rw [if_pos List.mem_cons_self, List.getElem?_eq_none (Nat.le_of_not_lt within), beyond]
        split <;> rfl
      · simp [same]

section Level

variable (connector : Connector) (size : Option Nat) {order : List Nat} {tasks : List Task}
  (every : order.Perm (List.range tasks.length))

include every

/-- A level fails if one of its tasks does, whenever that one completes. -/
theorem executeLevel_error {task : Task} (present : task ∈ tasks) {e : ResolveError}
    (failed : task.plan.execute connector size = .error e) :
    (executeLevel connector size order tasks).toOption = none := by
  obtain ⟨place, within, here⟩ := List.mem_iff_getElem.mp present
  refine gather_error place e (List.mem_filterMap.mpr ⟨place, ?_, ?_⟩)
  · exact every.mem_iff.mpr (List.mem_range.mpr within)
  · rw [List.getElem?_map, List.getElem?_eq_getElem within, here]
    simp only [Option.map_some, failed]

/-- A level whose tasks all succeed yields their outputs in the order of the tasks. -/
theorem executeLevel_ok {outs : List Output}
    (made : (tasks.map fun task => task.plan.execute connector size) = outs.map .ok) :
    executeLevel connector size order tasks = .ok outs := by
  have long : tasks.length = outs.length := by
    have same := congrArg List.length made
    rwa [List.length_map, List.length_map] at same
  have entries : (order.filterMap fun place =>
      (outs.map (Except.ok (ε := ResolveError)))[place]?.map fun answer => (place, answer)) =
      (order.filterMap fun p => outs[p]?.map fun out => (p, out)).map
        fun entry => (entry.1, .ok entry.2) := by
    rw [List.map_filterMap]
    refine congrArg (order.filterMap ·) (funext fun p => ?_)
    rw [List.getElem?_map]
    cases outs[p]? <;> rfl
  unfold executeLevel
  simp only [made]
  rw [entries, gather_ok]
  refine congrArg Except.ok (List.ext_getElem? fun i => ?_)
  rw [getElem?_foldl_set order _ (by rw [List.length_map, long])]
  by_cases among : i ∈ order
  · rw [if_pos among]
  · have beyond : tasks.length ≤ i := by
      rw [every.mem_iff, List.mem_range] at among
      omega
    rw [if_neg among, List.getElem?_eq_none (by simp [beyond]),
      List.getElem?_eq_none (by omega)]

/-- The outputs of a level are those of its tasks, in whatever order they come in. -/
theorem executeLevel_toOption :
    (executeLevel connector size order tasks).toOption =
      tasks.mapM fun task => (task.plan.execute connector size).toOption := by
  cases done : tasks.mapM fun task => (task.plan.execute connector size).toOption with
  | none =>
    obtain ⟨task, present, failed⟩ := mapM_eq_none.mp done
    cases answer : task.plan.execute connector size with
    | ok output =>
      rw [answer] at failed
      cases failed
    | error e => exact executeLevel_error connector size every present answer
  | some outs =>
    have made := map_eq_of_mapM done fun task _ out answered => (toOption_eq_some.mp answered).symm
    rw [executeLevel_ok connector size every made.symm, toOption_ok]

end Level

/-- One level of a resolution, and what lies below it. -/
theorem resolveLevel_cons (connector : Connector) (size : Option Nat) (completion : Completion)
    (depth : Nat) {tasks : List Task} (some_task : tasks ≠ []) :
    resolveLevel connector size completion depth tasks =
      match executeLevel connector size (completion depth tasks.length) tasks with
      | .error e => ⟨[tasks], .error e⟩
      | .ok outputs =>
        match planLevel 0 (tasks.zip outputs) with
        | .error e => ⟨[tasks], .error e⟩
        | .ok children =>
          let below := resolveLevel connector size completion (depth + 1)
            (children.map ChildTask.task)
          ⟨tasks :: below.levels, do
            let found ← below.outcome
            assembleLevel (children.zip found) 0 (tasks.zip outputs)⟩ := by
  rw [resolveLevel, dif_neg some_task]
  cases executeLevel connector size (completion depth tasks.length) tasks with
  | error e => rfl
  | ok outputs =>
    dsimp only
    split
    · rename_i planned
      rw [planned]
    · rename_i planned
      rw [planned]

/-- The tasks of a level are the first that are executed. -/
theorem exists_levels_below (connector : Connector) (size : Option Nat) (completion : Completion)
    (depth : Nat) {tasks : List Task} (some_task : tasks ≠ []) :
    ∃ below, (resolveLevel connector size completion depth tasks).levels = tasks :: below := by
  rw [resolveLevel_cons connector size completion depth some_task]
  split
  · exact ⟨[], rfl⟩
  · split
    · exact ⟨[], rfl⟩
    · exact ⟨_, rfl⟩

end GraphRead
