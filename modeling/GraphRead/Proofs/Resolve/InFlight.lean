import GraphRead.Proofs.Resolve.Complete
import Mathlib.Data.List.Rotate
import Mathlib.Logic.Relation
/-!
Reads in flight: in which orders the reads of a level can complete.

The reads of a level are started in the order of their tasks, as long as fewer than `limit` of them
run, and any read that runs can be the next one to complete. Whatever happens, every read waits,
runs or has completed (`Run.perm`), and no more than `limit` of them run (`Run.bounded`). So in the
end every read has completed once (`Completes.perm`).

A level ends with the first failure that comes in, when other reads may still run or wait. These
could have completed as well (`Run.exists_completes`), and it would have made no difference to what
the level comes to (`exists_completes_of_stopped`).
-/

namespace GraphRead

/-- Where the reads of a level are, by the places of their tasks. Those that have completed are in
the order of their completion. -/
structure InFlight where
  waiting : List Nat
  running : List Nat
  completed : List Nat

namespace InFlight

/-- The reads of a level of so many tasks, none of which has started. -/
def ready (count : Nat) : InFlight := ⟨List.range count, [], []⟩

/-- All reads, wherever they are. -/
def places (s : InFlight) : List Nat := s.waiting ++ s.running ++ s.completed

/-- What can happen next: the first read that waits is started if there is room for it, or one that
runs completes. -/
inductive Step (limit : Nat) : InFlight → InFlight → Prop
  | start {place : Nat} {waiting running completed : List Nat} (room : running.length < limit) :
    Step limit ⟨place :: waiting, running, completed⟩ ⟨waiting, running ++ [place], completed⟩
  | complete {place : Nat} {waiting before behind completed : List Nat} :
    Step limit ⟨waiting, before ++ place :: behind, completed⟩
      ⟨waiting, before ++ behind, completed ++ [place]⟩

/-- What can happen after some time. -/
abbrev Run (limit : Nat) : InFlight → InFlight → Prop := Relation.ReflTransGen (Step limit)

/-- An order in which all reads of a level of so many tasks can complete. -/
def Completes (limit count : Nat) (order : List Nat) : Prop :=
  Run limit (ready count) ⟨[], [], order⟩

variable {limit : Nat} {s t : InFlight}

theorem Step.perm (step : Step limit s t) : t.places.Perm s.places := by
  cases step with
  | @start place waiting running completed room =>
    show ((waiting ++ (running ++ [place])) ++ completed).Perm
      ((place :: waiting ++ running) ++ completed)
    rw [← List.append_assoc]
    exact (List.perm_append_singleton place (waiting ++ running)).append_right completed
  | @complete place waiting before behind completed =>
    show ((waiting ++ (before ++ behind)) ++ (completed ++ [place])).Perm
      ((waiting ++ (before ++ place :: behind)) ++ completed)
    rw [← List.append_assoc _ completed]
    refine (List.perm_append_singleton place _).trans ?_
    rw [← List.cons_append, ← List.cons_append]
    refine List.Perm.append_right completed ?_
    rw [← List.append_assoc, ← List.append_assoc]
    exact List.perm_middle.symm

theorem Step.bounded (step : Step limit s t) (bounded : s.running.length ≤ limit) :
    t.running.length ≤ limit := by
  cases step with
  | start room =>
    rw [List.length_append]
    exact room
  | complete =>
    rw [List.length_append, List.length_cons] at bounded
    rw [List.length_append]
    omega

/-- No read gets lost, and none appears. -/
theorem Run.perm (run : Run limit s t) : t.places.Perm s.places := by
  induction run with
  | refl => exact .rfl
  | tail _ step ih => exact step.perm.trans ih

/-- No more reads run than may. -/
theorem Run.bounded (run : Run limit s t) (bounded : s.running.length ≤ limit) :
    t.running.length ≤ limit := by
  induction run with
  | refl => exact bounded
  | tail _ step ih => exact step.bounded ih

/-- In the end every read has completed once. -/
theorem Completes.perm {count : Nat} {order : List Nat} (completes : Completes limit count order) :
    order.Perm (List.range count) := by
  have all : order.Perm (List.range count ++ [] ++ []) := Run.perm completes
  rwa [List.append_nil, List.append_nil] at all

/-- The reads that run can complete in the order in which they have been started. -/
theorem run_complete (waiting running completed : List Nat) :
    Run limit ⟨waiting, running, completed⟩ ⟨waiting, [], completed ++ running⟩ := by
  induction running generalizing completed with
  | nil => rw [List.append_nil]
  | cons place rest ih =>
    have later := ih (completed ++ [place])
    rw [List.append_assoc] at later
    exact .head (@Step.complete limit place waiting [] rest completed) later

/-- Reads that wait can be started and completed one by one, while others go on running. -/
theorem run_oneByOne {running : List Nat} (room : running.length < limit)
    (waiting completed : List Nat) :
    Run limit ⟨waiting, running, completed⟩ ⟨[], running, completed ++ waiting⟩ := by
  induction waiting generalizing completed with
  | nil => rw [List.append_nil]
  | cons place rest ih =>
    have later := ih (completed ++ [place])
    rw [List.append_assoc] at later
    have done := @Step.complete limit place rest running [] completed
    rw [List.append_nil] at done
    exact .head (.start room) (.head done later)

/-- From everywhere all reads can complete. -/
theorem Run.exists_completes (positive : 0 < limit) {count : Nat}
    (run : Run limit (ready count) s) : ∃ more, Completes limit count (s.completed ++ more) := by
  obtain ⟨waiting, running, completed⟩ := s
  have later := @run_oneByOne limit [] positive waiting (completed ++ running)
  rw [List.append_assoc] at later
  exact ⟨running ++ waiting, (run.trans (run_complete waiting running completed)).trans later⟩

end InFlight

/-- A completion in which at most `limit` reads run at a time. -/
def Completion.Allowed (completion : Completion) (limit : Nat) : Prop :=
  ∀ depth count, InFlight.Completes limit count (completion depth count)

theorem Completion.Allowed.complete {completion : Completion} {limit : Nat}
    (allowed : completion.Allowed limit) : completion.Complete :=
  fun depth count => (allowed depth count).perm

theorem Completion.inOrder_allowed {limit : Nat} (positive : 0 < limit) : inOrder.Allowed limit :=
  fun _ count => InFlight.run_oneByOne positive (List.range count) []

/-- The first read of a level takes as long as all others together. -/
def Completion.firstLast : Completion := fun _ count => (List.range count).rotate 1

theorem Completion.firstLast_allowed {limit : Nat} (several : 1 < limit) :
    firstLast.Allowed limit := by
  intro depth count
  unfold firstLast InFlight.Completes InFlight.ready
  cases List.range count with
  | nil => exact .refl
  | cons first others =>
    rw [List.rotate_cons_succ, List.rotate_zero]
    have started : InFlight.Step limit ⟨first :: others, [], []⟩ ⟨others, [first], []⟩ :=
      .start (Nat.zero_lt_of_lt several)
    exact .head started ((InFlight.run_oneByOne several others []).trans
      (InFlight.run_complete [] [first] others))

/-- What comes in after a failure does not count. -/
theorem gather_append_of_error {places : List Output}
    {entries : List (Nat × Except ResolveError Output)} {e : ResolveError}
    (failed : gather places entries = .error e)
    (later : List (Nat × Except ResolveError Output)) :
    gather places (entries ++ later) = .error e := by
  induction entries generalizing places with
  | nil => cases failed
  | cons entry rest ih =>
    obtain ⟨place, answer⟩ := entry
    cases answer with
    | error e' => exact failed
    | ok output => exact ih failed

/-- A level that has ended with a failure, while other reads still run or wait, ends so as well if
these complete too. -/
theorem exists_completes_of_stopped (connector : Connector) (size : Option Nat) {limit : Nat}
    (positive : 0 < limit) {tasks : List Task} {s : InFlight}
    (run : InFlight.Run limit (.ready tasks.length) s) {e : ResolveError}
    (failed : executeLevel connector size s.completed tasks = .error e) :
    ∃ order, InFlight.Completes limit tasks.length order ∧
      executeLevel connector size order tasks = .error e := by
  obtain ⟨more, completes⟩ := run.exists_completes positive
  refine ⟨s.completed ++ more, completes, ?_⟩
  unfold executeLevel at failed ⊢
  dsimp only at failed ⊢
  rw [List.filterMap_append]
  exact gather_append_of_error failed _

end GraphRead
