/-!
Computations that can fail: what all failures of a whole have in common, from what those of its
parts have in common (`FailsOnly`), and with that what its results have in common (`Yields`).
-/

namespace GraphRead

variable {ε φ α β : Type} {allowed : ε → Prop} {x : Except ε α}

/-- Whatever a computation fails with is allowed. -/
def FailsOnly (allowed : ε → Prop) (x : Except ε α) : Prop := ∀ e, x = .error e → allowed e

namespace FailsOnly

theorem ok (a : α) : FailsOnly allowed (.ok a) := fun _ failed => nomatch failed

theorem error {e : ε} (known : allowed e) : FailsOnly allowed (.error e : Except ε α) := by
  intro e' same
  cases same
  exact known

theorem mono {allowed' : ε → Prop} (first : FailsOnly allowed x)
    (more : ∀ e, allowed e → allowed' e) : FailsOnly allowed' x :=
  fun e failed => more e (first e failed)

/-- A sequence fails with its first part or with what follows. -/
theorem bind {f : α → Except ε β} (first : FailsOnly allowed x)
    (next : ∀ a, x = .ok a → FailsOnly allowed (f a)) : FailsOnly allowed (x >>= f) := by
  cases x with
  | error e => exact error (first e rfl)
  | ok a => exact next a rfl

theorem map (f : α → β) (first : FailsOnly allowed x) : FailsOnly allowed (x.map f) := by
  cases x with
  | error e => exact error (first e rfl)
  | ok a => exact ok (f a)

theorem mapError {y : Except φ α} {f : φ → ε} (known : ∀ e, allowed (f e)) :
    FailsOnly allowed (y.mapError f) := by
  cases y with
  | error e => exact error (known e)
  | ok a => exact ok a

theorem mapM {f : α → Except ε β} {items : List α}
    (each : ∀ item ∈ items, FailsOnly allowed (f item)) : FailsOnly allowed (items.mapM f) := by
  induction items with
  | nil => exact ok []
  | cons item rest ih =>
    rw [List.forall_mem_cons] at each
    rw [List.mapM_cons]
    exact each.1.bind fun _ _ => (ih each.2).bind fun _ _ => ok _

theorem foldlM {f : β → α → Except ε β} {items : List α} (start : β)
    (step : ∀ before, ∀ item ∈ items, FailsOnly allowed (f before item)) :
    FailsOnly allowed (items.foldlM f start) := by
  induction items generalizing start with
  | nil => exact ok start
  | cons item rest ih =>
    rw [List.foldlM_cons]
    exact (step start item List.mem_cons_self).bind fun next _ =>
      ih next fun before item present => step before item (List.mem_cons_of_mem _ present)

end FailsOnly

/-! ### What a computation yields, and what it fails with -/

/-- What a computation yields is good, or what it fails with is a fault. -/
inductive Yields (good : α → Prop) (fault : ε → Prop) : Except ε α → Prop
  | ok {a : α} (isGood : good a) : Yields good fault (.ok a)
  | error {e : ε} (isFault : fault e) : Yields good fault (.error e)

namespace Yields

variable {good : α → Prop} {good' : β → Prop} {fault : ε → Prop} {x : Except ε α}

/-- A computation that fails for nothing but faults, and with a result that is good. -/
theorem intro (fails : FailsOnly fault x) (results : ∀ a, x = .ok a → good a) :
    Yields good fault x := by
  cases x with
  | error e => exact .error (fails e rfl)
  | ok a => exact .ok (results a rfl)

theorem of_failsOnly (fails : FailsOnly fault x) : Yields (fun a => x = .ok a) fault x :=
  intro fails fun _ done => done

theorem failsOnly (yields : Yields good fault x) : FailsOnly fault x := by
  cases yields with
  | ok => exact .ok _
  | error isFault => exact .error isFault

theorem mono {fault' : ε → Prop} (yields : Yields good fault x) (more : ∀ e, fault e → fault' e) :
    Yields good fault' x := by
  cases yields with
  | ok isGood => exact .ok isGood
  | error isFault => exact .error (more _ isFault)

theorem bind {f : α → Except ε β} (first : Yields good fault x)
    (next : ∀ a, x = .ok a → good a → Yields good' fault (f a)) :
    Yields good' fault (x >>= f) := by
  cases first with
  | ok isGood => exact next _ rfl isGood
  | error isFault => exact .error isFault

theorem map {f : α → β} (first : Yields good fault x) (next : ∀ a, good a → good' (f a)) :
    Yields good' fault (x.map f) := by
  cases first with
  | ok isGood => exact .ok (next _ isGood)
  | error isFault => exact .error isFault

theorem mapError {y : Except φ α} {fault' : φ → Prop} {f : φ → ε} (first : Yields good fault' y)
    (next : ∀ e, fault' e → fault (f e)) : Yields good fault (y.mapError f) := by
  cases first with
  | ok isGood => exact .ok isGood
  | error isFault => exact .error (next _ isFault)

/-- An invariant of a walk over a list holds in the end, if every step keeps it. -/
theorem foldlM {f : β → α → Except ε β} {items : List α} {start : β} (begins : good' start)
    (step : ∀ before, good' before → ∀ item ∈ items, Yields good' fault (f before item)) :
    Yields good' fault (items.foldlM f start) := by
  induction items generalizing start with
  | nil => exact .ok begins
  | cons item rest ih =>
    rw [List.foldlM_cons]
    exact (step start begins item List.mem_cons_self).bind fun next _ isGood =>
      ih isGood fun before held item present =>
        step before held item (List.mem_cons_of_mem _ present)

end Yields

/-- What every step of a walk over a list keeps holds wherever the walk comes to its end. -/
theorem foldlM_preserves (holds : β → Prop) {step : β → α → Except ε β} {items : List α}
    {start last : β} (begins : holds start)
    (keeps : ∀ before, ∀ item ∈ items, ∀ after, holds before → step before item = .ok after →
      holds after) (done : items.foldlM step start = .ok last) : holds last := by
  have walk : Yields holds (fun _ => True) (items.foldlM step start) :=
    .foldlM begins fun before held item present =>
      .intro (fun _ _ => trivial) fun after => keeps before item present after held
  rw [done] at walk
  obtain ⟨held⟩ := walk
  exact held

end GraphRead
