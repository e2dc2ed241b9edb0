import GraphRead.Proofs.Page.Located
/-!
The number of entries of a list.

A page tells how many rows its list has, if that is asked: the rows of all types of its place that
are to be listed, whatever page of them is shown (`Place.Found.total`). Counts take no part in the
seek of a page and in its limit, so only the filter of the place and the value of the parent tell
which rows are counted.
-/

namespace GraphRead

open PerParent Success

namespace Place

/-- How many rows of a type are to be listed. -/
def counted (place : Place) (store : Memory) (type : ObjectType) : Nat :=
  (store.rowsOf type.table).countP fun row =>
    type.scope.matches row && place.filter.matches row && place.joins row

/-- How many rows of some types are to be listed. -/
def total (place : Place) (store : Memory) (types : List ObjectType) : Nat :=
  (types.map (place.counted store)).sum

variable {store : Memory} {place : Place} {c : BoundConnection}

/-- The count of a read of the children of one parent. -/
theorem countAll_childOutput {position : Path} {l : BoundLink} {v : Value} {out : Output}
    (counts : c.count) (done : childOutput store position l v (.connection c) = some out) :
    out.tally.countAll = (l.place v).counted store c.type := by
  rw [childOutput_eq store [v]] at done
  obtain ⟨rows, there, done⟩ := Option.bind_eq_some_iff.mp done
  obtain ⟨records, -, rfl⟩ := Option.map_eq_some_iff.mp done
  have asked : (joinedTask position l [v] (.connection c)).plan.counts := counts
  have passes : (only l.association.remoteColumn v
        (joinedTask position l [v] (.connection c)).plan.filter).matches =
      fun row => c.type.scope.matches row && (l.place v).filter.matches row &&
        (l.place v).joins row := by
    funext row
    show (only l.association.remoteColumn v (.allOf [c.type.scope, l.filter])).matches row = _
    rw [only, Filter.matches_pair, Filter.matches_pair, Filter.matches_equals]
    rfl
  have known : store.rowsOf c.type.table = rows := table?_eq_some there
  rw [counted, known]
  dsimp only
  rw [if_pos asked, passes]
  rfl

/-- The count of a read of a root list. -/
theorem countAll_root {read : RootRead} (many : read.kind = .many) {out : Output}
    (counts : c.count) (done : finished store none (read.task (.connection c)) = some out) :
    out.tally.countAll = read.place.counted store c.type := by
  have plan : (read.task (.connection c)).plan = read.place.plan (.connection c) := by
    rw [RootRead.task, many]
    rfl
  have asked : (read.place.plan (.connection c)).counts := counts
  have passes : (read.place.plan (.connection c)).filter.matches =
      fun row => c.type.scope.matches row && read.place.filter.matches row &&
        read.place.joins row := by
    funext row
    show (Filter.allOf [c.type.scope, read.filter]).matches row = _
    rw [Filter.matches_pair]
    exact (Bool.and_true _).symm
  rw [finished, plan, Plan.execute_plain store (rfl : (read.place.plan (.connection c)).join = none)
    (Plan.compile_covered ..), Option.bind_assoc] at done
  obtain ⟨rows, there, done⟩ := Option.bind_eq_some_iff.mp done
  rw [map_bind_completeOutput] at done
  obtain ⟨records, -, rfl⟩ := Option.map_eq_some_iff.mp done
  have known : store.rowsOf c.type.table = rows := table?_eq_some there
  rw [counted, known]
  dsimp only
  rw [if_pos asked, passes]
  rfl

/-- The counts of the targets of a place add up to the number of rows that are to be listed. -/
theorem totalCount_of_lists (place : Place) {read : Target → Option Output} {outputs : List Output}
    (made : place.targets.mapM read = some outputs)
    (lists : ∀ target ∈ place.targets, ∃ own, target = .connection own ∧ own.count)
    (each : ∀ own out, own.count → read (.connection own) = some out →
      out.tally.countAll = place.counted store own.type) :
    totalCount outputs = place.total store (place.targets.map Target.type) := by
  rw [totalCount_eq, total, List.map_map]
  refine congrArg List.sum (map_eq_of_mapM made fun target reached out done => ?_)
  obtain ⟨own, rfl, counts⟩ := lists target reached
  exact each own out counts done

/-- No row joins a parent whose value is null. -/
theorem total_of_null {l : BoundLink} {v : Value} (null : v.isNull) (types : List ObjectType) :
    (l.place v).total store types = 0 := by
  have none (type : ObjectType) : (l.place v).counted store type = 0 := by
    refine List.countP_eq_zero.mpr fun row _ => ?_
    have unjoined : (l.place v).joins row = false := by
      show (!v.isNull && row.has l.association.remoteColumn v) = false
      rw [null]
      rfl
    rw [unjoined, Bool.and_false]
    exact Bool.false_ne_true
  rw [total, List.map_congr_left fun type _ => none type]
  simp

/-! ### The total of a page -/

section Together

variable {schema : Schema} (together : schema.Together place.targets)
  (asked : .connection c ∈ place.targets)

include together asked

/-- If one list of a place is to be counted, all of them are. -/
theorem counts_of_together (counts : c.count) :
    ∀ target ∈ place.targets, ∃ own, target = .connection own ∧ own.count := by
  rcases together.alike with none | ⟨shared, -, each⟩
  · exact absurd (none _ asked) nofun
  · obtain ⟨_, same, isShared, -⟩ := each _ asked
    cases same
    intro target reached
    obtain ⟨own, rfl, ownShared, -⟩ := each target reached
    have same : own.count = c.count := congrArg Shared.count (ownShared.trans isShared.symm)
    exact ⟨own, rfl, same ▸ counts⟩

/-- The page of a list tells the number that was found, if it is asked. -/
theorem total_mergeMany (fetched : List Fetched) {found : Nat}
    (same : c.count → found = place.total store (place.targets.map Target.type)) :
    (mergeMany fetched (place.targets.head?.bind Target.connection?) found).total =
      if c.count then place.total store (place.targets.map Target.type) else 0 := by
  obtain ⟨head, -, shared, isHead⟩ := exists_head together asked
  have count : head.count = c.count := congrArg Shared.count shared
  rw [isHead]
  show (if head.count then found else 0) = _
  rw [count]
  split
  · exact same ‹_›
  · rfl

end Together

/-- The answer of an association is a page only if it leads to many records. -/
theorem eq_mergeMany_of_linkAnswer {position : Path} {l : BoundLink} {counts : ByValue Nat}
    {v : Value} {children : List Fetched} {page : Page Record}
    (done : linkAnswer position l counts v children = .ok (.many page)) :
    page = mergeMany children (l.targets.head?.bind Target.connection?)
      ((counts.get? v).getD 0) := by
  unfold linkAnswer at done
  split at done
  · cases done
    rfl
  · obtain ⟨_, -, same⟩ := Fallible.map_eq_ok.mp done
    cases same

/-- **The total of a page is the number of rows of its list**, and zero where it is not asked. -/
theorem Found.total {schema : Schema} {page : Page Record}
    (found : place.Found schema store (.many page)) (asked : .connection c ∈ place.targets) :
    page.total = if c.count then place.total store (place.targets.map Target.type) else 0 := by
  obtain ⟨together, -, answered⟩ := found
  have lists := counts_of_together together asked
  cases answered with
  | @root read _ done =>
    obtain ⟨-, outputs, made, answered⟩ := rootAnswer_ok done
    unfold RootRead.answer at answered
    split at answered
    · obtain ⟨_, -, same⟩ := Fallible.map_eq_ok.mp answered
      cases same
    · rename_i many
      cases answered
      exact total_mergeMany together asked _ fun counts =>
        totalCount_of_lists read.place made (lists counts) fun own out => countAll_root many
  | @link position l v _ done =>
    cases null : v.isNull with
    | true =>
      rw [answer_of_null _ _ _ null] at done
      rw [eq_mergeMany_of_linkAnswer done]
      exact total_mergeMany together asked _ fun _ => (total_of_null null _).symm
    | false =>
      obtain ⟨-, outputs, made, answered⟩ := answer_ok done null
      rw [eq_mergeMany_of_linkAnswer answered]
      refine total_mergeMany together asked _ fun counts => ?_
      rw [ByValue.get?, if_pos BEq.rfl, Option.getD_some]
      exact totalCount_of_lists (l.place v) made (lists counts) fun own out => countAll_childOutput

end Place

end GraphRead
