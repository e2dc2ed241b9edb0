import GraphRead.Proofs.Binding.Below
import GraphRead.Proofs.Page.Total
import Mathlib.Algebra.Order.BigOperators.Group.List
import Mathlib.Algebra.Order.Ring.Nat
import Mathlib.Data.List.Dedup
/-!
Data in which every association that leads to one record does so.

A store is intact if every value that such an association joins by has at most one row among the
types that the association leads to, and exactly one if the association is required
(`Schema.Intact`). What a query finds below a record are the related rows that pass the filter of
its arguments: never more of them (`total_le_related`), and fewer only where the filter rejects a
related row (`exists_rejected`).
-/

namespace GraphRead

open PerParent Success

/-- How many rows in scope of some types an association relates to a value. -/
def Association.related (a : Association) (store : Memory) (types : List ObjectType) (v : Value) :
    Nat :=
  (types.map fun type => (store.rowsOf type.table).countP fun row =>
    type.scope.matches row && row.has a.remoteColumn v).sum

/-- The distinct object types behind a name. -/
def Schema.Reaches (schema : Schema) (name : String) (types : List ObjectType) : Prop :=
  types.Nodup ∧ ∃ covered, schema.coveredTypes name = .ok covered ∧
    ∀ type, type ∈ types ↔ type ∈ covered

theorem Schema.exists_reaches {schema : Schema} {name : String} {covered : List ObjectType}
    (done : schema.coveredTypes name = .ok covered) :
    ∃ types, schema.Reaches name types ∧ ∀ type, type ∈ types ↔ type ∈ covered := by
  classical
  have same (type : ObjectType) : type ∈ covered.dedup ↔ type ∈ covered := List.mem_dedup
  exact ⟨covered.dedup, ⟨covered.nodup_dedup, covered, done, same⟩, same⟩

theorem Schema.Reaches.eq_singleton {schema : Schema} {name : String} {types : List ObjectType}
    {type : ObjectType} (reaches : schema.Reaches name types)
    (alone : schema.coveredTypes name = .ok [type]) : types = [type] := by
  obtain ⟨distinct, covered, done, same⟩ := reaches
  cases Except.ok.inj (done.symm.trans alone)
  exact List.perm_singleton.mp
    ((List.perm_ext_iff_of_nodup distinct (List.nodup_singleton type)).mpr same)

/-- Every row in scope of a type has, for every association that leads to one record and by which
it joins with a value, at most one related row in scope of the target types, and exactly one if the
association is required. -/
def Schema.Intact (schema : Schema) (store : Memory) : Prop :=
  ∀ type ∈ schema.types.values, ∀ a ∈ type.associations, a.isMany = false →
    ∀ types, schema.Reaches a.target types →
      ∀ row ∈ store.rowsOf type.table, type.scope.matches row →
        (row.value a.localColumn).isNull = false →
          a.related store types (row.value a.localColumn) ≤ 1 ∧
            (a.nullable = false → a.related store types (row.value a.localColumn) = 1)

section Related

variable (store : Memory) (l : BoundLink) {v : Value}

/-- A query finds no more rows than there are related ones. -/
theorem total_le_related (types : List ObjectType) :
    (l.place v).total store types ≤ l.association.related store types v := by
  refine List.sum_le_sum fun type _ => List.countP_mono_left fun row _ found => ?_
  have admitted : (type.scope.matches row && l.filter.matches row &&
      (!v.isNull && row.has l.association.remoteColumn v)) = true := found
  simp only [Bool.and_eq_true] at admitted ⊢
  exact ⟨admitted.1.1, admitted.2.2⟩

/-- Where there is a related row and none is found, the filter rejects a related row. -/
theorem exists_rejected {types covered : List ObjectType} (known : ∀ type ∈ types, type ∈ covered)
    (valued : v.isNull = false) (related : 0 < l.association.related store types v)
    (nothing : (l.place v).total store covered = 0) :
    ∃ type ∈ covered, ∃ row ∈ store.rowsOf type.table, type.scope.matches row ∧
      row.has l.association.remoteColumn v ∧ l.filter.matches row = false := by
  obtain ⟨n, counted, positive⟩ := List.sum_pos_iff_exists_pos_nat.mp related
  obtain ⟨type, ofType, rfl⟩ := List.mem_map.mp counted
  obtain ⟨row, present, joins⟩ := List.countP_pos_iff.mp positive
  rw [Bool.and_eq_true] at joins
  have none : (l.place v).counted store type = 0 :=
    List.sum_eq_zero_iff_forall_eq_nat.mp nothing _ (List.mem_map_of_mem (known type ofType))
  have missed : ¬ (type.scope.matches row && l.filter.matches row &&
      (!v.isNull && row.has l.association.remoteColumn v)) :=
    List.countP_eq_zero.mp none row present
  refine ⟨type, known type ofType, row, present, joins.1, joins.2, Bool.eq_false_iff.mpr ?_⟩
  intro accepted
  rw [joins.1, joins.2, accepted, valued] at missed
  exact missed rfl

end Related

/-! ### What is found below a record -/

/-- Without a page, all rows of a target of a place are read. -/
theorem Place.length_reads {store : Memory} {place : Place} {position : Path} {target : Target}
    (unpaged : target.connection? = none) {records : List Fetched}
    (done : place.reads store position target = some records) :
    records.length = place.counted store target.type := by
  obtain ⟨rows, there, made⟩ := Option.bind_eq_some_iff.mp done
  have plan : (place.plan target).listing = none ∧ (place.plan target).take = none := by
    unfold Place.plan Plan.compile
    rw [unpaged]
    exact ⟨rfl, rfl⟩
  have filter : (place.plan target).fetchFilter = .allOf [target.type.scope, place.filter] := by
    rw [Plan.fetchFilter, plan.1]
    rfl
  rw [length_of_mapM made, Place.fetched, Place.counted, table?_eq_some there, plan.2, taken,
    Memory.sortRows, List.length_mergeSort, List.countP_eq_length_filter, filter]
  refine congrArg List.length (List.filter_congr fun row _ => ?_)
  rw [Filter.matches_pair]

/-- The children that are read for a value are as many as the rows that the query finds. -/
theorem length_children {store : Memory} {position : Path} {l : BoundLink} {v : Value}
    (single : ∀ target ∈ l.targets, target.connection? = none) {outputs : List Output}
    (made : l.targets.mapM (childOutput store position l v) = some outputs) :
    (outputs.flatMap Output.records).length =
      (l.place v).total store (l.targets.map Target.type) := by
  rw [List.length_flatMap, Place.total, List.map_map]
  refine congrArg List.sum (map_eq_of_mapM made fun target reached out done => ?_)
  have read : (l.place v).reads store position target = some out.records := by
    rw [← map_records_childOutput, done]
    rfl
  exact Place.length_reads (single target reached) read

end GraphRead
