import GraphRead.Proofs.Binding.Occurrences
import GraphRead.Proofs.Binding.Sound
import GraphRead.Proofs.Intact.Level
import GraphRead.Proofs.Resolve.Descent
/-!
The columns that plans ask for.

A plan asks for five kinds of columns, and for each of them once (`Plan.Needs`): the primary key of
its type, the columns of the attributes and those of the associations that are asked of its records,
the column that joins the records to their parents, and the columns that its list is sorted by. A
schema mentions all of them for the table of the type (`Schema.Mentions`), at whatever depth of a
resolution the plan lies (`resolveReads_supplied`).
-/

namespace GraphRead

open PerParent Selection Fallible

/-- A schema mentions a column of a table: in a type that reads from the table, or for the types
behind an association or a root field. -/
inductive Schema.Mentions (schema : Schema) : String → String → Prop
  | key {type : ObjectType} (known : type ∈ schema.types.values) :
    schema.Mentions type.table type.primaryKey
  | value {type : ObjectType} {a : Attribute} {column : String}
    (known : type ∈ schema.types.values) (declares : a ∈ type.attributes)
    (needs : column ∈ a.columns) : schema.Mentions type.table column
  | ofParents {type : ObjectType} {a : Association} (known : type ∈ schema.types.values)
    (declares : a ∈ type.associations) : schema.Mentions type.table a.localColumn
  | ofChildren {type child : ObjectType} {a : Association} {types : List ObjectType}
    (known : type ∈ schema.types.values) (declares : a ∈ type.associations)
    (behind : schema.coveredTypes a.target = .ok types) (covered : child ∈ types) :
    schema.Mentions child.table a.remoteColumn
  | sorted {type child : ObjectType} {a : Association} {types : List ObjectType} {order : Order}
    {column : String} (known : type ∈ schema.types.values) (declares : a ∈ type.associations)
    (behind : schema.coveredTypes a.target = .ok types) (covered : child ∈ types)
    (ordered : a.order = some order) (sorts : column ∈ order.columns) :
    schema.Mentions child.table column
  | sortedRoot {root : RootField} {type : ObjectType} {types : List ObjectType} {order : Order}
    {column : String} (known : root ∈ schema.roots.values)
    (behind : schema.coveredTypes root.target = .ok types) (covered : type ∈ types)
    (ordered : root.kind = .connection order) (sorts : column ∈ order.columns) :
    schema.Mentions type.table column

/-- Every row has every column that the schema mentions for its table. Filters and scopes read a
column that is not there as null, so that theirs do not count. -/
def Schema.Fills (schema : Schema) (store : Memory) : Prop :=
  ∀ table column, schema.Mentions table column → ∀ row ∈ store.rowsOf table,
    (Keyed.get? row column).isSome

/-! ### What a plan asks for -/

/-- Keeping the first of equal items leaves every item once. -/
theorem nodup_eraseDups (items : List String) : items.eraseDups.Nodup := by
  induction long : items.length using Nat.strongRecOn generalizing items with
  | ind n ih =>
    cases items with
    | nil => exact .nil
    | cons first rest =>
      rw [List.eraseDups_cons, List.nodup_cons]
      refine ⟨fun again => ?_, ih _ ?_ _ rfl⟩
      · simpa using (List.mem_filter.mp (List.mem_eraseDups.mp again)).2
      · rw [← long, List.length_cons]
        exact Nat.lt_succ_of_le (List.length_filter_le _ _)

namespace Plan

/-- What a column is needed for by the plan of a target. -/
inductive Needs (target : Target) (join : Option Join) : String → Prop
  | key : Needs target join target.type.primaryKey
  | value {f : BoundField} {a : Attribute} {column : String}
    (asked : target.record? = some f) (known : a ∈ f.attributes) (needs : column ∈ a.columns) :
    Needs target join column
  | link {f : BoundField} {key : String} {l : BoundLink} (asked : target.record? = some f)
    (linked : (key, l) ∈ f.links) : Needs target join l.association.localColumn
  | joined {own : Join} (same : join = some own) : Needs target join own.column
  | sorted {c : BoundConnection} {column : String} (listed : target.connection? = some c)
    (sorts : column ∈ c.effectiveOrder.columns) : Needs target join column

/-- A plan asks for the columns that it needs, and for no others. -/
theorem mem_columns_compile {target : Target} {filter : Filter} {join : Option Join}
    {take : Option Nat} {column : String} :
    column ∈ (compile target filter join take).columns ↔ Needs target join column := by
  rw [compile, requiredColumns, List.mem_eraseDups]
  constructor
  · intro present
    simp only [List.cons_append, List.mem_cons, List.mem_append, Option.mem_toList,
      Option.map_map] at present
    rcases present with rfl | ((attributes | links) | joined) | sorted
    · exact .key
    · cases asked : target.record? with
      | none => simp [asked] at attributes
      | some f =>
        rw [asked] at attributes
        obtain ⟨a, known, needs⟩ := List.mem_flatMap.mp attributes
        exact .value asked known needs
    · cases asked : target.record? with
      | none => simp [asked] at links
      | some f =>
        rw [asked] at links
        obtain ⟨⟨key, l⟩, linked, rfl⟩ := List.mem_map.mp links
        exact .link asked linked
    · obtain ⟨own, same, rfl⟩ := Option.map_eq_some_iff.mp joined
      exact .joined same
    · cases listed : target.connection? with
      | none => simp [listed] at sorted
      | some c =>
        rw [listed] at sorted
        exact .sorted listed sorted
  · intro needs
    simp only [List.cons_append, List.mem_cons, List.mem_append, Option.mem_toList]
    cases needs with
    | key => exact .inl rfl
    | value asked known needs =>
      rw [asked]
      exact .inr (.inl (.inl (.inl (List.mem_flatMap.mpr ⟨_, known, needs⟩))))
    | link asked linked =>
      rw [asked]
      exact .inr (.inl (.inl (.inr (List.mem_map.mpr ⟨_, linked, rfl⟩))))
    | joined same =>
      rw [same]
      exact .inr (.inl (.inr rfl))
    | sorted listed sorts =>
      rw [listed]
      exact .inr (.inr sorts)

end Plan

/-- An order that ends with the primary key has its own columns, and the primary key. -/
theorem Order.of_mem_withTiebreaker {order : Order} {primaryKey column : String}
    (sorts : column ∈ (order.withTiebreaker primaryKey).columns) :
    column ∈ order.columns ∨ column = primaryKey := by
  unfold withTiebreaker at sorts
  split at sorts
  · exact .inl sorts
  · rw [columns, List.map_append] at sorts
    exact (List.mem_append.mp sorts).imp_right List.mem_singleton.mp

/-! ### What is asked of a record -/

theorem BoundField.mem_attributes {f : BoundField} {a : Attribute} :
    a ∈ f.attributes ↔ ∃ key, (key, .scalar a) ∈ f.items := by
  unfold attributes
  rw [List.mem_filterMap]
  constructor
  · rintro ⟨⟨key, item⟩, present, same⟩
    cases item <;> cases same
    exact ⟨key, present⟩
  · rintro ⟨key, present⟩
    exact ⟨_, present, rfl⟩

section Record

variable {schema : Schema} {type : ObjectType} {path : Path} {s : Selection} {f : BoundField}
  (done : bindField schema type path s = .ok f)

include done

/-- Whatever is asked of a record was bound for a field of its type. -/
theorem exists_bindItem {key : String} {item : BoundItem} (present : (key, item) ∈ f.items) :
    ∃ path child, bindItem schema type path child = .ok (some item) := by
  rw [bindField] at done
  split at done
  · cases done
  · obtain ⟨items, isItems, rfl⟩ := map_eq_ok.mp done
    obtain ⟨child, -, bound⟩ := (mem_bindItems isItems).mp present
    exact ⟨_, child, bound⟩

/-- An attribute that is asked of a record is a field of its type. -/
theorem exists_field {a : Attribute} (known : a ∈ f.attributes) :
    ∃ name, type.field? name = some (.scalar a) := by
  obtain ⟨key, present⟩ := BoundField.mem_attributes.mp known
  obtain ⟨path, child, bound⟩ := exists_bindItem done present
  refine ⟨child.name, ?_⟩
  unfold bindItem at bound
  split at bound
  · obtain ⟨_, -, same⟩ := bind_eq_ok.mp bound
    cases pure_eq_ok.mp same
    assumption
  · obtain ⟨_, -, same⟩ := map_eq_ok.mp bound
    cases same
  · split at bound
    · obtain ⟨_, -, same⟩ := bind_eq_ok.mp bound
      cases pure_eq_ok.mp same
    · split at bound <;> cases bound

/-- The primary key is asked of a record where its type has no field of that name. -/
theorem field?_id {key : String} (present : (key, .id) ∈ f.items) : type.field? "id" = none := by
  obtain ⟨path, child, bound⟩ := exists_bindItem done present
  unfold bindItem at bound
  split at bound
  · obtain ⟨_, -, same⟩ := bind_eq_ok.mp bound
    cases pure_eq_ok.mp same
  · obtain ⟨_, -, same⟩ := map_eq_ok.mp bound
    cases same
  · rename_i unknown
    split at bound
    · rename_i named
      rwa [named] at unknown
    · split at bound <;> cases bound

end Record

/-! ### Tasks -/

section Tasks

variable {declared : Declarations} {schema : Schema}

/-- The columns of an attribute that is asked of a target are mentioned. -/
theorem Target.BoundTo.mentions {target : Target} (bound : target.BoundTo schema) {f : BoundField}
    (asked : target.record? = some f) {a : Attribute} (known : a ∈ f.attributes) {column : String}
    (needs : column ∈ a.columns) : schema.Mentions target.type.table column := by
  obtain ⟨_, _, isBound⟩ := bound.2 _ asked
  obtain ⟨name, found⟩ := exists_field isBound known
  exact .value bound.1 (List.mem_filterMap.mpr ⟨_, Keyed.mem_of_get? found, rfl⟩) needs

/-- The columns that a target needs are mentioned, if the one that joins it to its parents and those
of its order are. -/
theorem mentions_of_needs {target : Target} (bound : target.BoundTo schema) {join : Option Join}
    (joined : ∀ own, join = some own → schema.Mentions target.type.table own.column)
    (sorted : ∀ c, target.connection? = some c → ∀ column ∈ c.order.columns,
      schema.Mentions target.type.table column)
    {column : String} (needs : Plan.Needs target join column) :
    schema.Mentions target.type.table column := by
  cases needs with
  | key => exact .key bound.1
  | value asked known needs => exact bound.mentions asked known needs
  | link asked linked =>
    exact .ofParents bound.1 (bound.link (Target.mem_links.mpr ⟨_, asked, linked⟩)).1
  | joined same => exact joined _ same
  | @sorted c column listed sorts =>
    rcases Order.of_mem_withTiebreaker sorts with own | rfl
    · exact sorted c listed column own
    · have same : c.type = target.type := by
        cases target <;> cases listed
        rfl
      rw [same]
      exact .key bound.1

/-- A list is entered as a list in its order. -/
theorem EntryPoint.Opens.entry_eq {entry : EntryPoint} {target : Target}
    (opens : entry.Opens target) {c : BoundConnection} (listed : target.connection? = some c) :
    entry = .connection c.order := by
  cases entry with
  | connection order =>
    obtain ⟨own, rfl, rfl⟩ := opens
    cases listed
    rfl
  | field =>
    obtain ⟨f, rfl⟩ := opens
    cases listed
  | edge =>
    obtain ⟨e, rfl⟩ := opens
    cases listed

/-- A task asks for columns that the schema mentions for its table. -/
structure Task.Supplied (schema : Schema) (task : Task) : Prop where
  planned : Planned task
  bound : task.target.BoundTo schema
  mentioned : ∀ column ∈ task.plan.columns, schema.Mentions task.plan.table column

variable (shape : Schema.Shape declared schema)

include shape

theorem Task.supplied_root {root : Selection} {reads : List RootRead}
    (done : root.rootReads schema = .ok reads) {read : RootRead} (asked : read ∈ reads)
    {target : Target} (reached : target ∈ read.targets) : (read.task target).Supplied schema := by
  obtain ⟨key, s, isRoot⟩ := exists_bindRoot done asked
  obtain ⟨field, path, entry, found, -, isTargets, entered⟩ := bindRoot_parts isRoot
  have bound := boundTo_of_bindTargets isTargets target reached
  have sorted : ∀ c, target.connection? = some c → ∀ column ∈ c.order.columns,
      schema.Mentions target.type.table column := by
    intro c listed column sorts
    have same := ((bindTargets_sound shape isTargets).entered target reached).entry_eq listed
    rcases entered with ⟨order, many, rfl⟩ | ⟨-, rfl⟩
    · cases same
      exact .sortedRoot (List.mem_map_of_mem (Keyed.mem_of_get? found))
        (types_of_bindTargets isTargets) (List.mem_map_of_mem reached) many sorts
    · cases same
  refine ⟨rootTask_planned read target, bound, fun column present => ?_⟩
  unfold RootRead.task at present ⊢
  cases kind : read.kind <;>
  · rw [kind] at present
    exact mentions_of_needs bound (fun _ same => by cases same) sorted
      (Plan.mem_columns_compile.mp present)

theorem Task.supplied_child {task child : Task} {output : Output} (above : task.Supplied schema)
    (present : child ∈ task.children output) : child.Supplied schema := by
  obtain ⟨f, key, l, target, asked, linked, reached, keyed, rfl⟩ := exists_link present
  have linked := Target.mem_links.mpr ⟨f, asked, linked⟩
  obtain ⟨declares, isLink⟩ := above.bound.link linked
  have bound := above.bound.child linked reached
  have covered := List.mem_map_of_mem (f := Target.type) reached
  refine ⟨⟨⟨_, _, _, rfl⟩, fun join same => ?_⟩, bound, fun column wanted => ?_⟩
  · cases same
    exact keyed
  · refine mentions_of_needs bound (fun own same => ?_) (fun c listed column sorts => ?_)
      (Plan.mem_columns_compile.mp wanted)
    · cases same
      exact .ofChildren above.bound.1 declares isLink.types covered
    · obtain ⟨_, _, _, isBound⟩ := id isLink
      obtain ⟨entry, enters, sound⟩ := bindLink_sound shape isBound
      cases (sound.entered target reached).entry_eq listed
      cases enters with
      | list many ordered =>
        exact .sorted above.bound.1 declares isLink.types covered ordered sorts

/-- **Every plan of a resolution asks for mentioned columns**, at whatever depth it lies. -/
theorem resolveReads_supplied (connector : Connector) (size : Option Nat) {completion : Completion}
    (every : completion.Complete) {root : Selection} {reads : List RootRead}
    (done : root.rootReads schema = .ok reads) :
    ∀ level ∈ (resolveReads connector size completion reads).levels, ∀ task ∈ level,
      task.Supplied schema := by
  rcases resolveReads_descends connector size every reads with ⟨_, descends⟩ | ⟨_, none⟩
  · refine descends.forall_tasks (fun task present => ?_) (Task.supplied_child shape)
    obtain ⟨read, asked, own⟩ := List.mem_flatMap.mp present
    obtain ⟨target, reached, rfl⟩ := List.mem_map.mp own
    exact Task.supplied_root shape done asked reached
  · rw [none]
    exact fun _ listed => nomatch listed

end Tasks

/-- No plan asks for a column twice. -/
theorem PerParent.Planned.columns_nodup {task : Task} (planned : Planned task) :
    task.plan.columns.Nodup := by
  obtain ⟨filter, join, take, same⟩ := planned.compiled
  rw [same]
  exact nodup_eraseDups _

end GraphRead
