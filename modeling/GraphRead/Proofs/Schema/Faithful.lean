import GraphRead.Proofs.Schema.Build
import Mathlib
/-!
What a built schema says of the declarations that it was built from (`Schema.build_faithful`).

Types and interfaces are filed one behind the other, each under a name that nothing else has
(`Schema.Shape`), so each of them is found again as it was declared. Root fields are filed without
looking for one of the same name, and an interface may name a type twice; what is found then is
told by the last declaration of the name, and by the list of the interface.
-/

namespace GraphRead

namespace Declarations

/-- The names of the types, then those of the interfaces. -/
def names (declared : Declarations) : List String :=
  declared.types.map ObjectType.name ++ declared.interfaces.map Interface.name

/-- The last root field of a name. -/
def lastRoot? (declared : Declarations) (name : String) : Option RootField :=
  declared.roots.reverse.find? fun root => root.name = name

/-- A name is that of a type, that of an interface, or unknown. -/
theorem name_cases (declared : Declarations) (name : String) :
    (∃ type ∈ declared.types, type.name = name) ∨
      (∃ face ∈ declared.interfaces, face.name = name) ∨ name ∉ declared.names := by
  by_cases known : name ∈ declared.names
  · rcases List.mem_append.mp known with ofType | ofFace
    · exact .inl (List.mem_map.mp ofType)
    · exact .inr (.inl (List.mem_map.mp ofFace))
  · exact .inr (.inr known)

end Declarations

namespace Schema

open Fallible

/-- Declarations under their names. -/
def filed {α : Type} (name : α → String) (items : List α) : Keyed α :=
  items.map fun item => (name item, item)

theorem keys_filed {α : Type} (name : α → String) (items : List α) :
    (filed name items).map Prod.fst = items.map name := by
  simp [filed, Function.comp_def]

/-- What is found among declarations with distinct names. -/
theorem get?_filed {α : Type} {name : α → String} {items : List α}
    (distinct : (items.map name).Nodup) {key : String} {item : α} :
    Keyed.get? (filed name items) key = some item ↔ item ∈ items ∧ name item = key := by
  constructor
  · intro found
    obtain ⟨other, there, same⟩ := List.mem_map.mp (Keyed.mem_of_get? found)
    cases same
    exact ⟨there, rfl⟩
  · rintro ⟨there, rfl⟩
    rw [← keys_filed] at distinct
    exact Keyed.get?_of_mem distinct (List.mem_map.mpr ⟨item, there, rfl⟩)

/-! ### One declaration after the other -/

theorem addType_ok {schema after : Schema} {type : ObjectType}
    (done : schema.addType type = .ok after) :
    type.name ∉ schema.types.map Prod.fst ∧
      after = { schema with types := schema.types ++ [(type.name, type)] } := by
  unfold addType at done
  split at done
  · cases done
  · rename_i fresh
    rw [Keyed.hasKey_iff] at fresh
    cases done
    exact ⟨fresh, by rw [Keyed.insert_of_not_mem fresh]⟩

theorem declares_iff {schema : Schema} {name : String} :
    schema.declares name = true ↔
      name ∈ schema.types.map Prod.fst ++ schema.interfaces.map Prod.fst := by
  simp only [declares, Bool.or_eq_true, Keyed.hasKey_iff, List.mem_append]

theorem addInterface_ok {schema after : Schema} {face : Interface}
    (done : schema.addInterface face = .ok after) :
    face.name ∉ schema.types.map Prod.fst ++ schema.interfaces.map Prod.fst ∧
      (face.covered ≠ [] ∧ ∀ type ∈ face.covered, type ∈ schema.types.map Prod.fst) ∧
      after = { schema with interfaces := schema.interfaces ++ [(face.name, face)] } := by
  unfold addInterface at done
  split at done
  · cases done
  · rename_i fresh
    rw [declares_iff] at fresh
    split at done
    · cases done
    · rename_i some
      split at done
      · cases done
      · rename_i known
        cases done
        refine ⟨fresh, ⟨fun none => some (by rw [none]; rfl), fun type present => ?_⟩, ?_⟩
        · have there := List.find?_eq_none.mp known type present
          exact Keyed.hasKey_iff.mp (by simpa using there)
        · have apart := fun there => fresh (List.mem_append_right _ there)
          rw [Keyed.insert_of_not_mem apart]

theorem addRoot_ok {schema after : Schema} {root : RootField}
    (done : schema.addRoot root = .ok after) :
    (schema.declares root.target = true ∧ root.kind ≠ .connection []) ∧
      after = { schema with roots := Keyed.insert schema.roots root.name root } := by
  unfold addRoot at done
  split at done
  · cases done
  · rename_i declared
    split at done
    · cases done
    · rename_i ordered
      cases done
      exact ⟨⟨by simpa using declared, ordered⟩, rfl⟩

/-! ### The shape of a built schema -/

/-- Adding types files them behind those that are there, under names of their own. -/
theorem types_ok {types : List ObjectType} {schema after : Schema}
    (distinct : (schema.types.map Prod.fst).Nodup)
    (done : types.foldlM addType schema = .ok after) :
    after = { schema with types := schema.types ++ filed ObjectType.name types } ∧
      (after.types.map Prod.fst).Nodup := by
  induction types generalizing schema with
  | nil =>
    cases pure_eq_ok.mp done
    exact ⟨by simp [filed], distinct⟩
  | cons type rest ih =>
    rw [List.foldlM_cons] at done
    obtain ⟨next, added, done⟩ := bind_eq_ok.mp done
    obtain ⟨fresh, rfl⟩ := addType_ok added
    have still : ((schema.types ++ [(type.name, type)]).map Prod.fst).Nodup := by
      simpa using List.Nodup.concat fresh distinct
    obtain ⟨rfl, all⟩ := ih still done
    refine ⟨?_, all⟩
    simp [filed]

/-- Adding interfaces files them behind those that are there, under names that no type and no
other interface has. -/
theorem interfaces_ok {faces : List Interface} {schema after : Schema}
    (distinct : (schema.types.map Prod.fst ++ schema.interfaces.map Prod.fst).Nodup)
    (done : faces.foldlM addInterface schema = .ok after) :
    after = { schema with interfaces := schema.interfaces ++ filed Interface.name faces } ∧
      (after.types.map Prod.fst ++ after.interfaces.map Prod.fst).Nodup ∧
      ∀ face ∈ faces, face.covered ≠ [] ∧ ∀ type ∈ face.covered,
        type ∈ schema.types.map Prod.fst := by
  induction faces generalizing schema with
  | nil =>
    cases pure_eq_ok.mp done
    exact ⟨by simp [filed], distinct, List.forall_mem_nil _⟩
  | cons face rest ih =>
    rw [List.foldlM_cons] at done
    obtain ⟨next, added, done⟩ := bind_eq_ok.mp done
    obtain ⟨fresh, covers, rfl⟩ := addInterface_ok added
    have still : (schema.types.map Prod.fst ++
        (schema.interfaces ++ [(face.name, face)]).map Prod.fst).Nodup := by
      simpa using List.Nodup.concat fresh distinct
    obtain ⟨rfl, all, others⟩ := ih still done
    refine ⟨?_, all, List.forall_mem_cons.mpr ⟨covers, others⟩⟩
    simp [filed]

/-- Adding root fields leaves the types and interfaces, and stores each under its name. -/
theorem roots_ok {roots : List RootField} {schema after : Schema}
    (done : roots.foldlM addRoot schema = .ok after) :
    (after.types = schema.types ∧ after.interfaces = schema.interfaces) ∧
      after.roots = (filed RootField.name roots).foldl
        (fun entries pair => Keyed.insert entries pair.1 pair.2) schema.roots ∧
      ∀ root ∈ roots, schema.declares root.target = true ∧ root.kind ≠ .connection [] := by
  induction roots generalizing schema with
  | nil =>
    cases pure_eq_ok.mp done
    exact ⟨⟨rfl, rfl⟩, rfl, List.forall_mem_nil _⟩
  | cons root rest ih =>
    rw [List.foldlM_cons] at done
    obtain ⟨next, added, done⟩ := bind_eq_ok.mp done
    obtain ⟨fits, rfl⟩ := addRoot_ok added
    obtain ⟨kept, stored, others⟩ := ih done
    exact ⟨kept, stored, List.forall_mem_cons.mpr ⟨fits, others⟩⟩

/-- What a schema consists of, and what has been checked of it. -/
structure Shape (declared : Declarations) (schema : Schema) : Prop where
  types : schema.types = filed ObjectType.name declared.types
  interfaces : schema.interfaces = filed Interface.name declared.interfaces
  roots : schema.roots = Keyed.ofList (filed RootField.name declared.roots)
  distinct : declared.names.Nodup
  covers : ∀ face ∈ declared.interfaces, face.covered ≠ [] ∧
    ∀ type ∈ face.covered, type ∈ declared.types.map ObjectType.name
  associations : ∀ type ∈ declared.types, ∀ association ∈ type.associations,
    association.orderFault? = none ∧ association.target ∈ declared.names
  rootFields : ∀ root ∈ declared.roots,
    root.target ∈ declared.names ∧ root.kind ≠ .connection []

theorem checkAssociation_ok {schema : Schema} {type : ObjectType} {association : Association}
    (passed : schema.checkAssociation type association = .ok ()) :
    association.orderFault? = none ∧ schema.declares association.target = true := by
  unfold checkAssociation at passed
  obtain ⟨⟨⟩, valid, passed⟩ := bind_eq_ok.mp passed
  unfold Association.validate at valid
  split at valid
  · cases valid
  · split at passed
    · exact ⟨‹_›, ‹_›⟩
    · cases passed

/-- Types come first, then interfaces over them, then the checks of the associations, and root
fields at last. -/
theorem shape_of_build {declared : Declarations} {schema : Schema}
    (built : build declared = .ok schema) : Shape declared schema := by
  unfold build at built
  obtain ⟨typed, isTyped, built⟩ := bind_eq_ok.mp built
  obtain ⟨faced, isFaced, built⟩ := bind_eq_ok.mp built
  obtain ⟨⟨⟩, checks, built⟩ := bind_eq_ok.mp built
  obtain ⟨rfl, distinct⟩ := types_ok (by exact List.nodup_nil) isTyped
  obtain ⟨rfl, apart, covers⟩ := interfaces_ok (by simpa [empty] using distinct) isFaced
  obtain ⟨⟨types, interfaces⟩, roots, rooted⟩ := roots_ok built
  simp only [empty, List.nil_append, keys_filed] at apart covers types interfaces
  simp only [empty, List.nil_append, declares_iff, keys_filed] at rooted
  refine ⟨types, interfaces, roots, apart, covers, fun type known association asks => ?_, rooted⟩
  have present : type ∈ (filed ObjectType.name declared.types).values :=
    List.mem_map.mpr ⟨_, List.mem_map.mpr ⟨type, known, rfl⟩, rfl⟩
  have passed := checkAssociation_ok (forM_ok (forM_ok checks type present) association asks)
  simp only [declares_iff, empty, List.nil_append, keys_filed] at passed
  exact passed

/-! ### Looking declarations up -/

namespace Shape

variable {declared : Declarations} {schema : Schema} (shape : Shape declared schema)

include shape

theorem get?_types {name : String} {type : ObjectType} :
    Keyed.get? schema.types name = some type ↔ type ∈ declared.types ∧ type.name = name := by
  rw [shape.types]
  exact get?_filed (List.nodup_append.mp shape.distinct).1

theorem get?_interfaces {name : String} {face : Interface} :
    Keyed.get? schema.interfaces name = some face ↔
      face ∈ declared.interfaces ∧ face.name = name := by
  rw [shape.interfaces]
  exact get?_filed (List.nodup_append.mp shape.distinct).2.1

theorem get?_roots (name : String) :
    Keyed.get? schema.roots name = declared.lastRoot? name := by
  rw [shape.roots, Keyed.get?_ofList, filed, ← List.map_reverse, List.find?_map, Option.map_map]
  exact Option.map_id_fun' ▸ rfl

/-- No interface has the name of a type. -/
theorem not_type {face : Interface} (present : face ∈ declared.interfaces) :
    Keyed.get? schema.types face.name = none := by
  cases found : Keyed.get? schema.types face.name with
  | none => rfl
  | some type =>
    obtain ⟨known, same⟩ := shape.get?_types.mp found
    exact absurd same ((List.nodup_append.mp shape.distinct).2.2 _ (List.mem_map_of_mem known) _
      (List.mem_map_of_mem present))

theorem coveredTypes_type {type : ObjectType} (present : type ∈ declared.types) :
    schema.coveredTypes type.name = .ok [type] := by
  rw [coveredTypes, shape.get?_types.mpr ⟨present, rfl⟩]

/-- The types of an interface are those that it names, in its order. -/
theorem coveredTypes_interface {face : Interface} (present : face ∈ declared.interfaces) :
    ∃ types, schema.coveredTypes face.name = .ok types ∧
      types.map ObjectType.name = face.covered ∧ ∀ type ∈ types, type ∈ declared.types := by
  have known : ∀ name ∈ face.covered, ∃ type ∈ declared.types, type.name = name ∧
      schema.objectType name = .ok type := by
    intro name covers
    obtain ⟨type, there, rfl⟩ := List.mem_map.mp ((shape.covers face present).2 name covers)
    exact ⟨type, there, rfl, by rw [objectType, shape.get?_types.mpr ⟨there, rfl⟩]⟩
  rw [coveredTypes, shape.not_type present, shape.get?_interfaces.mpr ⟨present, rfl⟩]
  suffices general : ∀ names : List String, (∀ name ∈ names, ∃ type ∈ declared.types,
      type.name = name ∧ schema.objectType name = .ok type) → ∃ types,
        names.mapM schema.objectType = .ok types ∧ types.map ObjectType.name = names ∧
          ∀ type ∈ types, type ∈ declared.types from general face.covered known
  intro names
  induction names with
  | nil => exact fun _ => ⟨[], rfl, rfl, List.forall_mem_nil _⟩
  | cons name rest ih =>
    intro known
    obtain ⟨⟨type, there, rfl, found⟩, later⟩ := List.forall_mem_cons.mp known
    obtain ⟨types, others, named, all⟩ := ih later
    refine ⟨type :: types, ?_, by rw [List.map_cons, named], List.forall_mem_cons.mpr ⟨there, all⟩⟩
    rw [List.mapM_cons, found, others]
    rfl

/-- Nothing is found under a name that is not declared. -/
theorem not_found {name : String} (unknown : name ∉ declared.names) :
    Keyed.get? schema.types name = none ∧ Keyed.get? schema.interfaces name = none := by
  constructor
  · cases found : Keyed.get? schema.types name with
    | none => rfl
    | some type =>
      obtain ⟨known, rfl⟩ := shape.get?_types.mp found
      exact absurd (List.mem_append_left _ (List.mem_map_of_mem known)) unknown
  · cases found : Keyed.get? schema.interfaces name with
    | none => rfl
    | some face =>
      obtain ⟨known, rfl⟩ := shape.get?_interfaces.mp found
      exact absurd (List.mem_append_right _ (List.mem_map_of_mem known)) unknown

theorem coveredTypes_unknown {name : String} (unknown : name ∉ declared.names) :
    schema.coveredTypes name = .error (.typeNotFound name) := by
  obtain ⟨noType, noFace⟩ := shape.not_found unknown
  rw [coveredTypes, noType, noFace]

theorem isAssignable_type {type : ObjectType} (present : type ∈ declared.types)
    (target : String) :
    schema.isAssignable type.name target = .ok (decide (type.name = target)) := by
  have there : Keyed.hasKey schema.types type.name = true := by
    rw [Keyed.hasKey, shape.get?_types.mpr ⟨present, rfl⟩, Option.isSome_some]
  have noFace : Keyed.get? schema.interfaces type.name = none := by
    cases found : Keyed.get? schema.interfaces type.name with
    | none => rfl
    | some face =>
      obtain ⟨known, same⟩ := shape.get?_interfaces.mp found
      have hidden := shape.not_type known
      rw [same, shape.get?_types.mpr ⟨present, rfl⟩] at hidden
      cases hidden
  by_cases same : type.name = target
  · simp [isAssignable, same ▸ there, same]
  · simp [isAssignable, there, noFace, same]

theorem isAssignable_interface {face : Interface} (present : face ∈ declared.interfaces)
    (target : String) : schema.isAssignable face.name target = .ok (face.covers target) := by
  have noType : Keyed.hasKey schema.types face.name = false := by
    rw [Keyed.hasKey, shape.not_type present, Option.isSome_none]
  simp [isAssignable, noType, shape.get?_interfaces.mpr ⟨present, rfl⟩]

theorem isAssignable_unknown {condition : String} (unknown : condition ∉ declared.names)
    (target : String) :
    schema.isAssignable condition target = .error (.typeNotFound condition) := by
  obtain ⟨noType, noFace⟩ := shape.not_found unknown
  have hidden : Keyed.hasKey schema.types condition = false := by
    rw [Keyed.hasKey, noType, Option.isSome_none]
  simp [isAssignable, hidden, noFace]

/-- The name of an interface is that of no other one. -/
theorem interface_unique {face other : Interface} (known : face ∈ declared.interfaces)
    (there : other ∈ declared.interfaces) (same : other.name = face.name) : other = face := by
  have found := shape.get?_interfaces.mpr ⟨there, same⟩
  rw [shape.get?_interfaces.mpr ⟨known, rfl⟩] at found
  exact (Option.some.inj found).symm

theorem type_unique {type other : ObjectType} (known : type ∈ declared.types)
    (there : other ∈ declared.types) (same : other.name = type.name) : other = type := by
  have found := shape.get?_types.mpr ⟨there, same⟩
  rw [shape.get?_types.mpr ⟨known, rfl⟩] at found
  exact (Option.some.inj found).symm

/-! ### What the lookups say -/

/-- All root fields are found as they were declared exactly if no two of them share a name. -/
theorem roots_kept_iff :
    (∀ root ∈ declared.roots, Keyed.get? schema.roots root.name = some root) ↔
      ∀ root ∈ declared.roots, ∀ other ∈ declared.roots, root.name = other.name → root = other := by
  constructor
  · intro kept root asked other there same
    have found := kept other there
    rw [← same, kept root asked] at found
    exact Option.some.inj found
  · intro unique root asked
    rw [shape.get?_roots, Declarations.lastRoot?]
    cases last : declared.roots.reverse.find? fun other => other.name = root.name with
    | none => simpa using List.find?_eq_none.mp last root (List.mem_reverse.mpr asked)
    | some other =>
      have there := List.mem_reverse.mp (List.mem_of_find?_eq_some last)
      have same := List.find?_some last
      rw [unique other there root asked (by simpa using same)]

theorem exists_coveredTypes_iff (name : String) :
    (∃ types, schema.coveredTypes name = .ok types) ↔ name ∈ declared.names := by
  rcases declared.name_cases name with ⟨type, known, rfl⟩ | ⟨face, known, rfl⟩ | unknown
  · have declares := List.mem_append_left (declared.interfaces.map Interface.name)
      (List.mem_map_of_mem (f := ObjectType.name) known)
    exact iff_of_true ⟨_, shape.coveredTypes_type known⟩ declares
  · have declares := List.mem_append_right (declared.types.map ObjectType.name)
      (List.mem_map_of_mem (f := Interface.name) known)
    obtain ⟨types, found, -⟩ := shape.coveredTypes_interface known
    exact iff_of_true ⟨types, found⟩ declares
  · rw [shape.coveredTypes_unknown unknown]
    exact iff_of_false (fun ⟨_, found⟩ => nomatch found) unknown

/-- Behind a name there are declared types, at least one, and one of them twice only if the
interface of the name repeats it. -/
theorem behind_name {name : String} {types : List ObjectType}
    (found : schema.coveredTypes name = .ok types) :
    types ≠ [] ∧ (∀ type ∈ types, type ∈ declared.types) ∧
      ((types.map ObjectType.name).Nodup ↔
        ∀ face ∈ declared.interfaces, face.name = name → face.covered.Nodup) := by
  rcases declared.name_cases name with ⟨type, known, rfl⟩ | ⟨face, known, rfl⟩ | unknown
  · rw [shape.coveredTypes_type known] at found
    cases found
    refine ⟨by simp, List.forall_mem_singleton.mpr known, ?_⟩
    refine iff_of_true (List.nodup_singleton _) fun face there same => ?_
    have hidden := shape.not_type there
    rw [same, shape.get?_types.mpr ⟨known, rfl⟩] at hidden
    cases hidden
  · obtain ⟨types', found', named, all⟩ := shape.coveredTypes_interface known
    cases found.symm.trans found'
    have some : types ≠ [] := fun none => (shape.covers face known).1 (by rw [← named, none]; rfl)
    refine ⟨some, all, ?_⟩
    rw [named]
    refine ⟨fun distinct other there same => ?_, fun distinct => distinct face known rfl⟩
    rw [shape.interface_unique known there same]
    exact distinct
  · rw [shape.coveredTypes_unknown unknown] at found
    cases found

/-- A fragment applies to the types behind its condition. -/
theorem isAssignable_iff (condition : String) {type : ObjectType} (known : type ∈ declared.types) :
    schema.isAssignable condition type.name = .ok true ↔
      ∃ types, schema.coveredTypes condition = .ok types ∧ type ∈ types := by
  rcases declared.name_cases condition with ⟨other, there, rfl⟩ | ⟨face, there, rfl⟩ | unknown
  · rw [shape.isAssignable_type there, shape.coveredTypes_type there]
    constructor
    · intro same
      have named : other.name = type.name := by simpa using same
      exact ⟨_, rfl, List.mem_singleton.mpr (shape.type_unique there known named.symm)⟩
    · rintro ⟨types, same, here⟩
      cases same
      rw [List.mem_singleton.mp here, decide_eq_true rfl]
  · obtain ⟨types, found, named, all⟩ := shape.coveredTypes_interface there
    rw [shape.isAssignable_interface there, found, Interface.covers, ← named]
    constructor
    · intro covers
      have present : type.name ∈ types.map ObjectType.name := by simpa using covers
      obtain ⟨same, here, equal⟩ := List.mem_map.mp present
      exact ⟨types, rfl, shape.type_unique known (all same here) equal ▸ here⟩
    · rintro ⟨others, same, here⟩
      cases same
      rw [List.contains_iff_mem.mpr (List.mem_map_of_mem here)]
  · rw [shape.isAssignable_unknown unknown, shape.coveredTypes_unknown unknown]
    exact iff_of_false (fun same => nomatch same) fun ⟨_, same, _⟩ => nomatch same

theorem isAssignable_error_iff (condition target : String) :
    (∃ e, schema.isAssignable condition target = .error e) ↔ condition ∉ declared.names := by
  rw [← shape.exists_coveredTypes_iff]
  rcases declared.name_cases condition with ⟨type, known, rfl⟩ | ⟨face, known, rfl⟩ | unknown
  · rw [shape.isAssignable_type known, shape.coveredTypes_type known]
    exact iff_of_false (fun ⟨_, failed⟩ => nomatch failed) fun none => none ⟨_, rfl⟩
  · obtain ⟨types, found, -⟩ := shape.coveredTypes_interface known
    rw [shape.isAssignable_interface known, found]
    exact iff_of_false (fun ⟨_, failed⟩ => nomatch failed) fun none => none ⟨_, rfl⟩
  · rw [shape.isAssignable_unknown unknown, shape.coveredTypes_unknown unknown]
    exact iff_of_true ⟨_, rfl⟩ fun ⟨_, found⟩ => nomatch found

end Shape

/-- An order belongs to an association that is as it has to be exactly if it leads to lists. -/
theorem ordered_iff {association : Association} (valid : association.orderFault? = none) :
    (∃ order, association.order = some order ∧ order ≠ []) ↔
      association.cardinality = .oneToMany := by
  unfold Association.orderFault? Association.isMany at valid
  cases kind : association.cardinality <;> cases order : association.order <;>
    simp_all [Cardinality.isMany]
  rename_i columns
  cases columns <;> simp_all

/-! ### What was declared is what is found -/

/-- What the lookups of a schema say of some declarations. -/
structure Faithful (declared : Declarations) (schema : Schema) : Prop where
  /-- Nothing but the declared types is found, each under its name and as it was declared. -/
  types : ∀ name type, Keyed.get? schema.types name = some type ↔
    type ∈ declared.types ∧ type.name = name
  interfaces : ∀ name face, Keyed.get? schema.interfaces name = some face ↔
    face ∈ declared.interfaces ∧ face.name = name
  /-- No name is declared twice, and none is both that of a type and that of an interface. -/
  distinct : declared.names.Nodup
  /-- Of the root fields of a name the last one is found, so all of them are found as they were
  declared exactly if no two of them share a name. -/
  roots : ∀ name, Keyed.get? schema.roots name = declared.lastRoot? name
  rootsKept : (∀ root ∈ declared.roots, Keyed.get? schema.roots root.name = some root) ↔
    ∀ root ∈ declared.roots, ∀ other ∈ declared.roots, root.name = other.name → root = other
  covered : ∀ name, (∃ types, schema.coveredTypes name = .ok types) ↔ name ∈ declared.names
  /-- Behind a name there are declared types, at least one, and no type twice exactly if the
  interface of the name does not repeat one. -/
  behind : ∀ name types, schema.coveredTypes name = .ok types →
    types ≠ [] ∧ (∀ type ∈ types, type ∈ declared.types) ∧
      ((types.map ObjectType.name).Nodup ↔
        ∀ face ∈ declared.interfaces, face.name = name → face.covered.Nodup)
  itself : ∀ type ∈ declared.types, schema.coveredTypes type.name = .ok [type]
  listed : ∀ face ∈ declared.interfaces, ∃ types, schema.coveredTypes face.name = .ok types ∧
    types.map ObjectType.name = face.covered
  /-- A fragment applies to the types behind its condition. -/
  assignable : ∀ condition, ∀ type ∈ declared.types,
    schema.isAssignable condition type.name = .ok true ↔
      ∃ types, schema.coveredTypes condition = .ok types ∧ type ∈ types
  unassignable : ∀ condition target, (∃ e, schema.isAssignable condition target = .error e) ↔
    condition ∉ declared.names
  targets : ∀ type ∈ declared.types, ∀ association ∈ type.associations,
    association.target ∈ declared.names
  rootTargets : ∀ root ∈ declared.roots, root.target ∈ declared.names
  ordered : ∀ type ∈ declared.types, ∀ association ∈ type.associations,
    (∃ order, association.order = some order ∧ order ≠ []) ↔
      association.cardinality = .oneToMany
  rootsOrdered : ∀ root ∈ declared.roots, ∀ order, root.kind = .connection order → order ≠ []

/-- **A built schema is what was declared.** Types and interfaces are found as they were declared,
and lookups go exactly to declared names. Only a root field is lost, to a later one of its name,
and only an interface that names a type twice has it twice behind its name. -/
theorem build_faithful {declared : Declarations} {schema : Schema}
    (built : build declared = .ok schema) : Faithful declared schema := by
  have shape := shape_of_build built
  exact
    { types := fun _ _ => shape.get?_types
      interfaces := fun _ _ => shape.get?_interfaces
      distinct := shape.distinct
      roots := shape.get?_roots
      rootsKept := shape.roots_kept_iff
      covered := shape.exists_coveredTypes_iff
      behind := fun _ _ => shape.behind_name
      itself := fun _ => shape.coveredTypes_type
      listed := fun face known => by
        obtain ⟨types, found, named, -⟩ := shape.coveredTypes_interface known
        exact ⟨types, found, named⟩
      assignable := fun condition _ => shape.isAssignable_iff condition
      unassignable := shape.isAssignable_error_iff
      targets := fun type known association asks =>
        (shape.associations type known association asks).2
      rootTargets := fun root asked => (shape.rootFields root asked).1
      ordered := fun type known association asks =>
        ordered_iff (shape.associations type known association asks).1
      rootsOrdered := fun root asked _ kind none => (shape.rootFields root asked).2 (none ▸ kind) }

/-! ### Two root fields of one name, and an interface that repeats a type -/

namespace Catalogue

def book : ObjectType := ⟨"Book", "books", "id", .always, []⟩

def film : ObjectType := ⟨"Film", "films", "id", .always, []⟩

/-- A list of books, and behind it the lookup of a film under the same name. -/
def listed : RootField := ⟨"work", "Book", .connection [⟨"title", .ascending⟩], []⟩

def single : RootField := ⟨"work", "Film", .single, []⟩

def declarations : Declarations :=
  ⟨[book, film], [⟨"Work", ["Book", "Film", "Book"]⟩], [listed, single]⟩

def catalogue : Schema :=
  ⟨[("Book", book), ("Film", film)], [("Work", ⟨"Work", ["Book", "Film", "Book"]⟩)],
    [("work", single)]⟩

theorem built : build declarations = .ok catalogue := by cbv

theorem build_faithful_catalogue :
    build declarations = .ok catalogue ∧ Faithful declarations catalogue :=
  ⟨built, build_faithful built⟩

/-- Both declarations are accepted, but the list of books is lost, and books are behind the name of
the interface twice. -/
theorem build_loses_root : build declarations = .ok catalogue ∧
    listed ∈ declarations.roots ∧ Keyed.get? catalogue.roots listed.name ≠ some listed ∧
      catalogue.coveredTypes "Work" = .ok [book, film, book] := by
  refine ⟨built, List.mem_cons_self, fun same => ?_, by rfl⟩
  have kinds : (Keyed.get? catalogue.roots listed.name).map RootField.kind = some listed.kind := by
    rw [same, Option.map_some]
  exact absurd kinds (by decide)

end Catalogue

end Schema

end GraphRead
