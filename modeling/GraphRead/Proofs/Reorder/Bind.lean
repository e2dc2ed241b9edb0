import GraphRead.Proofs.Binding.Item
import GraphRead.Proofs.Reorder.Basic
import GraphRead.Proofs.Schema.Faithful
/-!
Binding a selection to a schema that lists the types of its interfaces in another order.

Fragments apply to the same types, so every record is asked for the same. Only the targets of a
position come in the order in which its interface lists them (`bindTargets_reordered`), and this on
every level, by induction on how deep the selection is (`fieldsReordered`). So both schemas accept
the same queries, and what is bound to them is reordered (`rootReads_reordered`).
-/

namespace GraphRead

/-- The same interface with its types, which are distinct, in another order. -/
structure Interface.Reorders (face face' : Interface) : Prop where
  name : face'.name = face.name
  covered : face.covered.Perm face'.covered
  distinct : face.covered.Nodup

/-- Schemas that only differ in the order in which interfaces list their types. -/
structure Schema.Reorders (schema schema' : Schema) : Prop where
  types : schema'.types = schema.types
  interfaces : Keyed.Both Interface.Reorders schema.interfaces schema'.interfaces
  roots : schema'.roots = schema.roots

/-! ### Looking types up -/

namespace Schema.Reorders

open Fallible

variable {schema schema' : Schema} (reorders : Schema.Reorders schema schema')

include reorders

theorem isAssignable : schema'.isAssignable = schema.isAssignable := by
  funext condition target
  unfold Schema.isAssignable
  rw [reorders.types]
  split
  · rfl
  · cases found : Keyed.get? schema.interfaces condition with
    | none => rw [reorders.interfaces.get?_none found]
    | some face =>
      obtain ⟨face', found', both⟩ := reorders.interfaces.get?_some found
      rw [found']
      refine congrArg Except.ok (Bool.eq_iff_iff.mpr ?_)
      rw [Interface.covers, Interface.covers, List.contains_iff_mem, List.contains_iff_mem,
        both.covered.mem_iff]

theorem coveredTypes (name : String) :
    InStep List.Perm (schema.coveredTypes name) (schema'.coveredTypes name) := by
  have objectType : schema'.objectType = schema.objectType := by
    funext name
    rw [Schema.objectType, Schema.objectType, reorders.types]
  unfold Schema.coveredTypes
  rw [reorders.types, objectType]
  split
  · exact .ok (.refl _)
  · cases found : Keyed.get? schema.interfaces name with
    | none =>
      rw [reorders.interfaces.get?_none found]
      exact .error _ _
    | some face =>
      obtain ⟨face', found', both⟩ := reorders.interfaces.get?_some found
      rw [found']
      exact InStep.mapM_perm _ both.covered

/-- The types behind a name are told apart by their names. -/
theorem distinct {declared : Declarations} (built : Schema.build declared = .ok schema)
    {name : String} {types : List ObjectType} (found : schema.coveredTypes name = .ok types) :
    (types.map ObjectType.name).Nodup := by
  have shape := shape_of_build built
  refine (shape.behind_name found).2.2.mpr fun face known named => ?_
  have filed := Keyed.mem_of_get? (shape.get?_interfaces.mpr ⟨known, rfl⟩)
  obtain ⟨face', -, both⟩ := reorders.interfaces.exists_of_mem filed
  exact both.distinct

end Schema.Reorders

namespace Selection

open Fallible

/-- Records are bound alike, but for the order of the targets below them, by selections that are
less deep. -/
def FieldsReordered (schema schema' : Schema) (depth : Nat) : Prop :=
  ∀ s : Selection, s.depth < depth → ∀ type path,
    InStep BoundField.Reordered (bindField schema type path s) (bindField schema' type path s)

section Below

variable {schema schema' : Schema} {depth : Nat} (below : FieldsReordered schema schema' depth)
  {s : Selection}

include below

theorem bindEdge_reordered (lower : s.depth ≤ depth) (type : ObjectType) (path : Path) :
    InStep BoundEdge.Reordered (bindEdge schema type path s) (bindEdge schema' type path s) := by
  rw [bindEdge_eq, bindEdge_eq]
  refine (InStep.refl _).bind fun resolved _ isResolved same => ?_
  cases same
  refine (InStep.refl _).bind fun parts _ isParts same => ?_
  cases same
  have nodes : InStep (Option.Rel BoundField.Reordered)
      (parts.node.mapM fun node => bindField schema type (path.add "node") node)
      (parts.node.mapM fun node => bindField schema' type (path.add "node") node) := by
    refine InStep.mapM_asked fun node asked => ?_
    have deeper := depth_lt_of_parts isResolved (depth_edgeParts_lt isParts asked)
    exact below node (Nat.lt_of_lt_of_le deeper lower) type _
  refine nodes.bind fun node node' _ both => .ok ?_
  cases both with
  | none => exact .bare rfl
  | some own => exact .node rfl own

theorem bindConnection_reordered (lower : s.depth < depth) (order : Order) (typed : Bool)
    (type : ObjectType) (path : Path) :
    InStep (fun c c' => Target.Reordered (.connection c) (.connection c'))
      (bindConnection schema order typed type path s)
      (bindConnection schema' order typed type path s) := by
  rw [bindConnection_eq, bindConnection_eq]
  refine (InStep.refl _).bind fun page _ _ same => ?_
  cases same
  refine (InStep.refl _).bind fun resolved _ isResolved same => ?_
  cases same
  refine (InStep.refl _).bind fun parts _ isParts same => ?_
  cases same
  have edges : InStep (Option.Rel BoundEdge.Reordered)
      (parts.edges.mapM fun edges => bindEdge schema type (path.add "edges") edges)
      (parts.edges.mapM fun edges => bindEdge schema' type (path.add "edges") edges) := by
    refine InStep.mapM_asked fun edges asked => ?_
    have deeper := depth_lt_of_parts isResolved (depth_connectionParts_lt isParts asked)
    exact bindEdge_reordered below (Nat.le_of_lt (Nat.lt_trans deeper lower)) type _
  refine edges.bind fun bound bound' _ both => .ok ?_
  cases both with
  | none => exact .bare rfl
  | some own =>
    cases own with
    | bare none => exact .bare none
    | node asked record => exact .record asked record.type record.items

/-- A target is bound alike, whatever it is. -/
theorem bindTarget_reordered (lower : s.depth < depth) (entry : EntryPoint) (typed : Bool)
    (type : ObjectType) (path : Path) :
    InStep Target.Reordered (bindTarget schema entry typed type path s)
      (bindTarget schema' entry typed type path s) := by
  unfold bindTarget
  cases entry with
  | field =>
    refine (below s lower type path).map fun f f' _ both => ?_
    exact Target.Reordered.record rfl both.type both.items
  | connection order =>
    exact (bindConnection_reordered below lower order typed type path).map fun _ _ _ both => both
  | edge =>
    refine (bindEdge_reordered below (Nat.le_of_lt lower) type path).map fun e e' _ both => ?_
    cases both with
    | bare none => exact .bare none
    | node asked record => exact .record asked record.type record.items

omit below

/-- The targets of a position are bound one by one. -/
theorem bindEach_eq (schema : Schema) (entry : EntryPoint) (typed : Bool) (path : Path)
    (s : Selection) (types : List ObjectType) : bindEach schema entry typed path s types =
      types.mapM fun type => bindTarget schema entry typed type path s := by
  induction types with
  | nil => rw [bindEach]; rfl
  | cons type rest ih => rw [bindEach, List.mapM_cons, ih]

/-- The lists of a position ask the same of it. -/
theorem askAlike_of_bindEach {order : Order} {typed : Bool} {path : Path}
    {types : List ObjectType} {targets : List Target}
    (done : bindEach schema (.connection order) typed path s types = .ok targets) :
    Target.AskAlike targets := by
  have each : ∀ target ∈ targets, ∃ type c, target = .connection c ∧
      bindConnection schema order typed type path s = .ok c := fun target present => by
    obtain ⟨type, -, bound⟩ := (bindEach_ok done).2 target present
    rw [bindTarget] at bound
    obtain ⟨c, isConnection, rfl⟩ := map_eq_ok.mp bound
    exact ⟨type, c, rfl, isConnection⟩
  intro target present
  obtain ⟨type, c, rfl, isConnection⟩ := each target present
  refine ⟨c, rfl, fun other there c' same => ?_⟩
  obtain ⟨type', c'', same', isConnection'⟩ := each other there
  cases same.symm.trans same'
  exact bindConnection_shared isConnection' isConnection

variable {declared : Declarations} (built : Schema.build declared = .ok schema)
  (reorders : Schema.Reorders schema schema')

include below built reorders

/-- The targets of a position are bound alike, in the order in which the schema lists them. -/
theorem bindTargets_reordered (lower : s.depth < depth) {many : Prop} (entry : EntryPoint)
    (lists : many → ∃ order, entry = .connection order) (name : String) (path : Path) :
    InStep (Target.Shuffled many) (bindTargets schema entry name path s)
      (bindTargets schema' entry name path s) := by
  rw [bindTargets, bindTargets]
  refine ((reorders.coveredTypes name).mapError).bind fun types types' isTypes perm => ?_
  rw [← perm.length_eq]
  generalize decide (1 < types.length) = typed
  have ordered : InStep List.Perm (bindEach schema entry typed path s types)
      (bindEach schema entry typed path s types') := by
    rw [bindEach_eq, bindEach_eq]
    exact InStep.mapM_perm _ perm
  have each : InStep (List.Forall₂ Target.Reordered) (bindEach schema entry typed path s types')
      (bindEach schema' entry typed path s types') := by
    rw [bindEach_eq, bindEach_eq]
    exact InStep.mapM_list fun type _ => bindTarget_reordered below lower entry typed type path
  refine (ordered.trans each).imp fun targets others isTargets matched =>
    ⟨matched, ?_, fun here => ?_⟩
  · show (targets.map (ObjectType.name ∘ Target.type)).Nodup
    rw [← List.map_map, (bindEach_ok isTargets).1]
    exact reorders.distinct built (mapError_eq_ok.mp isTypes)
  · obtain ⟨order, rfl⟩ := lists here
    exact askAlike_of_bindEach isTargets

theorem bindLink_reordered (lower : s.depth < depth) (association : Association) (path : Path) :
    InStep BoundLink.Reordered (bindLink schema association path s)
      (bindLink schema' association path s) := by
  have bound (declared : List DeclaredFilter) (allowed : List String) (entry : EntryPoint)
      (lists : association.isMany → ∃ order, entry = .connection order) :
      InStep BoundLink.Reordered (do
        let filter ← s.declaredFilter declared allowed path
        let targets ← bindTargets schema entry association.target path s
        return (⟨association, filter, targets⟩ : BoundLink)) (do
        let filter ← s.declaredFilter declared allowed path
        let targets ← bindTargets schema' entry association.target path s
        return (⟨association, filter, targets⟩ : BoundLink)) := by
    refine (InStep.refl _).bind fun filter _ _ same => ?_
    cases same
    exact (bindTargets_reordered below built reorders lower entry lists _ path).bind
      fun targets targets' _ shuffled => .ok ⟨rfl, rfl, shuffled⟩
  rw [bindLink, bindLink]
  split
  · split
    · exact .error _ _
    · exact bound _ _ _ fun _ => ⟨_, rfl⟩
  · rename_i single
    exact bound _ _ _ fun many => absurd many single

theorem bindItem_reordered (lower : s.depth < depth) (type : ObjectType) (path : Path) :
    InStep (Option.Rel BoundItem.Reordered) (bindItem schema type path s)
      (bindItem schema' type path s) := by
  unfold bindItem
  split
  · exact (InStep.refl _).bind fun _ _ _ _ => .ok (.some (.scalar _))
  · exact (bindLink_reordered below built reorders lower _ path).map
      fun _ _ _ own => .some (.ofLink own)
  · split
    · exact (InStep.refl _).bind fun _ _ _ _ => .ok (.some .id)
    · split
      · exact .ok .none
      · exact .error _ _

/-- The fields of a record are bound alike. -/
theorem bindItems_reordered {children : List (String × Selection)}
    (lower : childrenDepth children ≤ depth) (type : ObjectType) (path : Path) :
    InStep (Keyed.Both BoundItem.Reordered) (bindItems schema type path children)
      (bindItems schema' type path children) := by
  induction children with
  | nil =>
    rw [bindItems, bindItems]
    exact .ok .nil
  | cons entry rest ih =>
    obtain ⟨key, child⟩ := entry
    simp only [childrenDepth] at lower
    rw [bindItems_cons_eq, bindItems_cons_eq]
    refine (bindItem_reordered below built reorders (by omega) type _).bind
      fun item item' _ own => (ih (by omega)).bind fun more more' _ others => .ok ?_
    cases own with
    | none => exact others
    | some both => exact .cons both others

end Below

section Whole

variable {schema schema' : Schema} {declared : Declarations}
  (built : Schema.build declared = .ok schema) (reorders : Schema.Reorders schema schema')

include built reorders

/-- Records are bound alike, however deep their selections are. -/
theorem fieldsReordered (depth : Nat) : FieldsReordered schema schema' depth := by
  induction depth with
  | zero => exact fun s lower => absurd lower (Nat.not_lt_zero _)
  | succ depth ih =>
    intro s lower type path
    have applies : appliesTo schema' = appliesTo schema := by
      funext type path condition
      rw [appliesTo, appliesTo, reorders.isAssignable]
    rw [bindField_eq, bindField_eq, applies]
    refine (InStep.refl _).bind fun resolved _ isResolved same => ?_
    cases same
    have deeper := depth_resolveFragments_le isResolved
    have children := childrenDepth_le_depth resolved
    exact (bindItems_reordered ih built reorders (by omega) type path).bind
      fun items items' _ both => .ok ⟨rfl, both⟩

/-! ### Root fields -/

theorem bindRoot_reordered (key : String) (s : Selection) :
    InStep RootRead.Reordered (bindRoot schema key s) (bindRoot schema' key s) := by
  have targets (many : Prop) (entry : EntryPoint)
      (lists : many → ∃ order, entry = .connection order) (target : String) (path : Path) :
      InStep (Target.Shuffled many) (bindTargets schema entry target path s)
        (bindTargets schema' entry target path s) :=
    bindTargets_reordered (fieldsReordered built reorders (s.depth + 1)) built reorders
      (Nat.lt_succ_self _) entry lists target path
  unfold bindRoot
  dsimp only
  rw [reorders.roots]
  split
  · exact .error _ _
  · split
    · refine (InStep.refl _).bind fun filter _ _ same => ?_
      cases same
      exact (targets (RootReadKind.many = .many) _ (fun _ => ⟨_, rfl⟩) _ _).bind
        fun found found' _ shuffled => .ok ⟨rfl, rfl, rfl, shuffled⟩
    · refine (InStep.refl _).bind fun id _ _ same => ?_
      cases same
      refine (InStep.refl _).bind fun filter _ _ same => ?_
      cases same
      exact (targets (RootReadKind.single id = .many) _ (fun many => nomatch many) _ _).bind
        fun found found' _ shuffled => .ok ⟨rfl, rfl, rfl, shuffled⟩

/-- **Both schemas accept the same queries, and what they ask for is the same but for the order of
the targets.** -/
theorem rootReads_reordered (s : Selection) :
    InStep (List.Forall₂ RootRead.Reordered) (s.rootReads schema) (s.rootReads schema') := by
  unfold rootReads
  refine (InStep.refl _).bind fun resolved _ _ same => ?_
  cases same
  exact InStep.mapM_list fun entry _ => bindRoot_reordered built reorders entry.1 entry.2

end Whole

end Selection

end GraphRead
