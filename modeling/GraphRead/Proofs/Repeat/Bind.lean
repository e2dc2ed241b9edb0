import GraphRead.Proofs.Binding.Formed
import GraphRead.Proofs.Binding.Item
import GraphRead.Proofs.Repeat.Fragments
/-!
Selections with repetitions are bound alike.

Arguments are read from a selection itself, and its fields from its children after the fragments
that apply have been taken over. Both are the same in a selection with repetitions, so what is bound
is not only alike but the same (`bindField_inStep`, `rootReads_inStep`), by induction on how deep
the selection without repetitions is.
-/

namespace GraphRead.Selection

open Fallible

variable {schema : Schema} {s s' : Selection}

/-! ### Arguments -/

theorem Repeats.declaredFilter (r : Repeats s s') (declared : List DeclaredFilter)
    (allowed : List String) (path : Path) :
    s'.declaredFilter declared allowed path = s.declaredFilter declared allowed path := by
  unfold Selection.declaredFilter argumentFilter
  rw [r.name, r.arguments]

theorem Repeats.withoutArguments (r : Repeats s s') (path : Path) :
    s'.withoutArguments path = s.withoutArguments path := by
  unfold Selection.withoutArguments
  rw [r.name, r.arguments]

theorem Repeats.boundPagination (r : Repeats s s') (order : Order) (typed : Bool) (path : Path) :
    s'.boundPagination order typed path = s.boundPagination order typed path := by
  unfold Selection.boundPagination pagination limit? cursor? argument?
  rw [r.name, r.arguments]

theorem Repeats.lookupKey (r : Repeats s s') (root : RootField) (path : Path) :
    s'.lookupKey root path = s.lookupKey root path := by
  unfold Selection.lookupKey argument?
  rw [r.arguments]

/-! ### Records, edges and connections -/

/-- Records are bound alike by selections that are less deep. -/
def FieldsInStep (schema : Schema) (depth : Nat) : Prop :=
  ∀ s s' : Selection, s.depth < depth → Repeats s s' → ∀ type path,
    InStep (· = ·) (bindField schema type path s) (bindField schema type path s')

section Below

variable {depth : Nat} (below : FieldsInStep schema depth) (r : Repeats s s')

include below r

theorem bindEdge_inStep (lower : s.depth ≤ depth) (type : ObjectType) (path : Path) :
    InStep (· = ·) (bindEdge schema type path s) (bindEdge schema type path s') := by
  rw [bindEdge_eq, bindEdge_eq]
  refine (resolveFragments_inStep r always path).bind fun resolved resolved' isResolved both => ?_
  refine (edgeParts_inStep both.children type.name path).bind fun parts parts' isParts asked => ?_
  refine (InStep.mapM_option asked.node fun node node' known own => ?_).bind
    fun bound bound' _ same => .ok ?_
  · have deeper := depth_lt_of_parts isResolved (depth_edgeParts_lt isParts known)
    exact below node node' (Nat.lt_of_lt_of_le deeper lower) own type _
  · rw [same, asked.cursor]

theorem bindConnection_inStep (lower : s.depth < depth) (order : Order) (typed : Bool)
    (type : ObjectType) (path : Path) :
    InStep (· = ·) (bindConnection schema order typed type path s)
      (bindConnection schema order typed type path s') := by
  rw [bindConnection_eq, bindConnection_eq, r.boundPagination]
  refine (InStep.refl _).bind fun page page' _ samePage => ?_
  refine (resolveFragments_inStep r always path).bind fun resolved resolved' isResolved both => ?_
  refine (connectionParts_inStep both.children type.name path).bind
    fun parts parts' isParts asked => ?_
  refine (InStep.mapM_option asked.edges fun edges edges' known own => ?_).bind
    fun bound bound' _ same => .ok ?_
  · have deeper := depth_lt_of_parts isResolved (depth_connectionParts_lt isParts known)
    exact bindEdge_inStep below own (Nat.le_of_lt (Nat.lt_trans deeper lower)) type _
  · rw [samePage, same, asked.pageInfo, asked.count]

theorem bindEach_inStep (lower : s.depth < depth) (entry : EntryPoint) (typed : Bool)
    (path : Path) (types : List ObjectType) :
    InStep (· = ·) (bindEach schema entry typed path s types)
      (bindEach schema entry typed path s' types) := by
  induction types with
  | nil =>
    rw [bindEach, bindEach]
    exact .ok rfl
  | cons type rest ih =>
    have first : InStep (· = ·) (bindTarget schema entry typed type path s)
        (bindTarget schema entry typed type path s') := by
      unfold bindTarget
      cases entry with
      | field => exact (below s s' lower r type path).map fun _ _ _ same => congrArg _ same
      | connection order =>
        exact (bindConnection_inStep below r lower order typed type path).map
          fun _ _ _ same => congrArg _ same
      | edge =>
        exact (bindEdge_inStep below r (Nat.le_of_lt lower) type path).map
          fun _ _ _ same => congrArg _ same
    rw [bindEach, bindEach]
    refine first.bind fun target target' _ same => ih.bind fun more more' _ others => .ok ?_
    rw [same, others]

theorem bindTargets_inStep (lower : s.depth < depth) (entry : EntryPoint) (target : String)
    (path : Path) :
    InStep (· = ·) (bindTargets schema entry target path s)
      (bindTargets schema entry target path s') := by
  rw [bindTargets, bindTargets]
  refine (InStep.refl _).bind fun types types' _ same => ?_
  rw [same]
  exact bindEach_inStep below r lower entry _ path types'

theorem bindLink_inStep (lower : s.depth < depth) (association : Association) (path : Path) :
    InStep (· = ·) (bindLink schema association path s)
      (bindLink schema association path s') := by
  have bound (declared : List DeclaredFilter) (allowed : List String) (entry : EntryPoint) :
      InStep (· = ·) (do
        let filter ← s.declaredFilter declared allowed path
        let targets ← bindTargets schema entry association.target path s
        return (⟨association, filter, targets⟩ : BoundLink)) (do
        let filter ← s'.declaredFilter declared allowed path
        let targets ← bindTargets schema entry association.target path s'
        return (⟨association, filter, targets⟩ : BoundLink)) := by
    rw [r.declaredFilter]
    refine (InStep.refl _).bind fun filter filter' _ sameFilter => ?_
    refine (bindTargets_inStep below r lower entry _ path).bind
      fun targets targets' _ sameTargets => .ok ?_
    rw [sameFilter, sameTargets]
  rw [bindLink, bindLink]
  split
  · split
    · exact .error _ _
    · exact bound _ _ _
  · exact bound _ _ _

theorem bindItem_inStep (lower : s.depth < depth) (type : ObjectType) (path : Path) :
    InStep (· = ·) (bindItem schema type path s) (bindItem schema type path s') := by
  unfold bindItem
  rw [r.name, r.withoutArguments]
  split
  · exact .refl _
  · exact (bindLink_inStep below r lower _ path).map fun _ _ _ same => by rw [same]
  · exact .refl _

omit r

/-- The fields of a record are bound alike. -/
theorem bindItems_inStep {children children' : List (String × Selection)}
    (both : Keyed.Both Repeats children children') (lower : childrenDepth children ≤ depth)
    (type : ObjectType) (path : Path) :
    InStep (· = ·) (bindItems schema type path children)
      (bindItems schema type path children') := by
  induction both with
  | nil =>
    rw [bindItems]
    exact .ok rfl
  | cons own later ih =>
    simp only [childrenDepth] at lower
    rw [bindItems_cons_eq, bindItems_cons_eq]
    refine (bindItem_inStep below own (by omega) type _).bind fun item item' _ same => ?_
    refine (ih (by omega)).bind fun more more' _ others => .ok ?_
    rw [same, others]

end Below

/-- Records are bound alike, however deep their selections are. -/
theorem fieldsInStep (schema : Schema) (depth : Nat) : FieldsInStep schema depth := by
  induction depth with
  | zero => exact fun s s' lower => absurd lower (Nat.not_lt_zero _)
  | succ depth ih =>
    intro s s' lower r type path
    rw [bindField_eq, bindField_eq]
    refine (resolveFragments_inStep r _ path).bind fun resolved resolved' isResolved both => ?_
    have deeper := depth_resolveFragments_le isResolved
    have children := childrenDepth_le_depth resolved
    refine (bindItems_inStep ih both.children (by omega) type path).bind
      fun items items' _ same => .ok ?_
    rw [same]

/-! ### Root fields -/

theorem bindRoot_inStep (r : Repeats s s') (key : String) :
    InStep (· = ·) (bindRoot schema key s) (bindRoot schema key s') := by
  have targets (entry : EntryPoint) (target : String) (path : Path) :
      InStep (· = ·) (bindTargets schema entry target path s)
        (bindTargets schema entry target path s') :=
    bindTargets_inStep (fieldsInStep schema (s.depth + 1)) r (Nat.lt_succ_self _) entry target path
  unfold bindRoot
  dsimp only
  rw [r.name]
  split
  · exact .error _ _
  · split
    · rw [r.declaredFilter]
      refine (InStep.refl _).bind fun filter filter' _ sameFilter => ?_
      refine (targets _ _ _).bind fun found found' _ sameTargets => .ok ?_
      rw [sameFilter, sameTargets]
    · rw [r.declaredFilter, r.lookupKey]
      refine (InStep.refl _).bind fun id id' _ sameId => ?_
      refine (InStep.refl _).bind fun filter filter' _ sameFilter => ?_
      refine (targets _ _ _).bind fun found found' _ sameTargets => .ok ?_
      rw [sameId, sameFilter, sameTargets]

/-- **The query type is bound to the same reads, or not at all.** -/
theorem rootReads_inStep (r : Repeats s s') :
    InStep (· = ·) (s.rootReads schema) (s'.rootReads schema) := by
  unfold rootReads
  refine (resolveRoot_inStep s' r).bind fun resolved resolved' _ both => ?_
  refine InStep.mapM (both.children.filter fun key child child' own => ?_)
    fun key child child' own => bindRoot_inStep own key
  exact congrArg (fun name => decide (name ≠ typeName)) own.name

end GraphRead.Selection
