import GraphRead.Proofs.Binding.Formed
import GraphRead.Proofs.Failure
import GraphRead.Proofs.Schema.Build
/-!
Who is to blame when a query cannot be bound.

Most errors of binding are faults of the query, whatever the schema. The one that is not is raised
where an association that leads to lists has no order. Binding starts at types of the schema and
goes from there only to types of the schema (`mem_values_of_coveredTypes`), and in a built schema
all of these have been checked. So against a built schema every error of binding is a fault of the
query (`isUserError_of_rootReads`), by induction on how deep the selection is.
-/

namespace GraphRead

/-- Whatever a computation fails with, the query is at fault. -/
abbrev BlamesQuery {α : Type} (x : Except BindError α) : Prop :=
  FailsOnly (fun e => e.isUserError) x

/-- Whether an error is about the way in which something is asked, whatever types there are. -/
def BindError.isWritten : BindError → Bool
  | schema _ => false
  | typeNotFound _ _ => false
  | domain _ => false
  | _ => true

/-- Whatever a computation fails with is about the way in which something is asked. -/
abbrev BlamesWriting {α : Type} (x : Except BindError α) : Prop :=
  FailsOnly (fun e => e.isWritten) x

theorem BindError.isUserError_of_isWritten {e : BindError} (written : e.isWritten) :
    e.isUserError := by
  cases e <;> first | rfl | cases written

theorem FailsOnly.query {α : Type} {x : Except BindError α} (blames : BlamesWriting x) :
    BlamesQuery x :=
  blames.mono fun _ => BindError.isUserError_of_isWritten

namespace Selection

open FailsOnly

/-! ### Arguments -/

theorem limit?_blames (s : Selection) (argument : String) (path : Path) :
    BlamesWriting (s.limit? argument path) := by
  unfold limit?
  split
  · exact ok none
  · exact ok none
  · split
    · exact ok _
    · exact error rfl
  · exact error rfl

theorem cursor?_blames (s : Selection) (argument : String) (path : Path) :
    BlamesWriting (s.cursor? argument path) := by
  unfold cursor?
  split
  · exact ok none
  · exact ok none
  · split
    · exact ok _
    · exact error rfl
  · exact error rfl

theorem pagination_blames (s : Selection) (path : Path) : BlamesWriting (s.pagination path) := by
  unfold pagination
  refine (limit?_blames s _ path).bind fun first _ => (limit?_blames s _ path).bind fun last _ =>
    (cursor?_blames s _ path).bind fun after _ => (cursor?_blames s _ path).bind fun before _ => ?_
  split
  · exact error rfl
  · split
    · exact error rfl
    · exact ok _
  · split
    · exact error rfl
    · exact ok _
  · exact error rfl

theorem boundPagination_blames (s : Selection) (order : Order) (typed : Bool) (path : Path) :
    BlamesWriting (s.boundPagination order typed path) := by
  unfold boundPagination
  refine (pagination_blames s path).bind fun page _ => ?_
  split
  · exact error rfl
  · exact ok page

theorem argumentFilter_blames (s : Selection) (declared : List DeclaredFilter) (path : Path)
    (argument : String) (value : Value) :
    BlamesWriting (s.argumentFilter declared path argument value) := by
  unfold argumentFilter
  split
  · exact error rfl
  · exact mapError fun _ => rfl

theorem declaredFilter_blames (s : Selection) (declared : List DeclaredFilter)
    (allowed : List String) (path : Path) :
    BlamesWriting (s.declaredFilter declared allowed path) :=
  bind (mapM fun _ _ => argumentFilter_blames s declared path _ _) fun _ _ => ok _

theorem withoutArguments_blames (s : Selection) (path : Path) :
    BlamesWriting (s.withoutArguments path) := by
  unfold withoutArguments
  split
  · exact ok ()
  · exact error rfl

theorem lookupKey_blames (s : Selection) (root : RootField) (path : Path) :
    BlamesWriting (s.lookupKey root path) := by
  unfold lookupKey
  dsimp only
  split
  · exact error rfl
  · split
    · exact error rfl
    · exact ok _

/-! ### Fragments and the fixed fields -/

theorem spliceAt_blames (target fragment : Selection) (path : Path) :
    BlamesWriting (spliceAt target fragment path) :=
  mapError fun _ => rfl

theorem spliceQueue_failsOnly {allowed : BindError → Prop}
    (conflict : ∀ e : BindError, e.isWritten → allowed e) {accept : String → Except BindError Bool}
    (accepts : ∀ condition, FailsOnly allowed (accept condition)) (path : Path)
    (target : Selection) (queue : List (String × Selection)) :
    FailsOnly allowed (spliceQueue accept path target queue) := by
  fun_induction spliceQueue accept path target queue with
  | case1 target => exact ok target
  | case2 target condition fragment rest ihTaken ihDropped =>
    refine (accepts condition).bind fun applies _ => ?_
    split
    · exact ((spliceAt_blames _ _ path).mono conflict).bind fun next _ => ihTaken next
    · exact ihDropped

/-- Fragments are at fault where they do not fit, or where nothing is known of their type. -/
theorem resolveFragments_blames (schema : Schema) (type : String) (path : Path) (s : Selection) :
    BlamesQuery (resolveFragments (appliesTo schema type path) path s) :=
  spliceQueue_failsOnly (fun _ => BindError.isUserError_of_isWritten)
    (fun _ => mapError fun _ => rfl) path _ _

theorem resolveAlways_blames (path : Path) (s : Selection) :
    BlamesWriting (resolveFragments always path s) :=
  spliceQueue_failsOnly (fun _ written => written) (fun _ => ok true) path _ _

theorem mergeInto_blames (there : Option Selection) (s : Selection) (path : Path) :
    BlamesWriting (mergeInto there s path) := by
  unfold mergeInto
  split
  · exact ok s
  · exact mapError fun _ => rfl

theorem pageInfoField_blames (path : Path) (asked : PageInfoRequest) (key : String)
    (child : Selection) : BlamesWriting (pageInfoField path asked key child) := by
  unfold pageInfoField
  repeat' split
  all_goals first | exact ok _ | exact error rfl

theorem pageInfoRequest_blames (path : Path) (s : Selection) :
    BlamesWriting (pageInfoRequest path s) :=
  (resolveAlways_blames path s).bind fun _ _ =>
    foldlM _ fun asked _ _ => pageInfoField_blames path asked _ _

theorem connectionField_blames (type : String) (path : Path) (parts : ConnectionParts)
    (key : String) (child : Selection) :
    BlamesWriting (connectionField type path parts key child) := by
  unfold connectionField
  split
  · exact (mergeInto_blames _ child _).bind fun _ _ => ok _
  · split
    · exact (pageInfoRequest_blames _ child).bind fun _ _ => ok _
    · split
      · exact ok _
      · split
        · exact ok parts
        · exact error rfl

theorem connectionParts_blames (type : String) (path : Path)
    (children : List (String × Selection)) : BlamesWriting (connectionParts type path children) :=
  foldlM _ fun parts _ _ => connectionField_blames type path parts _ _

theorem edgeField_blames (type : String) (path : Path) (parts : EdgeParts) (key : String)
    (child : Selection) : BlamesWriting (edgeField type path parts key child) := by
  unfold edgeField
  split
  · exact (mergeInto_blames _ child _).bind fun _ _ => ok _
  · split
    · exact ok _
    · split
      · exact ok parts
      · exact error rfl

theorem edgeParts_blames (type : String) (path : Path) (children : List (String × Selection)) :
    BlamesWriting (edgeParts type path children) :=
  foldlM _ fun parts _ _ => edgeField_blames type path parts _ _

/-! ### Records, edges and connections -/

section Binder

variable (schema : Schema)

theorem targetTypes_blames (target : String) (path : Path) :
    BlamesQuery (targetTypes schema target path) :=
  mapError fun _ => rfl

theorem mem_associations {type : ObjectType} {name : String} {association : Association}
    (found : type.field? name = some (.link association)) : association ∈ type.associations :=
  List.mem_filterMap.mpr ⟨(name, .link association), Keyed.mem_of_get? found, rfl⟩

/-- Whatever is asked of a record by a selection that is less deep, the query is at fault if it
cannot be bound. -/
def FieldsBlame (depth : Nat) : Prop :=
  ∀ s : Selection, s.depth < depth → ∀ type ∈ schema.types.values, ∀ path,
    BlamesQuery (bindField schema type path s)

variable {schema} {depth : Nat} (below : FieldsBlame schema depth)

include below

theorem bindEdge_blames {type : ObjectType} (known : type ∈ schema.types.values) {path : Path}
    {s : Selection} (lower : s.depth ≤ depth) : BlamesQuery (bindEdge schema type path s) := by
  rw [bindEdge_eq]
  refine (resolveAlways_blames path s).query.bind fun resolved isResolved =>
    (edgeParts_blames _ path _).query.bind fun parts isParts => bind ?_ fun _ _ => ok _
  cases asked : parts.node with
  | none => exact ok none
  | some node =>
    have deeper := depth_lt_of_parts isResolved (depth_edgeParts_lt isParts asked)
    exact map some (below node (Nat.lt_of_lt_of_le deeper lower) type known _)

theorem bindConnection_blames {order : Order} {typed : Bool} {type : ObjectType}
    (known : type ∈ schema.types.values) {path : Path} {s : Selection} (lower : s.depth < depth) :
    BlamesQuery (bindConnection schema order typed type path s) := by
  rw [bindConnection_eq]
  refine (boundPagination_blames s _ typed path).query.bind fun page _ =>
    (resolveAlways_blames path s).query.bind fun resolved isResolved =>
      (connectionParts_blames _ path _).query.bind fun parts isParts => bind ?_ fun _ _ => ok _
  cases asked : parts.edges with
  | none => exact ok none
  | some edges =>
    have deeper := depth_lt_of_parts isResolved (depth_connectionParts_lt isParts asked)
    exact map some (bindEdge_blames below known (Nat.le_of_lt (Nat.lt_trans deeper lower)))

theorem bindEach_blames {entry : EntryPoint} {typed : Bool} {path : Path} {s : Selection}
    (lower : s.depth < depth) {types : List ObjectType}
    (known : ∀ type ∈ types, type ∈ schema.types.values) :
    BlamesQuery (bindEach schema entry typed path s types) := by
  induction types with
  | nil =>
    rw [bindEach]
    exact ok []
  | cons type rest ih =>
    rw [List.forall_mem_cons] at known
    rw [bindEach]
    refine bind ?_ fun _ _ => (ih known.2).bind fun _ _ => ok _
    unfold bindTarget
    cases entry with
    | field => exact map _ (below s lower type known.1 path)
    | connection order => exact map _ (bindConnection_blames below known.1 lower)
    | edge => exact map _ (bindEdge_blames below known.1 (Nat.le_of_lt lower))

/-- The targets of a position are of types of the schema, whatever its name. -/
theorem bindTargets_blames {entry : EntryPoint} {name : String} {path : Path} {s : Selection}
    (lower : s.depth < depth) : BlamesQuery (bindTargets schema entry name path s) := by
  rw [bindTargets]
  refine (targetTypes_blames schema name path).bind fun types isTypes =>
    bindEach_blames below lower ?_
  exact mem_values_of_coveredTypes (Fallible.mapError_eq_ok.mp isTypes)

/-- The only error that would not be a fault of the query is that an association has no order, and
an association that is as it has to be has one. -/
theorem bindLink_blames {association : Association} (ordered : association.orderFault? = none)
    {path : Path} {s : Selection} (lower : s.depth < depth) :
    BlamesQuery (bindLink schema association path s) := by
  rw [bindLink]
  split
  · rename_i many
    split
    · rename_i unordered
      rw [Association.orderFault?, many, unordered] at ordered
      cases ordered
    · exact (declaredFilter_blames s _ _ path).query.bind fun _ _ =>
        (bindTargets_blames below lower).bind fun _ _ => ok _
  · exact (declaredFilter_blames s _ _ path).query.bind fun _ _ =>
      (bindTargets_blames below lower).bind fun _ _ => ok _

theorem bindItems_blames {type : ObjectType}
    (ordered : ∀ association ∈ type.associations, association.orderFault? = none) {path : Path}
    {children : List (String × Selection)} (lower : childrenDepth children ≤ depth) :
    BlamesQuery (bindItems schema type path children) := by
  induction children with
  | nil =>
    rw [bindItems]
    exact ok []
  | cons entry rest ih =>
    obtain ⟨key, child⟩ := entry
    simp only [childrenDepth] at lower
    have rest := ih (by omega)
    rw [bindItems]
    split
    · exact (withoutArguments_blames child _).query.bind fun _ _ => (ok _).bind fun _ _ =>
        rest.bind fun _ _ => ok _
    · rename_i association found
      exact (map _ (bindLink_blames below (ordered association (mem_associations found))
        (by omega))).bind fun _ _ => rest.bind fun _ _ => ok _
    · split
      · exact (withoutArguments_blames child _).query.bind fun _ _ => (ok _).bind fun _ _ =>
          rest.bind fun _ _ => ok _
      · split
        · exact (ok _).bind fun _ _ => rest.bind fun _ _ => ok _
        · exact error rfl

omit below

/-- What is asked of a record is bound to the fault of nobody but the query, however deep the
selection is. -/
theorem fieldsBlame (ordered : schema.Ordered) (depth : Nat) : FieldsBlame schema depth := by
  induction depth with
  | zero => exact fun s lower => absurd lower (Nat.not_lt_zero _)
  | succ depth ih =>
    intro s lower type known path
    rw [bindField_eq]
    refine (resolveFragments_blames schema _ path s).bind
      fun resolved isResolved => bind ?_ fun _ _ => ok _
    have deeper := depth_resolveFragments_le isResolved
    have children := childrenDepth_le_depth resolved
    exact bindItems_blames ih (ordered type known) (by omega)

/-! ### Root fields -/

theorem bindRoot_blames (ordered : schema.Ordered) (key : String) (s : Selection) :
    BlamesQuery (bindRoot schema key s) := by
  have targets {entry : EntryPoint} {name : String} {path : Path} :
      BlamesQuery (bindTargets schema entry name path s) :=
    bindTargets_blames (fieldsBlame ordered _) (Nat.lt_succ_self _)
  unfold bindRoot
  dsimp only
  split
  · exact error rfl
  · split
    · exact (declaredFilter_blames s _ _ _).query.bind fun _ _ => targets.bind fun _ _ => ok _
    · exact (lookupKey_blames s _ _).query.bind fun _ _ =>
        (declaredFilter_blames s _ _ _).query.bind fun _ _ => targets.bind fun _ _ => ok _

mutual

theorem resolveRoot_blames : ∀ s : Selection, BlamesQuery (resolveRoot s)
  | ⟨name, aliasName, arguments, children, fragments⟩ => by
    rw [resolveRoot]
    exact spliceConditions_blames _ fragments

theorem spliceConditions_blames (target : Selection) :
    ∀ fragments : List (String × List Selection), BlamesQuery (spliceConditions target fragments)
  | [] => by
    rw [spliceConditions]
    exact ok target
  | (condition, members) :: rest => by
    rw [spliceConditions]
    split
    · exact (spliceMembers_blames target members).bind fun next _ =>
        spliceConditions_blames next rest
    · exact error rfl

theorem spliceMembers_blames (target : Selection) :
    ∀ members : List Selection, BlamesQuery (spliceMembers target members)
  | [] => by
    rw [spliceMembers]
    exact ok target
  | member :: rest => by
    rw [spliceMembers]
    refine (resolveRoot_blames member).bind fun resolved _ => ?_
    have spliced : BlamesQuery ((target.splice resolved).result.mapError fun field =>
        .query ⟨rootPath, .duplicateField field⟩) := mapError fun _ => rfl
    exact spliced.bind fun next _ => spliceMembers_blames next rest

end

/-- **Against a built schema the query is at fault if it cannot be bound.** -/
theorem isUserError_of_rootReads {declared : Declarations}
    (built : Schema.build declared = .ok schema) {root : Selection} {e : BindError}
    (failed : root.rootReads schema = .error e) : e.isUserError := by
  refine bind (resolveRoot_blames root) (fun resolved _ => ?_) e failed
  exact mapM fun _ _ => bindRoot_blames (Schema.ordered_of_build built) _ _

end Binder

end Selection

end GraphRead
