import GraphRead.Proofs.Graphql.Isolation
/-!
Why a document is not converted.

The variables and numbers of a document are looked at in reading order, the operation before the
fragments (`leaves`), and the first that has no value is the reason why the conversion fails
(`failure?_convert`). So it fails for a missing variable exactly if that is the first one
(`convert_missing_iff`).
-/

namespace GraphRead

namespace Fallible

variable {ε φ α β γ : Type}

/-- The error of a computation that fails. -/
def failure? : Except ε α → Option ε
  | .ok _ => none
  | .error e => some e

theorem failure?_eq_some {x : Except ε α} {e : ε} : failure? x = some e ↔ x = .error e := by
  cases x with
  | ok a => exact iff_of_false nofun nofun
  | error e' =>
    exact ⟨fun same => congrArg _ (Option.some.inj same), fun same => by cases same; rfl⟩

theorem failure?_eq_none {x : Except ε α} : failure? x = none ↔ ∃ a, x = .ok a := by
  cases x with
  | ok a => exact iff_of_true rfl ⟨a, rfl⟩
  | error e => exact iff_of_false nofun nofun

theorem failure?_map (x : Except ε α) (f : α → β) : failure? (x.map f) = failure? x := by
  cases x <;> rfl

theorem failure?_mapError (x : Except ε α) (f : ε → φ) :
    failure? (x.mapError f) = (failure? x).map f := by
  cases x <;> rfl

theorem failure?_return (x : Except ε α) (f : α → β) :
    failure? (do return f (← x)) = failure? x := by
  cases x <;> rfl

/-- Of two steps that do not need each other the first failure counts. -/
theorem failure?_both (x : Except ε α) (y : Except ε β) (f : α → β → γ) :
    failure? (do
      let a ← x
      let b ← y
      return f a b) = (failure? x).or (failure? y) := by
  cases x <;> cases y <;> rfl

end Fallible

namespace Graphql

open Fallible

/-! ### Leaves -/

/-- A part of an input that can be without a value. -/
inductive Leaf (ν : Type) where
  | var (name : ν)
  | number (x : Binary64)

namespace Leaf

variable {ν : Type} (lookup : ν → Except QueryFault (Option Value))

/-- A variable has a value or may be left out, a number is finite. -/
def HasValue : Leaf ν → Prop
  | var name => ∃ v, lookup name = .ok v
  | number x => x.isFinite

/-- Why a leaf has no value. -/
def fault? : Leaf ν → Option QueryFault
  | var name => failure? (lookup name)
  | number x => if x.isFinite then none else some (.infiniteNumber (x == .infinite true))

theorem fault?_eq_none (leaf : Leaf ν) : leaf.fault? lookup = none ↔ leaf.HasValue lookup := by
  cases leaf with
  | var name => exact failure?_eq_none
  | number x =>
    rw [fault?, HasValue]
    cases x.isFinite <;> simp

end Leaf

namespace Input

variable {ν : Type}

mutual

/-- The variables and numbers of an input, in order. -/
def leaves : Input ν → List (Leaf ν)
  | var name => [.var name]
  | float x => [.number x]
  | list items => leavesOfItems items
  | object members => leavesOfMembers members
  | int _ | string _ | boolean _ | null | enum _ => []

/-- The variables and numbers of the items of a list. -/
def leavesOfItems : List (Input ν) → List (Leaf ν)
  | [] => []
  | item :: rest => leaves item ++ leavesOfItems rest

/-- The variables and numbers of the members of an object. -/
def leavesOfMembers : List (String × Input ν) → List (Leaf ν)
  | [] => []
  | (_, item) :: rest => leaves item ++ leavesOfMembers rest

end

variable (lookup : ν → Except QueryFault (Option Value))

theorem failure?_float (x : Binary64) :
    failure? ((float x : Input ν).value lookup) = (Leaf.number x : Leaf ν).fault? lookup := by
  rw [value, Leaf.fault?]
  cases read : Value.ofBinary64 x with
  | ok v => exact (if_pos (ofBinary64_ok.mp ⟨v, read⟩)).symm
  | error e =>
    refine (if_neg fun finite => ?_).symm
    obtain ⟨v, known⟩ := ofBinary64_ok.mpr finite
    rw [read] at known
    cases known

mutual

/-- An input has no value for the reason of its first leaf that has none. -/
theorem failure?_value : ∀ input : Input ν,
    failure? (input.value lookup) = input.leaves.findSome? (Leaf.fault? lookup)
  | var name => by
    rw [value, failure?_return, leaves, List.findSome?_singleton, Leaf.fault?]
  | float x => by
    rw [failure?_float, leaves, List.findSome?_singleton]
  | list items => by
    rw [value, failure?_return, leaves, failure?_itemValues items]
  | object members => by
    rw [value, failure?_return, leaves, failure?_memberValues members]
  | int _ | string _ | boolean _ | null | enum _ => rfl

theorem failure?_itemValues : ∀ items : List (Input ν),
    failure? (itemValues lookup items) = (leavesOfItems items).findSome? (Leaf.fault? lookup)
  | [] => rfl
  | item :: rest => by
    rw [itemValues, failure?_both, leavesOfItems, List.findSome?_append, failure?_value item,
      failure?_itemValues rest]

theorem failure?_memberValues : ∀ members : List (String × Input ν),
    failure? (memberValues lookup members) =
      (leavesOfMembers members).findSome? (Leaf.fault? lookup)
  | [] => rfl
  | (key, item) :: rest => by
    rw [memberValues, failure?_both, leavesOfMembers, List.findSome?_append, failure?_value item,
      failure?_memberValues rest]

end

/-- An input without variables misses none. -/
theorem constant_ne_missing (input : Input Empty) (name : String) :
    input.constant ≠ .error (.missingVariable name) := by
  intro missing
  unfold constant at missing
  have first := (failure?_value _ input).symm.trans (failure?_eq_some.mpr missing)
  obtain ⟨leaf, -, fault⟩ := List.exists_of_findSome?_eq_some first
  cases leaf with
  | var none => cases none
  | number x =>
    rw [Leaf.fault?] at fault
    split at fault <;> cases fault

end Input

mutual

/-- The variables and numbers in the arguments of an item, in order. -/
def leavesOfItem : Item (Input String) → List (Leaf String)
  | .field head items =>
    (head.arguments.flatMap fun entry => entry.2.leaves) ++ leavesOfItems items
  | .spread _ => []
  | .inline _ items => leavesOfItems items

/-- The variables and numbers in the arguments of a selection set, in order. -/
def leavesOfItems : List (Item (Input String)) → List (Leaf String)
  | [] => []
  | first :: rest => leavesOfItem first ++ leavesOfItems rest

end

/-- The variables and numbers that an operation and the fragments of a document use, in the order
in which they are looked at. -/
def leaves (source : Source) (o : Operation) : List (Leaf String) :=
  leavesOfItems o.items ++ (fragments source).flatMap fun f => leavesOfItems f.items

/-! ### The first leaf without a value -/

namespace Variables

variable (given : Variables)

theorem failure?_argument (input : Input String) :
    failure? (given.argument input) = input.leaves.findSome? (Leaf.fault? given.lookup) := by
  unfold argument
  split
  · rw [Input.leaves, List.findSome?_singleton, Leaf.fault?]
  · rw [failure?_map, Input.failure?_value]

theorem failure?_arguments (written : List (String × Input String)) :
    failure? (given.arguments written) =
      (written.flatMap fun entry => entry.2.leaves).findSome? (Leaf.fault? given.lookup) := by
  induction written with
  | nil => rfl
  | cons entry rest ih =>
    obtain ⟨name, input⟩ := entry
    rw [arguments, List.flatMap_cons, List.findSome?_append, ← ih, ← failure?_argument]
    exact failure?_both ..

mutual

theorem failure?_item : ∀ (path : Path) (written : Item (Input String)),
    (failure? (given.item path written)).map QueryError.fault =
      (leavesOfItem written).findSome? (Leaf.fault? given.lookup)
  | path, .field head items => by
    rw [item, failure?_both, leavesOfItem, List.findSome?_append, ← failure?_arguments,
      ← failure?_itemList (path.add head.outputKey) items, failure?_mapError, Option.map_or,
      Option.map_map]
    exact congrArg (Option.or · _) (congrFun Option.map_id _)
  | path, .spread fragment => rfl
  | path, .inline condition items => by
    rw [item, failure?_return, leavesOfItem, failure?_itemList path items]

theorem failure?_itemList : ∀ (path : Path) (written : List (Item (Input String))),
    (failure? (given.itemList path written)).map QueryError.fault =
      (leavesOfItems written).findSome? (Leaf.fault? given.lookup)
  | path, [] => rfl
  | path, first :: rest => by
    rw [itemList, failure?_both, leavesOfItems, List.findSome?_append, Option.map_or,
      failure?_item path first, failure?_itemList path rest]

end

theorem failure?_fragments (path : Path) (written : List FragmentDefinition) :
    (failure? (written.mapM (given.fragment path))).map QueryError.fault =
      (written.flatMap fun f => leavesOfItems f.items).findSome? (Leaf.fault? given.lookup) := by
  induction written with
  | nil => rfl
  | cons f rest ih =>
    rw [List.mapM_cons, failure?_both, List.flatMap_cons, List.findSome?_append, Option.map_or, ih,
      fragment, failure?_return, failure?_itemList]

/-- A variable that is neither supplied nor has a default, and is required or not declared. -/
def Missing (name : String) : Prop :=
  (Keyed.get? given.supplied name).isNone ∧
    ∀ definition ∈ given.declaration? name, definition.default.isNone ∧ definition.type.isRequired

instance (name : String) : Decidable (given.Missing name) := by unfold Missing; infer_instance

theorem lookup_missing {name missed : String} :
    given.lookup name = .error (.missingVariable missed) ↔ name = missed ∧ given.Missing name := by
  unfold lookup Missing
  cases Keyed.get? given.supplied name with
  | some json =>
    refine iff_of_false (fun failed => ?_) ?_
    · dsimp only at failed
      split at failed <;> cases failed
    · rintro ⟨_, free, _⟩
      cases free
  | none =>
    cases declared : given.declaration? name with
    | none => simp
    | some definition =>
      obtain ⟨_, type, default⟩ := definition
      cases default with
      | some default =>
        refine iff_of_false (fun failed => ?_) ?_
        · exact default.constant_ne_missing missed
            (failure?_eq_some.mp ((failure?_map _ _).symm.trans (failure?_eq_some.mpr failed)))
        · rintro ⟨_, _, required⟩
          cases (required ⟨_, type, some default⟩ rfl).1
      | none => cases required : type.isRequired <;> simp [required]

theorem fault?_missing {leaf : Leaf String} {name : String} :
    leaf.fault? given.lookup = some (.missingVariable name) ↔
      leaf = .var name ∧ given.Missing name := by
  cases leaf with
  | var other =>
    rw [Leaf.fault?, failure?_eq_some, lookup_missing, Leaf.var.injEq]
    exact and_congr_right fun same => by rw [same]
  | number x =>
    refine iff_of_false (fun fault => ?_) fun ⟨same, _⟩ => nomatch same
    rw [Leaf.fault?] at fault
    split at fault <;> cases fault

end Variables

section Convert

variable {source : Source} {wanted : Option String} {o : Operation}
  {supplied : List (String × Json)}

theorem convert_of_picked (picked : pickOperation source wanted = .ok o)
    (isQuery : o.kind = .query) : convert source wanted supplied = (do
      let items ← Variables.itemList ⟨supplied, o.declared⟩ [rootName] o.items
      let pairs ← (fragments source).mapM (Variables.fragment ⟨supplied, o.declared⟩ [rootName])
      return ⟨⟨⟨rootName, none, []⟩, items⟩, Keyed.ofList pairs⟩) := by
  have queried : requireQuery o = .ok o := by rw [requireQuery, isQuery]
  have both : ((pickOperation source wanted).bind requireQuery) = .ok o := by
    rw [picked]
    exact queried
  unfold convert
  rw [both]
  rfl

/-- A query is not converted for the reason of its first leaf without a value. -/
theorem failure?_convert (picked : pickOperation source wanted = .ok o)
    (isQuery : o.kind = .query) :
    (failure? (convert source wanted supplied)).map QueryError.fault =
      (leaves source o).findSome? (Leaf.fault? (Variables.lookup ⟨supplied, o.declared⟩)) := by
  rw [convert_of_picked picked isQuery, failure?_both, Option.map_or, leaves,
    List.findSome?_append, Variables.failure?_itemList, Variables.failure?_fragments]

/-- A conversion fails for a missing variable exactly if that is the first leaf without a value. -/
theorem convert_missing_iff (picked : pickOperation source wanted = .ok o)
    (isQuery : o.kind = .query) (name : String) :
    (∃ path, convert source wanted supplied = .error ⟨path, .missingVariable name⟩) ↔
      Variables.Missing ⟨supplied, o.declared⟩ name ∧ ∃ before after,
        leaves source o = before ++ .var name :: after ∧
        ∀ leaf ∈ before, leaf.HasValue (Variables.lookup ⟨supplied, o.declared⟩) := by
  have first : (∃ path, convert source wanted supplied = .error ⟨path, .missingVariable name⟩) ↔
      (failure? (convert source wanted supplied)).map QueryError.fault =
        some (.missingVariable name) := by
    rw [Option.map_eq_some_iff]
    constructor
    · rintro ⟨path, failed⟩
      exact ⟨_, failure?_eq_some.mpr failed, rfl⟩
    · rintro ⟨⟨path, _⟩, failed, rfl⟩
      exact ⟨path, failure?_eq_some.mp failed⟩
  rw [first, failure?_convert picked isQuery, List.findSome?_eq_some_iff]
  constructor
  · rintro ⟨before, leaf, after, cut, fault, others⟩
    obtain ⟨rfl, missing⟩ := (Variables.fault?_missing _).mp fault
    exact ⟨missing, before, after, cut, fun leaf present =>
      (leaf.fault?_eq_none _).mp (others leaf present)⟩
  · rintro ⟨missing, before, after, cut, others⟩
    exact ⟨before, _, after, cut, (Variables.fault?_missing _).mpr ⟨rfl, missing⟩,
      fun leaf present => (leaf.fault?_eq_none _).mpr (others leaf present)⟩

end Convert

end Graphql

end GraphRead
