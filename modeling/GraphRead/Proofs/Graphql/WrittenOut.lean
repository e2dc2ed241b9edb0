import GraphRead.Proofs.Graphql.Literal
import GraphRead.Proofs.Graphql.Missing
/-!
Documents with the values of their variables written out.

In place of a variable stands the literal of the value that was supplied for it, else its default.
An argument that is a variable left out is dropped, and elsewhere null stands for such a variable
(`Variables.writtenOut`). The variables that remain are the missing ones
(`Variables.missing_of_leaves_writtenOut`).
-/

namespace GraphRead.Graphql

namespace Input

variable {ν μ : Type}

mutual

/-- An input with other names of variables. -/
def rename (f : ν → μ) : Input ν → Input μ
  | var name => var (f name)
  | int i => int i
  | float x => float x
  | string s => string s
  | boolean b => boolean b
  | null => null
  | enum s => enum s
  | list items => list (renameItems f items)
  | object members => object (renameMembers f members)

/-- The items of a list with other names of variables. -/
def renameItems (f : ν → μ) : List (Input ν) → List (Input μ)
  | [] => []
  | item :: rest => rename f item :: renameItems f rest

/-- The members of an object with other names of variables. -/
def renameMembers (f : ν → μ) : List (String × Input ν) → List (String × Input μ)
  | [] => []
  | (key, item) :: rest => (key, rename f item) :: renameMembers f rest

end

/-! ### Literals use no variables -/

theorem mem_leavesOfMembers {members : List (String × Input ν)} {leaf : Leaf ν} :
    leaf ∈ leavesOfMembers members ↔ ∃ entry ∈ members, leaf ∈ entry.2.leaves := by
  induction members with
  | nil => simp [leavesOfMembers]
  | cons member rest ih =>
    obtain ⟨key, item⟩ := member
    rw [leavesOfMembers, List.mem_append, ih, List.exists_mem_cons_iff]

mutual

theorem not_mem_leaves_ofJson : ∀ (json : Json) (name : ν), .var name ∉ (ofJson json).leaves
  | .array items, name => not_mem_leavesOfItems_ofJson items name
  | .object members, name => by
    intro used
    obtain ⟨entry, present, used⟩ := mem_leavesOfMembers.mp used
    exact not_mem_leavesOfMembers_ofJson members name
      (mem_leavesOfMembers.mpr ⟨entry, Parser.mem_sortMembers present, used⟩)
  | .number (.real _), _ => fun used => nomatch List.mem_singleton.mp used
  | .null, _ | .boolean _, _ | .number (.integer _), _ | .string _, _ => List.not_mem_nil

theorem not_mem_leavesOfItems_ofJson : ∀ (items : List Json) (name : ν),
    .var name ∉ leavesOfItems (itemsOfJson items)
  | [], _ => List.not_mem_nil
  | item :: rest, name => fun used =>
    (List.mem_append.mp used).elim (not_mem_leaves_ofJson item name)
      (not_mem_leavesOfItems_ofJson rest name)

theorem not_mem_leavesOfMembers_ofJson : ∀ (members : List (String × Json)) (name : ν),
    .var name ∉ leavesOfMembers (membersOfJson members)
  | [], _ => List.not_mem_nil
  | (_, item) :: rest, name => fun used =>
    (List.mem_append.mp used).elim (not_mem_leaves_ofJson item name)
      (not_mem_leavesOfMembers_ofJson rest name)

end

mutual

theorem not_mem_leaves_rename : ∀ (input : Input Empty) (name : ν),
    .var name ∉ (input.rename Empty.elim : Input ν).leaves
  | list items, name => not_mem_leavesOfItems_rename items name
  | object members, name => not_mem_leavesOfMembers_rename members name
  | float _, _ => fun used => nomatch List.mem_singleton.mp used
  | int _, _ | string _, _ | boolean _, _ | null, _ | enum _, _ => List.not_mem_nil

theorem not_mem_leavesOfItems_rename : ∀ (items : List (Input Empty)) (name : ν),
    .var name ∉ leavesOfItems (renameItems Empty.elim items : List (Input ν))
  | [], _ => List.not_mem_nil
  | item :: rest, name => fun used =>
    (List.mem_append.mp used).elim (not_mem_leaves_rename item name)
      (not_mem_leavesOfItems_rename rest name)

theorem not_mem_leavesOfMembers_rename : ∀ (members : List (String × Input Empty)) (name : ν),
    .var name ∉ leavesOfMembers (renameMembers Empty.elim members : List (String × Input ν))
  | [], _ => List.not_mem_nil
  | (_, item) :: rest, name => fun used =>
    (List.mem_append.mp used).elim (not_mem_leaves_rename item name)
      (not_mem_leavesOfMembers_rename rest name)

end

end Input

namespace Variables

/-! ### Writing out -/

section WritingOut

variable (given : Variables)

/-- The literal of a variable: of the value that was supplied, else its default. -/
def literal? (name : String) : Option (Input String) :=
  match Keyed.get? given.supplied name with
  | some json => some (.ofJson json)
  | none => (given.declaration? name).bind fun definition =>
    definition.default.map (Input.rename Empty.elim)

/-- Whether a variable may be left out and was: it is neither supplied nor has a default, and is
declared without being required. -/
def omits (name : String) : Bool :=
  match Keyed.get? given.supplied name, given.declaration? name with
  | none, some ⟨_, type, none⟩ => !type.isRequired
  | _, _ => false

mutual

/-- An input with its variables written out. A variable that is missing stays. -/
def writtenOut : Input String → Input String
  | .var name => (given.literal? name).getD (if given.omits name then .null else .var name)
  | .list items => .list (itemsWrittenOut items)
  | .object members => .object (membersWrittenOut members)
  | input => input

/-- The items of a list with their variables written out. -/
def itemsWrittenOut : List (Input String) → List (Input String)
  | [] => []
  | item :: rest => writtenOut item :: itemsWrittenOut rest

/-- The members of an object with their variables written out. -/
def membersWrittenOut : List (String × Input String) → List (String × Input String)
  | [] => []
  | (key, item) :: rest => (key, writtenOut item) :: membersWrittenOut rest

end

/-- Whether an input is a variable that was left out. -/
def leavesOut : Input String → Bool
  | .var name => given.omits name
  | _ => false

/-- Arguments with their variables written out, without those that are variables left out. -/
def argumentsWrittenOut (written : List (String × Input String)) :
    List (String × Input String) :=
  (written.filter fun entry => !given.leavesOut entry.2).map (Prod.map id given.writtenOut)

mutual

/-- An item with the variables in its arguments written out. -/
def itemWrittenOut : Item (Input String) → Item (Input String)
  | .field head items =>
    .field ⟨head.name, head.aliasName, given.argumentsWrittenOut head.arguments⟩
      (itemListWrittenOut items)
  | .spread fragment => .spread fragment
  | .inline condition items => .inline condition (itemListWrittenOut items)

/-- A selection set with the variables in its arguments written out. -/
def itemListWrittenOut : List (Item (Input String)) → List (Item (Input String))
  | [] => []
  | first :: rest => itemWrittenOut first :: itemListWrittenOut rest

end

/-- An operation with its variables written out. -/
def operationWrittenOut (o : Operation) : Operation :=
  { o with items := given.itemListWrittenOut o.items }

/-- A fragment with its variables written out. -/
def fragmentWrittenOut (f : FragmentDefinition) : FragmentDefinition :=
  { f with items := given.itemListWrittenOut f.items }

/-- A document with its variables written out. -/
def sourceWrittenOut (source : Source) : Source :=
  source.map fun
    | .operation o => .operation (given.operationWrittenOut o)
    | .fragment f => .fragment (given.fragmentWrittenOut f)

/-- The same declarations with nothing supplied. -/
def bare : Variables := ⟨[], given.declared⟩

end WritingOut

/-! ### The variables that remain -/

section Remaining

variable {given : Variables} {name : String}

/-- A variable that has no literal and is not left out is missing. -/
theorem missing_of_literal_eq_none (none : given.literal? name = none)
    (kept : given.omits name = false) : given.Missing name := by
  unfold literal? at none
  unfold omits at kept
  unfold Missing
  cases free : Keyed.get? given.supplied name with
  | some json =>
    rw [free] at none
    cases none
  | none =>
    rw [free] at none kept
    refine ⟨rfl, fun definition declared => ?_⟩
    have declared : given.declaration? name = some definition := declared
    obtain ⟨_, type, default⟩ := definition
    rw [declared] at none kept
    cases default with
    | some default => cases none
    | none => exact ⟨rfl, by simpa using kept⟩

/-- A literal uses no variables. -/
theorem not_mem_leaves_literal {literal : Input String}
    (found : given.literal? name = some literal) (other : String) :
    .var other ∉ literal.leaves := by
  unfold literal? at found
  split at found
  · cases found
    exact Input.not_mem_leaves_ofJson _ other
  · obtain ⟨definition, -, found⟩ := Option.bind_eq_some_iff.mp found
    obtain ⟨default, -, rfl⟩ := Option.map_eq_some_iff.mp found
    exact Input.not_mem_leaves_rename default other

mutual

theorem missing_of_leaves_input : ∀ input : Input String,
    .var name ∈ (given.writtenOut input).leaves → given.Missing name
  | .var used, remains => by
    rw [writtenOut] at remains
    cases found : given.literal? used with
    | some literal =>
      rw [found] at remains
      exact absurd remains (not_mem_leaves_literal found name)
    | none =>
      rw [found] at remains
      cases kept : given.omits used with
      | true =>
        rw [kept] at remains
        cases remains
      | false =>
        rw [kept] at remains
        cases List.mem_singleton.mp remains
        exact missing_of_literal_eq_none found kept
  | .list items, remains => missing_of_leaves_items items remains
  | .object members, remains => missing_of_leaves_members members remains
  | .float _, remains => nomatch List.mem_singleton.mp remains
  | .int _, remains | .string _, remains | .boolean _, remains | .null, remains
  | .enum _, remains => nomatch remains

theorem missing_of_leaves_items : ∀ items : List (Input String),
    .var name ∈ Input.leavesOfItems (given.itemsWrittenOut items) → given.Missing name
  | [], remains => nomatch remains
  | item :: rest, remains =>
    (List.mem_append.mp remains).elim (missing_of_leaves_input item)
      (missing_of_leaves_items rest)

theorem missing_of_leaves_members : ∀ members : List (String × Input String),
    .var name ∈ Input.leavesOfMembers (given.membersWrittenOut members) → given.Missing name
  | [], remains => nomatch remains
  | (_, item) :: rest, remains =>
    (List.mem_append.mp remains).elim (missing_of_leaves_input item)
      (missing_of_leaves_members rest)

end

theorem missing_of_leaves_arguments {written : List (String × Input String)}
    (remains : .var name ∈
      (given.argumentsWrittenOut written).flatMap fun entry => entry.2.leaves) :
    given.Missing name := by
  obtain ⟨entry, present, remains⟩ := List.mem_flatMap.mp remains
  obtain ⟨source, -, rfl⟩ := List.mem_map.mp present
  exact missing_of_leaves_input source.2 remains

mutual

theorem missing_of_leaves_item : ∀ written : Item (Input String),
    .var name ∈ leavesOfItem (given.itemWrittenOut written) → given.Missing name
  | .field _ items, remains =>
    (List.mem_append.mp remains).elim missing_of_leaves_arguments
      (missing_of_leaves_itemList items)
  | .spread _, remains => nomatch remains
  | .inline _ items, remains => missing_of_leaves_itemList items remains

theorem missing_of_leaves_itemList : ∀ written : List (Item (Input String)),
    .var name ∈ leavesOfItems (given.itemListWrittenOut written) → given.Missing name
  | [], remains => nomatch remains
  | first :: rest, remains =>
    (List.mem_append.mp remains).elim (missing_of_leaves_item first)
      (missing_of_leaves_itemList rest)

end

theorem operations_writtenOut (given : Variables) (source : Source) :
    operations (given.sourceWrittenOut source) =
      (operations source).map given.operationWrittenOut := by
  unfold operations sourceWrittenOut
  rw [List.filterMap_map, List.map_filterMap]
  exact List.filterMap_congr fun definition _ => by cases definition <;> rfl

theorem fragments_writtenOut (given : Variables) (source : Source) :
    fragments (given.sourceWrittenOut source) =
      (fragments source).map given.fragmentWrittenOut := by
  unfold fragments sourceWrittenOut
  rw [List.filterMap_map, List.map_filterMap]
  exact List.filterMap_congr fun definition _ => by cases definition <;> rfl

/-- A document that is written out uses no variables but missing ones. -/
theorem missing_of_leaves_writtenOut {source : Source} {o : Operation}
    (remains : .var name ∈
      leaves (given.sourceWrittenOut source) (given.operationWrittenOut o)) :
    given.Missing name := by
  rw [leaves, fragments_writtenOut] at remains
  rcases List.mem_append.mp remains with own | shared
  · exact missing_of_leaves_itemList o.items own
  · obtain ⟨f, present, remains⟩ := List.mem_flatMap.mp shared
    obtain ⟨written, -, rfl⟩ := List.mem_map.mp present
    exact missing_of_leaves_itemList written.items remains

end Remaining

end Variables

end GraphRead.Graphql
