import GraphRead.Document.Path
import GraphRead.Document.Basic
/-!
Selections: the canonical form of a query, in which every output key occurs once.

A selection keeps its children under their output keys, and the fragments that only apply to some
types under their type conditions. Two invocations of one field are merged: their arguments have
to be equal, and their children are merged in turn. A change that fails keeps what it did before
it failed.
-/

namespace GraphRead

/-- A field of a query with everything that is asked of it. -/
structure Selection where
  name : String
  aliasName : Option String
  arguments : List (String × Value)
  children : List (String × Selection)
  fragments : List (String × List Selection)
  deriving Repr, Inhabited

namespace Selection

/-- A selection of a field by its name alone. -/
def named (name : String) : Selection := ⟨name, none, [], [], []⟩

/-- The key under which a selection is answered. -/
def outputKey (s : Selection) : String := s.aliasName.getD s.name

/-- The value of an argument. -/
def argument? (s : Selection) (name : String) : Option Value := Keyed.get? s.arguments name

/-- Whether two argument lists have equal values under the same names. -/
def sameArguments (left right : List (String × Value)) : Bool :=
  Keyed.sameEntries Value.same left right

mutual

/-- Whether two selections ask the same, whatever their output keys and the order of their
arguments, children and type conditions. -/
def same : Selection → Selection → Bool
  | ⟨name, _, arguments, children, fragments⟩, other =>
    name == other.name && sameArguments arguments other.arguments &&
      (children.length == other.children.length && sameChildren children other.children) &&
      (fragments.length == other.fragments.length && sameFragments fragments other.fragments)

/-- Whether every child is the same as the one under its key in a list. -/
def sameChildren : List (String × Selection) → List (String × Selection) → Bool
  | [], _ => true
  | (key, child) :: rest, others =>
    (match Keyed.get? others key with
      | some other => same child other
      | none => false) && sameChildren rest others

/-- Whether the fragments of every condition are the same as those under the condition in a
list. -/
def sameFragments : List (String × List Selection) → List (String × List Selection) → Bool
  | [], _ => true
  | (condition, members) :: rest, others =>
    (match Keyed.get? others condition with
      | some otherMembers => sameList members otherMembers
      | none => false) && sameFragments rest others

/-- Whether two lists of selections are the same one by one. -/
def sameList : List Selection → List Selection → Bool
  | [], [] => true
  | a :: as, b :: bs => same a b && sameList as bs
  | _, _ => false

end

instance : BEq Selection := ⟨same⟩

/-- How far a change got: the selection afterwards, and the field at which it stopped, if it
did. -/
structure Change where
  selection : Selection
  conflict : Option String
  deriving Repr

/-- A change that went through, or the field at which it stopped. -/
def Change.result (change : Change) : Except String Selection :=
  match change.conflict with
  | some field => .error field
  | none => .ok change.selection

/-- A change that went through gives its selection. -/
theorem Change.eq_of_result {change : Change} {s : Selection} (done : change.result = .ok s) :
    s = change.selection := by
  unfold Change.result at done
  split at done
  · cases done
  · cases done; rfl

/-- Adds fragments behind those that are there already for their conditions. -/
def addFragments (there more : List (String × List Selection)) : List (String × List Selection) :=
  more.foldl (fun fragments (condition, members) =>
    Keyed.insert fragments condition ((Keyed.get? fragments condition).getD [] ++ members)) there

/-- Files a child under its output key. If there is one already, the two have to be the same field
with the same arguments, and `merge` says what becomes of the one that is there. -/
def place (s child : Selection) (merge : Selection → Change) : Change :=
  match Keyed.get? s.children child.outputKey with
  | none => ⟨{ s with children := Keyed.insert s.children child.outputKey child }, none⟩
  | some there =>
    if there.name ≠ child.name then ⟨s, some child.outputKey⟩
    else if !sameArguments there.arguments child.arguments then ⟨s, some there.outputKey⟩
    else
      let merged := merge there
      ⟨{ s with children := Keyed.insert s.children child.outputKey merged.selection },
        merged.conflict⟩

mutual

/-- Takes over the children and fragments of another selection. -/
def splice (s : Selection) : Selection → Change
  | ⟨_, _, _, children, fragments⟩ =>
    let change := spliceChildren s children
    match change.conflict with
    | some _ => change
    | none =>
      let spliced := change.selection
      ⟨{ spliced with fragments := addFragments spliced.fragments fragments }, none⟩

/-- Takes over children one after the other, up to the first that does not fit. -/
def spliceChildren (s : Selection) : List (String × Selection) → Change
  | [] => ⟨s, none⟩
  | (_, child) :: rest =>
    let change := place s child fun there => splice there child
    match change.conflict with
    | some _ => change
    | none => spliceChildren change.selection rest

end

/-- Adds a child, merging it into one with the same output key. -/
def push (s child : Selection) : Change := place s child fun there => splice there child

/-- Merges another invocation of the same field, whose arguments have to be equal. -/
def merge (s other : Selection) : Change :=
  if sameArguments s.arguments other.arguments then splice s other else ⟨s, some s.outputKey⟩

/-- Files a fragment under its type condition. -/
def pushFragment (s : Selection) (condition : String) (fragment : Selection) : Selection :=
  { s with fragments := addFragments s.fragments [(condition, [fragment])] }

/-- A selection without its fragments. -/
def withoutFragments (s : Selection) : Selection := { s with fragments := [] }

/-- The fragments in order, each with its condition. -/
def fragmentList (s : Selection) : List (String × Selection) :=
  s.fragments.flatMap fun (condition, members) => members.map fun member => (condition, member)

end Selection

end GraphRead
