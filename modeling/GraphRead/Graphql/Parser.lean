import GraphRead.Graphql.Lexer
import GraphRead.Keyed
/-!
The grammar of GraphQL query documents.

Brackets of all kinds may be open inside each other at most fifty times, which is the number that
the recursion counts down. Directives are read and dropped. Three points followed by `on` always
open an inline fragment with a condition, never the spread of a fragment of that name.
-/

namespace GraphRead.Graphql.Parser

open Reader

/-- Reads words of a document. -/
abbrev Phrase (α : Type) := Reader PlacedToken α

/-- One character of punctuation. -/
def mark (c : Char) : Phrase Unit :=
  token fun t => if t.token = .mark c then some () else none

/-- A name. -/
def name : Phrase String :=
  token fun
    | ⟨.name s, _⟩ => some s
    | _ => none

/-- A name that is a given word, and its position. -/
def keyword (wanted : String) : Phrase Position :=
  token fun t => if t.token = .name wanted then some t.position else none

/-! ### Values -/

/-- The value of a name. -/
def nameInput {ν : Type} (s : String) : Input ν :=
  if s = "true" then .boolean true
  else if s = "false" then .boolean false
  else if s = "null" then .null
  else .enum s

/-- A value without parts. -/
def leaf {ν : Type} : Phrase (Input ν) :=
  token fun t =>
    match t.token with
    | .name s => some (nameInput s)
    | .int i => some (.int i)
    | .float x => some (.float x)
    | .string s => some (.string s)
    | _ => none

/-- Files a member into a list that is sorted by key; it takes the place of one with the same
key. -/
def insertSorted {α : Type} (members : List (String × α)) (key : String) (value : α) :
    List (String × α) :=
  match members with
  | [] => [(key, value)]
  | (k, old) :: rest =>
    match compare key k with
    | .lt => (key, value) :: (k, old) :: rest
    | .eq => (key, value) :: rest
    | .gt => (k, old) :: insertSorted rest key value

/-- Members sorted by key, the last of each key. -/
def sortMembers {α : Type} (members : List (String × α)) : List (String × α) :=
  members.foldl (fun sorted (key, value) => insertSorted sorted key value) []

/-- A name, a colon and what follows. -/
def labelled {α : Type} (body : Phrase α) : Phrase (String × α) := do
  let label ← name
  mark ':'
  return (label, ← body)

/-- A value in which brackets may be open so many times. -/
def input {ν : Type} (variableName : Phrase ν) : Nat → Phrase (Input ν)
  | 0 => either leaf (do return .var (← variableName))
  | depth + 1 =>
    either leaf <|
    either (do return .var (← variableName)) <|
    either
      (do
        mark '['
        let items ← many (input variableName depth)
        mark ']'
        return .list items)
      (do
        mark '\x7b'
        let members ← many (labelled (input variableName depth))
        mark '\x7d'
        return .object (sortMembers members))

/-- The name of a variable behind its dollar sign. -/
def variableName : Phrase String := do
  mark '$'
  name

/-- Arguments in parentheses, of which there is at least one. -/
def writtenArguments : Nat → Phrase (List (String × Input String))
  | 0 => refuse
  | depth + 1 => do
    mark '('
    let arguments ← many1 (labelled (input variableName depth))
    mark ')'
    return arguments

/-- Arguments, or none. -/
def arguments (depth : Nat) : Phrase (List (String × Input String)) := do
  return (← opt (writtenArguments depth)).getD []

/-- Directives, which mean nothing. -/
def directives (depth : Nat) : Phrase Unit := do
  let _ ← many (do
    mark '@'
    let _ ← name
    let _ ← arguments depth)
  return ()

/-! ### Selection sets -/

/-- A field, whose selection set is read by `inner`. -/
def field (inner : Phrase Items) (depth : Nat) : Phrase (Item (Input String)) := do
  let first ← name
  let second ← opt (do mark ':'; name)
  let arguments ← arguments depth
  directives depth
  let items ← opt inner
  let head : FieldHead (Input String) :=
    match second with
    | some name => ⟨name, some first, arguments⟩
    | none => ⟨first, none, arguments⟩
  return .field head (items.getD [])

/-- The rest of an inline fragment behind its condition. -/
def inlineRest (inner : Phrase Items) (depth : Nat) (condition : Option String) :
    Phrase (Item (Input String)) := do
  directives depth
  return .inline condition (← inner)

/-- What follows three points. -/
def fragmentRest (inner : Phrase Items) (depth : Nat) : Phrase (Item (Input String))
  | ⟨.name "on", _⟩ :: rest => (do inlineRest inner depth (some (← name)) : Phrase _) rest
  | ⟨.name fragment, _⟩ :: rest => (do directives depth; return .spread fragment : Phrase _) rest
  | rest => inlineRest inner depth none rest

/-- An item of a selection set. -/
def item (inner : Phrase Items) (depth : Nat) : Phrase (Item (Input String)) :=
  either (field inner depth) (do
    token fun t => if t.token = .spread then some () else none
    fragmentRest inner depth)

/-- A selection set, which has at least one item. -/
def selectionSet : Nat → Phrase Items
  | 0 => refuse
  | depth + 1 => do
    mark '\x7b'
    let items ← many1 (item (selectionSet depth) depth)
    mark '\x7d'
    return items

/-! ### Definitions -/

/-- The type of a variable. -/
def typeRef : Nat → Phrase TypeRef
  | 0 => do strict (.named (← name))
  | depth + 1 =>
    either (do strict (.named (← name))) (do
      mark '['
      let inside ← typeRef depth
      mark ']'
      strict (.list inside))
where
  strict (type : TypeRef) : Phrase TypeRef := do
    return if (← opt (mark '!')).isSome then .nonNull type else type

/-- The declaration of a variable. Its default holds no variables. -/
def variableDefinition (depth : Nat) : Phrase VariableDefinition := do
  let name ← variableName
  mark ':'
  let type ← typeRef depth
  let default ← opt (do mark '='; input refuse depth)
  return ⟨name, type, default⟩

/-- The declarations of variables in parentheses, of which there is at least one. -/
def variableDefinitions : Nat → Phrase (List VariableDefinition)
  | 0 => refuse
  | depth + 1 => do
    mark '('
    let definitions ← many1 (variableDefinition depth)
    mark ')'
    return definitions

/-- An operation behind a keyword. -/
def operationOf (kind : OperationKind) (word : String) (depth : Nat) : Phrase Operation := do
  let position ← keyword word
  let name ← opt name
  let declared ← opt (variableDefinitions depth)
  directives depth
  let items ← selectionSet depth
  return ⟨kind, position, name, declared.getD [], items⟩

/-- An operation. A selection set alone is a query without a name. -/
def operation (depth : Nat) : Phrase Operation :=
  either (do return ⟨.query, ⟨1, 1⟩, none, [], ← selectionSet depth⟩) <|
  either (operationOf .query "query" depth) <|
  either (operationOf .mutation "mutation" depth) (operationOf .subscription "subscription" depth)

/-- The definition of a fragment. -/
def fragmentDefinition (depth : Nat) : Phrase FragmentDefinition := do
  let _ ← keyword "fragment"
  let fragment ← name
  let _ ← keyword "on"
  let condition ← name
  directives depth
  return ⟨fragment, condition, ← selectionSet depth⟩

/-- A definition. -/
def definition (depth : Nat) : Phrase Definition :=
  either (do return .operation (← operation depth)) (do
    return .fragment (← fragmentDefinition depth))

/-- The number of brackets that may be open at once. -/
def maxDepth : Nat := 50

/-- Reads the document that the whole of a text is. -/
def source (text : String) : Option Source := do
  (many1 (definition maxDepth)).whole (← Lexer.tokens text.toList)

end GraphRead.Graphql.Parser
