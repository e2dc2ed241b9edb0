import GraphRead.Graphql.Parser
import GraphRead.Value.Json
/-!
Documents from GraphQL texts: one operation is picked, and its variables get their values.

A variable has the value that was supplied, else its default. A variable that has neither and may
be null stands for null inside a list or an object; an argument that is such a variable is left
out.
-/

namespace GraphRead.Graphql

/-- The values supplied for variables, and the variables that the operation declares. -/
structure Variables where
  supplied : List (String × Json)
  declared : List VariableDefinition

namespace Input

mutual

/-- The value of an input, given the values of its variables. A variable without a value stands for
null. -/
def value {ν : Type} (lookup : ν → Except QueryFault (Option Value)) :
    Input ν → Except QueryFault Value
  | var name => do return (← lookup name).getD .null
  | int i => .ok (.int i)
  | float x =>
    match Value.ofBinary64 x with
    | .ok v => .ok v
    | .error _ => .error (.infiniteNumber (x == .infinite true))
  | string s => .ok (.string s)
  | boolean b => .ok (.boolean b)
  | null => .ok .null
  | enum s => .ok (.enum s)
  | list items => do return .list (← itemValues lookup items)
  | object members => do return .object (← memberValues lookup members)

/-- The values of the items of a list. -/
def itemValues {ν : Type} (lookup : ν → Except QueryFault (Option Value)) :
    List (Input ν) → Except QueryFault (List Value)
  | [] => .ok []
  | item :: rest => do
    let first ← value lookup item
    return first :: (← itemValues lookup rest)

/-- The values of the members of an object. -/
def memberValues {ν : Type} (lookup : ν → Except QueryFault (Option Value)) :
    List (String × Input ν) → Except QueryFault (List (String × Value))
  | [] => .ok []
  | (key, item) :: rest => do
    let first ← value lookup item
    return (key, first) :: (← memberValues lookup rest)

end

/-- The value of an input without variables. -/
def constant (input : Input Empty) : Except QueryFault Value := value nofun input

end Input

namespace Variables

/-- The declaration of a variable; of several the last counts. -/
def declaration? (given : Variables) (name : String) : Option VariableDefinition :=
  given.declared.reverse.find? fun definition => definition.name = name

/-- The value of a variable, or nothing for one that may be left out and was. -/
def lookup (given : Variables) (name : String) : Except QueryFault (Option Value) :=
  match Keyed.get? given.supplied name with
  | some json =>
    match Value.ofPlain json with
    | .ok v => .ok (some v)
    | .error failure => .error (.unreadableVariable failure)
  | none =>
    match given.declaration? name with
    | some ⟨_, _, some default⟩ => default.constant.map some
    | some ⟨_, type, none⟩ => if type.isRequired then .error (.missingVariable name) else .ok none
    | none => .error (.missingVariable name)

/-- The value of an argument, or nothing for one that is a variable left out. -/
def argument (given : Variables) (input : Input String) : Except QueryFault (Option Value) :=
  match input with
  | .var name => given.lookup name
  | input => (input.value given.lookup).map some

/-- The arguments that have values, in order. -/
def arguments (given : Variables) :
    List (String × Input String) → Except QueryFault (List (String × Value))
  | [] => .ok []
  | (name, input) :: rest => do
    let first ← given.argument input
    let more ← given.arguments rest
    return match first with
      | some v => (name, v) :: more
      | none => more

mutual

/-- An item with the values of its variables, below a path. -/
def item (given : Variables) (path : Path) :
    Item (Input String) → Except QueryError (Item Value)
  | .field head items => do
    let childPath := path.add head.outputKey
    let arguments ← (given.arguments head.arguments).mapError fun fault => ⟨childPath, fault⟩
    return .field ⟨head.name, head.aliasName, arguments⟩ (← itemList given childPath items)
  | .spread fragment => .ok (.spread fragment)
  | .inline condition items => do return .inline condition (← itemList given path items)

/-- Items with the values of their variables, below a path. -/
def itemList (given : Variables) (path : Path) :
    List (Item (Input String)) → Except QueryError (List (Item Value))
  | [] => .ok []
  | first :: rest => do
    let converted ← given.item path first
    return converted :: (← itemList given path rest)

end

/-- A fragment with the values of its variables. -/
def fragment (given : Variables) (path : Path) (definition : FragmentDefinition) :
    Except QueryError (String × Fragment) := do
  let items ← given.itemList (path.add definition.name) definition.items
  return (definition.name, ⟨definition.condition, items⟩)

end Variables

/-- The operation of a name, or the only operation where no name is given. -/
def pickOperation (source : Source) (wanted : Option String) : Except QueryFault Operation :=
  match wanted, operations source with
  | some name, candidates =>
    match candidates.find? fun o => o.name = some name with
    | some o => .ok o
    | none => .error (.unknownOperation name)
  | none, [o] => .ok o
  | none, [] => .error .noOperations
  | none, _ => .error .operationNameRequired

/-- An operation that reads. -/
def requireQuery (o : Operation) : Except QueryFault Operation :=
  match o.kind with
  | .query => .ok o
  | .mutation => .error (.mutationUnsupported o.position)
  | .subscription => .error (.subscriptionUnsupported o.position)

/-- The document of the picked operation, with all fragments. -/
def convert (source : Source) (wanted : Option String) (supplied : List (String × Json)) :
    Except QueryError Document := do
  let path : Path := [rootName]
  let o ← ((pickOperation source wanted).bind requireQuery).mapError fun fault => ⟨path, fault⟩
  let given : Variables := ⟨supplied, o.declared⟩
  let items ← given.itemList path o.items
  let fragments ← (fragments source).mapM (given.fragment path)
  return ⟨⟨⟨rootName, none, []⟩, items⟩, Keyed.ofList fragments⟩

/-- Reads a document and picks an operation. -/
def document (text : String) (wanted : Option String) (supplied : List (String × Json)) :
    Except QueryError Document :=
  match Parser.source text with
  | some source => convert source wanted supplied
  | none => .error ⟨[rootName], .unparsable⟩

end GraphRead.Graphql
