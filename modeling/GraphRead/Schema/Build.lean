import GraphRead.Schema.Basic
/-!
Building schemas from declarations.

Types come first, then interfaces, which may cover only declared types, then the associations of
the types, whose targets may be any of both, and root fields at last. The first declaration that
does not fit is reported.
-/

namespace GraphRead

/-- What a schema is built from. -/
structure Declarations where
  types : List ObjectType
  interfaces : List Interface
  roots : List RootField

namespace Schema

/-- What can be wrong with a declaration. -/
inductive Fault where
  | duplicateType (name : String)
  | interfaceClash (name : String)
  | emptyInterface (name : String)
  | unknownCovered (interfaceName type : String)
  | unknownRootTarget (root target : String)
  | unorderedRoot (root : String)
  deriving DecidableEq, Repr

/-- A fault in words. -/
def Fault.reason : Fault → String
  | duplicateType name => "type `" ++ name ++ "` is declared twice"
  | interfaceClash name =>
    "interface `" ++ name ++ "` clashes with another type or interface"
  | emptyInterface name => "interface `" ++ name ++ "` covers no types"
  | unknownCovered interfaceName type =>
    "interface `" ++ interfaceName ++ "` covers unknown type `" ++ type ++ "`"
  | unknownRootTarget root target =>
    "root field `" ++ root ++ "` targets unknown type `" ++ target ++ "`"
  | unorderedRoot root => "root connection `" ++ root ++ "` requires a declared order"

/-- Reports a fault. -/
def refuse {α : Type} (fault : Fault) : Except DomainError α :=
  .error (.invalidSchema fault.reason)

/-- Adds an object type under a new name. -/
def addType (schema : Schema) (type : ObjectType) : Except DomainError Schema :=
  if Keyed.hasKey schema.types type.name then refuse (.duplicateType type.name)
  else .ok { schema with types := Keyed.insert schema.types type.name type }

/-- Adds an interface under a new name, over types that are there. -/
def addInterface (schema : Schema) (face : Interface) : Except DomainError Schema :=
  if schema.declares face.name then refuse (.interfaceClash face.name)
  else if face.covered.isEmpty then refuse (.emptyInterface face.name)
  else
    match face.covered.find? fun type => !Keyed.hasKey schema.types type with
    | some type => refuse (.unknownCovered face.name type)
    | none => .ok { schema with interfaces := Keyed.insert schema.interfaces face.name face }

/-- Checks an association of a type: its order, and that its target is there. -/
def checkAssociation (schema : Schema) (type : ObjectType) (association : Association) :
    Except DomainError Unit := do
  association.validate type.name
  if schema.declares association.target then return ()
  else
    .error (.invalidAssociation type.name association.name
      ("target `" ++ association.target ++ "` does not exist"))

/-- Checks the associations of a type. -/
def checkType (schema : Schema) (type : ObjectType) : Except DomainError Unit :=
  type.associations.forM (checkAssociation schema type)

/-- Adds a root field; it takes the place of an earlier one of the same name. -/
def addRoot (schema : Schema) (root : RootField) : Except DomainError Schema :=
  if !schema.declares root.target then refuse (.unknownRootTarget root.name root.target)
  else if root.kind = .connection [] then refuse (.unorderedRoot root.name)
  else .ok { schema with roots := Keyed.insert schema.roots root.name root }

/-- Builds a schema. -/
def build (declared : Declarations) : Except DomainError Schema := do
  let schema ← declared.types.foldlM addType empty
  let schema ← declared.interfaces.foldlM addInterface schema
  schema.types.values.forM (checkType schema)
  declared.roots.foldlM addRoot schema

end Schema

end GraphRead
