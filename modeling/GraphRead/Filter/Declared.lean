import GraphRead.Filter.Basic
import GraphRead.Error
/-!
Declared filters: arguments of a field that become conditions on a column.
-/

namespace GraphRead

/-- The kinds of condition that a declared filter can put on its column. -/
inductive DeclaredCondition where
  | eq | ne | lt | le | gt | ge
  /-- The argument is a list, and the column has one of its values. -/
  | oneOf
  /-- The argument is a boolean that says whether the column is null. -/
  | isNull
  deriving DecidableEq, Repr

/-- An argument that restricts a column. -/
structure DeclaredFilter where
  argument : String
  column : String
  condition : DeclaredCondition
  deriving DecidableEq, Repr

namespace DeclaredFilter

/-- The argument is not what the filter takes. -/
def refuse {α : Type} (filter : DeclaredFilter) (expected : String) (got : Value) :
    Except DomainError α :=
  .error (.invalidArgumentValue filter.argument expected got.kind)

/-- The condition that a declared filter makes of an argument. -/
def condition? (filter : DeclaredFilter) (argument : Value) : Except DomainError Condition :=
  match filter.condition with
  | .eq => .ok (.eq argument)
  | .ne => .ok (.ne argument)
  | .lt => .ok (.lt argument)
  | .le => .ok (.le argument)
  | .gt => .ok (.gt argument)
  | .ge => .ok (.ge argument)
  | .oneOf =>
    match argument.list? with
    | some values => .ok (.oneOf values)
    | none => filter.refuse "a list" argument
  | .isNull =>
    match argument.boolean? with
    | some expected => .ok (.isNull expected)
    | none => filter.refuse "a boolean" argument

/-- The filter that a declared filter makes of an argument. -/
def apply (filter : DeclaredFilter) (argument : Value) : Except DomainError Filter :=
  (filter.condition? argument).map (Filter.scalar filter.column)

end DeclaredFilter

/-- The filter declared for an argument. -/
def DeclaredFilter.find? (filters : List DeclaredFilter) (argument : String) :
    Option DeclaredFilter :=
  filters.find? fun filter => filter.argument = argument

end GraphRead
