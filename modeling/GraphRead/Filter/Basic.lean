import GraphRead.Filter.Condition
import GraphRead.Keyed
/-!
Filters: which rows of a table a read takes.

`allOf` and `anyOf` combine filters and keep the result small: a conjunction drops what is always
true and takes over the members of conjunctions among its members. `Filter.matches` says which
rows pass; a column that a row lacks reads as null.
-/

namespace GraphRead

/-- A row of a table: values under the names of columns. -/
abbrev Row := Keyed Value

/-- The value of a column; a missing column reads as null. -/
def Row.value (row : Row) (column : String) : Value := (Keyed.get? row column).getD .null

/-- A test on rows. `not` is the negation of the conjunction of its members. -/
inductive Filter where
  | and (members : List Filter)
  | or (members : List Filter)
  | not (members : List Filter)
  | scalar (column : String) (condition : Condition)
  | constant (holds : Bool)
  deriving Repr, Inhabited

namespace Filter

/-- The filter that every row passes. -/
def always : Filter := constant true

/-- Whether a filter is the one that every row passes. -/
def isAlways : Filter → Bool
  | constant b => b
  | _ => false

/-- What a filter contributes to a conjunction. -/
def conjuncts : Filter → List Filter
  | constant true => []
  | and members => members
  | filter => [filter]

/-- The conjunction of some filters. -/
def allOf (filters : List Filter) : Filter :=
  match filters.flatMap conjuncts with
  | [] => always
  | [filter] => filter
  | members => and members

/-- The disjunction of some filters. -/
def anyOf (filters : List Filter) : Filter :=
  match filters with
  | [] => constant false
  | [filter] => filter
  | members => or members

/-- The column has the value. -/
def equals (column : String) (v : Value) : Filter := scalar column (.eq v)

/-- The column has one of the values. -/
def among (column : String) (vs : List Value) : Filter := scalar column (.oneOf vs)

mutual

/-- The columns of a filter, as often as they occur. -/
def columns : Filter → List String
  | and members => memberColumns members
  | or members => memberColumns members
  | not members => memberColumns members
  | scalar column _ => [column]
  | constant _ => []

/-- The columns of several filters. -/
def memberColumns : List Filter → List String
  | [] => []
  | filter :: rest => columns filter ++ memberColumns rest

end

mutual

/-- Whether a row passes a filter. -/
def «matches» : Filter → Row → Bool
  | and members, row => allMatch members row
  | or members, row => anyMatches members row
  | not members, row => !allMatch members row
  | scalar column condition, row => condition.holds (row.value column)
  | constant b, _ => b

/-- Whether a row passes each of several filters. -/
def allMatch : List Filter → Row → Bool
  | [], _ => true
  | filter :: rest, row => «matches» filter row && allMatch rest row

/-- Whether a row passes one of several filters. -/
def anyMatches : List Filter → Row → Bool
  | [], _ => false
  | filter :: rest, row => «matches» filter row || anyMatches rest row

end

mutual

/-- A filter in words. -/
def text : Filter → String
  | and members => Text.join " AND " (memberTexts members)
  | or members => Text.join " OR " (memberTexts members)
  | not members => "NOT " ++ Text.join " AND " (memberTexts members)
  | scalar column condition => condition.text column
  | constant b => if b then "true" else "false"

/-- Several filters in words, each in parentheses. -/
def memberTexts : List Filter → List String
  | [] => []
  | filter :: rest => ("(" ++ text filter ++ ")") :: memberTexts rest

end

end Filter

end GraphRead
