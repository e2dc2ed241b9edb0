import GraphRead.Binding.Root
import GraphRead.Schema.Build
/-!
What a query asks, and where, as it is written.

A selection stands in a context, which says what fields it can have (`Context.offer?`) and which of
its fragments apply to it (`Context.Applies`). What it asks are its children and those of the
fragments that apply, and so on inside these (`Selection.Asked`). From there the schema says in
which contexts a field is entered, so that whatever is asked anywhere in a query is reached from the
root (`Selection.Reaches`). Nothing here depends on how selections are merged or bound.
-/

namespace GraphRead

/-- Where a selection stands. -/
inductive Context where
  /-- The query type. -/
  | query
  /-- A record of a type. -/
  | record (type : ObjectType)
  /-- A list of records of a type. -/
  | list (type : ObjectType)
  /-- An edge of such a list. -/
  | edge (type : ObjectType)
  | pageInfo
  /-- A field without fields of its own. -/
  | leaf

/-- A field that a context has. -/
inductive Offer where
  | root (field : RootField)
  | association (a : Association)
  /-- An attribute, or the primary key. -/
  | plain
  /-- A field that stands in every schema, and the context in which it is entered. -/
  | fixed (next : Context)

namespace Context

/-- Whether a fragment applies. Where there is no type that its condition could be held against,
every fragment does. -/
def Applies (schema : Schema) (condition : String) : Context → Prop
  | query => condition = rootName
  | record type => schema.isAssignable condition type.name = .ok true
  | _ => True

/-- The field of a name. -/
def offer? (schema : Schema) (here : Context) (name : String) : Option Offer :=
  match here with
  | query =>
    if name = Selection.typeName then some (.fixed .leaf)
    else (Keyed.get? schema.roots name).map .root
  | record type =>
    match type.field? name with
    | some (.scalar _) => some .plain
    | some (.link a) => some (.association a)
    | none =>
      if name = "id" then some .plain
      else if Selection.isElided name then some (.fixed .leaf)
      else none
  | list type =>
    if name = "edges" then some (.fixed (.edge type))
    else if name = "pageInfo" then some (.fixed .pageInfo)
    else if name = "count" ∨ name = "totalCount" ∨ name = Selection.typeName then
      some (.fixed .leaf)
    else none
  | edge type =>
    if name = "node" then some (.fixed (.record type))
    else if name = "cursor" ∨ name = Selection.typeName then some (.fixed .leaf)
    else none
  | pageInfo =>
    if name = "hasNextPage" ∨ name = "hasPreviousPage" ∨ name = "startCursor" ∨
        name = "endCursor" ∨ name = Selection.typeName then
      some (.fixed .leaf)
    else none
  | leaf => none

end Context

namespace Offer

/-- The contexts in which a field is entered: one per type behind its target. -/
inductive Enters (schema : Schema) : Offer → Context → Prop
  | list {field : RootField} {order : Order} {types : List ObjectType} {type : ObjectType}
    (many : field.kind = .connection order) (behind : schema.coveredTypes field.target = .ok types)
    (covered : type ∈ types) : Enters schema (.root field) (.list type)
  | lookup {field : RootField} {types : List ObjectType} {type : ObjectType}
    (single : field.kind = .single) (behind : schema.coveredTypes field.target = .ok types)
    (covered : type ∈ types) : Enters schema (.root field) (.record type)
  | toMany {a : Association} {types : List ObjectType} {type : ObjectType}
    (many : a.isMany = true) (behind : schema.coveredTypes a.target = .ok types)
    (covered : type ∈ types) : Enters schema (.association a) (.list type)
  | toOne {a : Association} {types : List ObjectType} {type : ObjectType}
    (one : a.isMany = false) (behind : schema.coveredTypes a.target = .ok types)
    (covered : type ∈ types) : Enters schema (.association a) (.record type)
  | plain : Enters schema .plain .leaf
  | fixed {next : Context} : Enters schema (.fixed next) next

/-- The arguments that are not filters: those of a page, and the id of a lookup. -/
def allowed : Offer → List String
  | root field =>
    match field.kind with
    | .connection _ => Selection.paginationArguments
    | .single => ["id"]
  | association a => if a.isMany then Selection.paginationArguments else []
  | _ => []

/-- The filters that are declared for a field. -/
def declared : Offer → List DeclaredFilter
  | root field => field.filters
  | association a => a.filters
  | _ => []

/-- Whether a field is one of those that stand in every schema, whose arguments nobody reads. -/
def isFixed : Offer → Bool
  | fixed _ => true
  | _ => false

end Offer

namespace Selection

/-- A field that a selection asks, itself or in a fragment that applies. -/
inductive Asked (schema : Schema) (here : Context) : Selection → Selection → Prop
  | child {s child : Selection} {key : String} (present : (key, child) ∈ s.children) :
    Asked schema here s child
  | fragment {s fragment child : Selection} {condition : String}
    (filed : (condition, fragment) ∈ s.fragmentList) (applies : here.Applies schema condition)
    (inside : Asked schema here fragment child) : Asked schema here s child

/-- The selections of a query in their contexts: the root, and what is asked in turn of every
selection that is reached. -/
inductive Reaches (schema : Schema) (root : Selection) : Context → Selection → Prop
  | root : Reaches schema root .query root
  | step {here next : Context} {s child : Selection} {offer : Offer}
    (reached : Reaches schema root here s) (asked : Asked schema here s child)
    (offered : here.offer? schema child.name = some offer) (enters : offer.Enters schema next) :
    Reaches schema root next child

end Selection

/-! ### What a query is bound to -/

/-- What stands for a selection in a bound query: the reads, a target, or nothing, where all that is
asked is noted in the target above. -/
inductive Part where
  | reads (reads : List RootRead)
  | target (t : Target)
  | nothing

namespace Part

/-- The context of a target. -/
def contextOf : Target → Context
  | .field f => .record f.type
  | .connection c => .list c.type
  | .edge e => .edge e.type

/-- The part that stands for the field under an output key, entered in a context. -/
inductive Leads : Part → String → Context → Part → Prop
  | read {reads : List RootRead} {key : String} {next : Context} {read : RootRead}
    {target : Target} (asked : read ∈ reads) (named : read.key = key)
    (bound : target ∈ read.targets) (context : contextOf target = next) :
    Leads (.reads reads) key next (.target target)
  | link {f : BoundField} {key : String} {next : Context} {l : BoundLink} {target : Target}
    (asked : (key, .link l) ∈ f.items) (bound : target ∈ l.targets)
    (context : contextOf target = next) : Leads (.target (.field f)) key next (.target target)
  | edges {c : BoundConnection} {key : String} {e : BoundEdge} (asked : c.edges = some e) :
    Leads (.target (.connection c)) key (.edge e.type) (.target (.edge e))
  | node {e : BoundEdge} {key : String} {f : BoundField} (asked : e.node = some f) :
    Leads (.target (.edge e)) key (.record f.type) (.target (.field f))
  | pageInfo {part : Part} {key : String} : Leads part key .pageInfo .nothing
  | leaf {part : Part} {key : String} : Leads part key .leaf .nothing

/-- The filter that is bound to the field under an output key has a condition among those that all
have to hold. -/
inductive Restricts : Part → String → Filter → Prop
  | read {reads : List RootRead} {key : String} {read : RootRead} {predicate : Filter}
    (asked : read ∈ reads) (named : read.key = key) (conjunct : predicate ∈ read.filter.conjuncts) :
    Restricts (.reads reads) key predicate
  | link {f : BoundField} {key : String} {l : BoundLink} {predicate : Filter}
    (asked : (key, .link l) ∈ f.items) (conjunct : predicate ∈ l.filter.conjuncts) :
    Restricts (.target (.field f)) key predicate

/-- An argument of the field under an output key is one of a page or the id of a lookup, or a filter
is declared for it, and what the filter makes of it restricts what is read. The value may be another
spelling of the same value, from an invocation of the field that this one is merged into. -/
def Accounts (part : Part) (key : String) (offer : Offer) (argument : String × Value) : Prop :=
  argument.1 ∈ offer.allowed ∨ ∃ declared value predicate,
    DeclaredFilter.find? offer.declared argument.1 = some declared ∧
      Value.same value argument.2 = true ∧ declared.apply value = .ok predicate ∧
      part.Restricts key predicate

end Part

/-- The parts of a bound query that stand for the selections of a query. -/
inductive Selection.Stands (schema : Schema) (root : Selection) (reads : List RootRead) :
    Context → Selection → Part → Prop
  | root : Stands schema root reads .query root (.reads reads)
  | step {here next : Context} {s child : Selection} {offer : Offer} {part inner : Part}
    (above : Stands schema root reads here s part) (asked : Selection.Asked schema here s child)
    (offered : here.offer? schema child.name = some offer) (enters : offer.Enters schema next)
    (leads : part.Leads child.outputKey next inner) : Stands schema root reads next child inner

end GraphRead
