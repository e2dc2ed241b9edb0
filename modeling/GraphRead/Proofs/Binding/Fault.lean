import GraphRead.Proofs.Account.Basic
import GraphRead.Proofs.Binding.Blame
import GraphRead.Proofs.Binding.Levels
import GraphRead.Proofs.Document.Origin
/-!
What is wrong with a query that cannot be bound.

An error of binding tells of something that is asked (`Selection.Fault`). It is a field that its
context does not have, or an argument that is neither allowed nor a declared filter, and these have
errors of their own. Or else it is another fault: a condition of which nothing is known, fields that
are put together and do not agree (`Selection.Meets`), or an argument whose value is refused.
-/

namespace GraphRead

open Fallible

/-- What a context is called in errors. -/
def Context.typeName : Context → String
  | query => rootName
  | record type => type.name
  | list type => type.name ++ "Connection"
  | edge type => type.name ++ "Edge"
  | pageInfo => "PageInfo"
  | leaf => ""

namespace Offer

/-- Whether all invocations of a field are put together, whatever their keys are: those of the edges
of a list and of the node of an edge. -/
def isPooled : Offer → Bool
  | fixed (.edge _) => true
  | fixed (.record _) => true
  | _ => false

/-- A field is a list in an order over some types. -/
inductive Lists (schema : Schema) : Offer → Order → List ObjectType → Prop
  | root {field : RootField} {order : Order} {types : List ObjectType}
    (many : field.kind = .connection order)
    (behind : schema.coveredTypes field.target = .ok types) :
    Lists schema (.root field) order types
  | association {a : Association} {order : Order} {types : List ObjectType}
    (many : a.isMany = true) (ordered : a.order = some order)
    (behind : schema.coveredTypes a.target = .ok types) : Lists schema (.association a) order types

end Offer

namespace Selection

variable {schema : Schema} {start here : Context} {top s : Selection}

/-! ### What is reached -/

/-- What is asked in a selection that stands in a context, and in turn of whatever is asked, with
the contexts in which it is entered. -/
inductive LeadsTo (schema : Schema) (start : Context) (top : Selection) : Context → Selection → Prop
  | top : LeadsTo schema start top start top
  | step {here next : Context} {s child : Selection} {offer : Offer}
    (above : LeadsTo schema start top here s) (asked : Asked schema here s child)
    (offered : here.offer? schema child.name = some offer) (enters : offer.Enters schema next) :
    LeadsTo schema start top next child

/-- A selection has itself, and the fragments in it that apply in a context, and those in these. -/
abbrev Opens (schema : Schema) (here : Context) : Selection → Selection → Prop :=
  Includes fun condition => here.Applies schema condition

/-- Selections as they are filed in one another. -/
def Form.filed : Form Selection where
  head s := ⟨s.name, s.aliasName, s.arguments⟩
  asks s child := (child.outputKey, child) ∈ s.children
  files s condition fragment := (condition, fragment) ∈ s.fragmentList

/-- Two selections stand at one position: they are invocations of a field that are asked in
selections which stand at one position, under one key, or under any keys if these do not count. -/
inductive Meets (schema : Schema) (start : Context) (top : Selection) :
    Context → Selection → Selection → Prop
  | top : Meets schema start top start top top
  | step {here next : Context} {s t v w : Selection} {offer : Offer}
    (above : Meets schema start top here s t) (left : Asked schema here s v)
    (right : Asked schema here t w) (named : v.name = w.name)
    (keyed : offer.isPooled = true ∨ v.outputKey = w.outputKey)
    (offered : here.offer? schema v.name = some offer) (enters : offer.Enters schema next) :
    Meets schema start top next v w

theorem Meets.leadsTo {t : Selection} (meets : Meets schema start top here s t) :
    LeadsTo schema start top here s := by
  induction meets with
  | top => exact .top
  | step _ left _ _ _ offered enters ih => exact .step ih left offered enters

/-! ### Faults -/

/-- A field is asked that its context does not have. -/
inductive MissesField (schema : Schema) (start : Context) (top : Selection) : BindError → Prop
  | intro {here : Context} {s child : Selection} (path : Path)
    (leads : LeadsTo schema start top here s) (asked : Asked schema here s child)
    (fields : here ≠ .leaf) (missing : here.offer? schema child.name = none) :
    MissesField schema start top (.unsupportedField child.name here.typeName path)

/-- An argument is given that is neither allowed nor a declared filter, to a field whose arguments
are looked at. -/
inductive MissesArgument (schema : Schema) (start : Context) (top : Selection) : BindError → Prop
  | intro {here : Context} {s child : Selection} {offer : Offer} {argument : String × Value}
    (path : Path) (leads : LeadsTo schema start top here s) (asked : Asked schema here s child)
    (offered : here.offer? schema child.name = some offer) (read : offer.isFixed = false)
    (present : argument ∈ child.arguments) (other : argument.1 ∉ offer.allowed)
    (unknown : DeclaredFilter.find? offer.declared argument.1 = none) :
    MissesArgument schema start top (.unknownArgument argument.1 child.name path)

/-- A fragment stands somewhere below on a condition of which the schema knows nothing. -/
def UnknownCondition (schema : Schema) (start : Context) (top : Selection) (condition : String) :
    Prop :=
  schema.declares condition = false ∧ ∃ type s inner fragment,
    LeadsTo schema start top (.record type) s ∧ Includes (schema.Suits type.name) s inner ∧
      (condition, fragment) ∈ inner.fragmentList

/-- A selection is asked as a list of a type in an order, with cursors that name the type or that do
not. -/
def AskedAsList (schema : Schema) (start : Context) (top : Selection) (order : Order) (typed : Bool)
    (type : ObjectType) (child : Selection) : Prop :=
  ∃ here s offer types, LeadsTo schema start top here s ∧ Asked schema here s child ∧
    here.offer? schema child.name = some offer ∧ offer.Lists schema order types ∧ type ∈ types ∧
      typed = decide (1 < types.length)

/-- Something is wrong other than a field or an argument that there is not. -/
inductive OtherFault (schema : Schema) (start : Context) (top : Selection) : BindError → Prop
  /-- A fragment stands on a condition of which the schema knows nothing. -/
  | condition {condition : String} (path : Path)
    (unknown : UnknownCondition schema start top condition) :
    OtherFault schema start top (.typeNotFound condition path)
  /-- A fragment at the top of a query is not on the query type. -/
  | outermost {s : Selection} {condition : String} {members : List Selection}
    (query : start = .query) (opens : Opens schema .query top s)
    (filed : (condition, members) ∈ s.fragments) (other : condition ≠ rootName) :
    OtherFault schema start top (.typeNotFound condition rootPath)
  /-- Under one key there are fields that are not the same, or that ask such below. -/
  | clash {here : Context} {s t v w : Selection} {key : String} (path : Path)
    (meets : Meets schema start top here s t) (left : Asked schema here s v)
    (right : Asked schema here t w) (keyed : v.outputKey = w.outputKey)
    (clash : Form.filed.Clash key v w) :
    OtherFault schema start top (.query ⟨path, .duplicateField key⟩)
  /-- Invocations that are put together differ in their arguments, or ask what clashes below. -/
  | pooled {here : Context} {s t v w : Selection} {offer : Offer} {key : String} (path : Path)
    (meets : Meets schema start top here s t) (left : Asked schema here s v)
    (right : Asked schema here t w) (named : v.name = w.name)
    (offered : here.offer? schema v.name = some offer) (pooled : offer.isPooled = true)
    (differ : sameArguments v.arguments w.arguments = false ∨ Form.filed.Clash key v w) :
    OtherFault schema start top (.query ⟨path, .duplicateField key⟩)
  /-- A list has no page, or one that it cannot have. -/
  | page {order : Order} {typed : Bool} {type : ObjectType} {child : Selection} {path : Path}
    {e : BindError} (list : AskedAsList schema start top order typed type child)
    (failed : child.boundPagination (order.withTiebreaker type.primaryKey) typed path = .error e) :
    OtherFault schema start top e
  /-- A lookup has no id. -/
  | lookup {here : Context} {s child : Selection} {field : RootField} {path : Path} {e : BindError}
    (leads : LeadsTo schema start top here s) (asked : Asked schema here s child)
    (offered : here.offer? schema child.name = some (.root field)) (single : field.kind = .single)
    (failed : child.lookupKey field path = .error e) : OtherFault schema start top e
  /-- A declared filter does not take its value. -/
  | value {here : Context} {s child : Selection} {offer : Offer} {argument : String × Value}
    {own : DeclaredFilter} {fault : DomainError} (path : Path)
    (leads : LeadsTo schema start top here s) (asked : Asked schema here s child)
    (offered : here.offer? schema child.name = some offer) (present : argument ∈ child.arguments)
    (other : argument.1 ∉ offer.allowed)
    (found : DeclaredFilter.find? offer.declared argument.1 = some own)
    (refused : own.apply argument.2 = .error fault) :
    OtherFault schema start top (.invalidArgument argument.1 fault.message path)

/-- What an error of binding tells of. -/
def Fault (schema : Schema) (start : Context) (top : Selection) (e : BindError) : Prop :=
  MissesField schema start top e ∨ MissesArgument schema start top e ∨ OtherFault schema start top e

/-- If a type is not found below a record, it is the condition of a fragment. -/
theorem Fault.unknownCondition {type : ObjectType} {condition : String} {path : Path}
    (fault : Fault schema (.record type) top (.typeNotFound condition path)) :
    UnknownCondition schema (.record type) top condition := by
  rcases fault with misses | misses | other
  · cases misses
  · cases misses
  · cases other with
    | condition _ unknown => exact unknown
    | outermost query => cases query
    | page _ failed => cases boundPagination_blames _ _ _ _ _ failed
    | lookup _ _ _ _ failed => cases lookupKey_blames _ _ _ _ failed

/-! ### Arguments -/

/-- Whatever is read from the head of a field alone is the same for all that have this head. -/
theorem of_head {w : Selection} (head : Form.filed.head w = ⟨s.name, s.aliasName, s.arguments⟩) :
    s.name = w.name ∧ s.withoutArguments = w.withoutArguments ∧ s.lookupKey = w.lookupKey ∧
      s.declaredFilter = w.declaredFilter ∧ s.boundPagination = w.boundPagination := by
  obtain ⟨name, aliasName, arguments, children, fragments⟩ := s
  cases head
  exact ⟨rfl, rfl, rfl, rfl, rfl⟩

section Arguments

variable {child : Selection} {offer : Offer} (leads : LeadsTo schema start top here s)
  (asked : Asked schema here s child) (offered : here.offer? schema child.name = some offer)
  (read : offer.isFixed = false) (path : Path)

include leads asked offered read

/-- The filters of a field fail with an argument that it does not have, or with a value that is
refused. -/
theorem declaredFilter_faults :
    FailsOnly (Fault schema start top)
      (child.declaredFilter offer.declared offer.allowed path) := by
  refine .bind (.mapM fun entry kept => ?_) fun _ _ => .ok _
  obtain ⟨present, other⟩ := List.mem_filter.mp kept
  have other : entry.1 ∉ offer.allowed := by simpa using other
  show FailsOnly _ (child.argumentFilter offer.declared path entry.1 entry.2)
  unfold argumentFilter
  split
  · rename_i unknown
    exact .error (.inr (.inl (.intro path leads asked offered read present other unknown)))
  · rename_i own found
    cases applied : own.apply entry.2 with
    | ok filter => exact .ok filter
    | error fault =>
      exact .error (.inr (.inr (.value path leads asked offered present other found applied)))

/-- A field that takes no arguments fails with the first one. -/
theorem withoutArguments_faults (none : offer.allowed = []) (undeclared : offer.declared = []) :
    FailsOnly (Fault schema start top) (child.withoutArguments path) := by
  unfold withoutArguments
  split
  · exact .ok ()
  · rename_i argument value rest given
    have present : (argument, value) ∈ child.arguments := given ▸ List.mem_cons_self
    have other : argument ∉ offer.allowed := none ▸ List.not_mem_nil
    have unknown : DeclaredFilter.find? offer.declared argument = Option.none := undeclared ▸ rfl
    exact .error (.inr (.inl (.intro path leads asked offered read present other unknown)))

end Arguments

end Selection

end GraphRead
