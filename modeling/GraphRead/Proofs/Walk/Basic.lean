import GraphRead.Proofs.Page.Located
/-!
Walking a connection: one page after the other, as long as there is another one.

A client asks for the first records of a list, then for the first ones after the end cursor of the
page that it has got, and so on until a page says that there is none behind it. Or it asks for the
last records, and goes on before the start cursor (`Walk`). Every request is a request of its own,
which is written, bound and answered (`Site.answer`), and all that leads from one to the next is the
text of a cursor.
-/

namespace GraphRead

open PerParent

namespace Side

/-- A list from the end at which a walk begins. -/
def along {α : Type} (side : Side) (items : List α) : List α :=
  match side with
  | after => items
  | before => items.reverse

/-- A page of at most so many records beyond a cursor. -/
def page (side : Side) (limit : Nat) (cursor : Option Cursor) : Pagination :=
  match side with
  | after => .forward limit cursor
  | before => .backward limit cursor

/-- The arguments that ask for a page beyond the text of a cursor. -/
def arguments (side : Side) (size : Int64) (text : Option String) : List (String × Value) :=
  match side with
  | after => ("first", .int size) :: (text.map fun text => ("after", .string text)).toList
  | before => ("last", .int size) :: (text.map fun text => ("before", .string text)).toList

/-- Whether there is another page. -/
def more (side : Side) (info : PageInfo) : Bool :=
  match side with
  | after => info.hasNextPage
  | before => info.hasPreviousPage

/-- The text of the cursor beyond which the next page lies. -/
def next (side : Side) (info : PageInfo) : Option String :=
  match side with
  | after => info.endCursor
  | before => info.startCursor

/-- Whether everything is asked that a walk needs. -/
def asks (side : Side) (info : PageInfoRequest) : Bool :=
  match side with
  | after => info.hasNextPage && info.endCursor
  | before => info.hasPreviousPage && info.startCursor

end Side

/-- The page of an answer. -/
def Answer.page? {ρ : Type} : Answer ρ → Option (Page ρ)
  | many page => some page
  | one _ => none

/-- The pages that a walk gets, from a cursor on, if requests are answered by the given function. -/
inductive Walk (ask : Option String → Option (Page Record)) (side : Side) :
    Option String → List (Page Record) → Prop
  | last {cursor : Option String} {page : Page Record} {info : PageInfo}
    (answered : ask cursor = some page) (located : page.pageInfo = some info)
    (ended : side.more info = false) : Walk ask side cursor [page]
  | next {cursor : Option String} {page : Page Record} {info : PageInfo} {text : String}
    {rest : List (Page Record)} (answered : ask cursor = some page)
    (located : page.pageInfo = some info) (more : side.more info = true)
    (beyond : side.next info = some text) (later : Walk ask side (some text) rest) :
    Walk ask side cursor (page :: rest)

/-- Requests that are answered the same give the same pages. -/
theorem Walk.unique {ask : Option String → Option (Page Record)} {side : Side}
    {cursor : Option String} {pages others : List (Page Record)}
    (walk : Walk ask side cursor pages) (other : Walk ask side cursor others) :
    pages = others := by
  induction walk generalizing others with
  | last answered located ended =>
    cases other with
    | last answered' => rw [Option.some.inj (answered.symm.trans answered')]
    | next answered' located' more =>
      obtain rfl := Option.some.inj (answered.symm.trans answered')
      obtain rfl := Option.some.inj (located.symm.trans located')
      rw [ended] at more
      cases more
  | next answered located more beyond later ih =>
    cases other with
    | last answered' located' ended =>
      obtain rfl := Option.some.inj (answered.symm.trans answered')
      obtain rfl := Option.some.inj (located.symm.trans located')
      rw [ended] at more
      cases more
    | next answered' located' more' beyond' later' =>
      obtain rfl := Option.some.inj (answered.symm.trans answered')
      obtain rfl := Option.some.inj (located.symm.trans located')
      obtain rfl := Option.some.inj (beyond.symm.trans beyond')
      rw [ih later']

/-! ### Requests -/

/-- The arguments of a field that do not ask for a page. -/
def WrittenField.restricting (field : WrittenField) : List (String × Value) :=
  field.head.arguments.filter fun entry => !Selection.paginationArguments.contains entry.1

/-- A field that asks for a page, whatever page it asked for before. -/
def WrittenField.paged (field : WrittenField) (side : Side) (size : Int64) (text : Option String) :
    WrittenField :=
  { field with
    head := { field.head with arguments := side.arguments size text ++ field.restricting } }

/-- The document whose only root field is the given one. -/
def WrittenField.document (field : WrittenField) (fragments : Keyed Fragment) : Document :=
  ⟨⟨⟨rootName, none, []⟩, [.field field.head field.items]⟩, fragments⟩

/-- A record of a position with the answer of an association, which is read for it alone. -/
def attachOne (connector : Connector) (size : Option Nat) (depth : Nat) (position : Path)
    (key : String) (l : BoundLink) (parent : Fetched) : Except ResolveError (List Fetched) := do
  let tasks ← planLink position key l [parent]
  let outputs ← (resolveLevel connector size .inOrder depth tasks).outcome
  attachLink position key l outputs [parent]

/-- Where a connection is asked for. -/
inductive Site where
  /-- At the top of a document that is executed with some limits. -/
  | root (limit : Nat) (size : Option Nat) (latency : Nat)
  /-- Below a record of a position by an association, whose children lie at a depth below the root
  fields. -/
  | below (association : Association) (position : Path) (parent : Fetched) (depth : Nat)
    (size : Option Nat)

namespace Site

/-- What a request is answered with, if nothing fails. -/
def answer (schema : Schema) (store : Memory) (fragments : Keyed Fragment) (site : Site)
    (field : WrittenField) : Option (Answer Record) :=
  let key := field.head.outputKey
  match site with
  | root limit size latency =>
    (executeDocument schema store.connector ⟨limit, size, none⟩ ⟨latency, none⟩
      (field.document fragments)).outcome.toOption.bind fun response => Keyed.get? response key
  | below association position parent depth size => do
    let s ← (Selection.ofField fragments field).toOption
    let l ← (Selection.bindLink schema association (position.add key) s).toOption
    let records ← (attachOne store.connector size depth position key l parent).toOption
    let r ← records.head?
    r.record.links.getLast?.map Prod.snd

/-- The page that a request for a page is answered with. -/
def ask (schema : Schema) (store : Memory) (fragments : Keyed Fragment) (site : Site)
    (field : WrittenField) (side : Side) (size : Int64) (text : Option String) :
    Option (Page Record) :=
  (site.answer schema store fragments (field.paged side size text)).bind Answer.page?

/-- A request binds to a place, the answer of which has a position in the response. -/
inductive Binds (schema : Schema) (fragments : Keyed Fragment) (field : WrittenField) :
    Site → Path → Place → Prop
  | root {limit : Nat} {size : Option Nat} {latency : Nat} {query : Selection} {read : RootRead}
    (built : Selection.ofDocument (field.document fragments) = .ok query)
    (bound : query.rootReads schema = .ok [read]) :
    Binds schema fragments field (root limit size latency) read.position read.place
  | below {association : Association} {position : Path} {parent : Fetched} {depth : Nat}
    {size : Option Nat} {s : Selection} {l : BoundLink}
    (built : Selection.ofField fragments field = .ok s)
    (bound : Selection.bindLink schema association (position.add field.head.outputKey) s = .ok l)
    (known : (parent.record.get? association.localColumn).isSome) :
    Binds schema fragments field (below association position parent depth size)
      (position.add field.head.outputKey) (l.place (joinValue association.localColumn parent))

end Site

/-! ### Lists that can be walked -/

/-- The cursor of an entry, which names the type where records of several types are merged. -/
def Entry.cursor (order : Order) (typed : Bool) (e : Entry) : Cursor :=
  ⟨order.columns.map e.row.value ++ if typed then [.string e.target.type.name] else []⟩

end GraphRead
