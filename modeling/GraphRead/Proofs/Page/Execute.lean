import GraphRead.Proofs.Binding.Below
import GraphRead.Proofs.Execution.Outcome
import GraphRead.Proofs.Page.Located
import GraphRead.Schema.Build
import Mathlib
/-!
Every connection that is asked is answered with a page, which shows exactly the window that is asked
for (`executeDocument_shows`).

It does not matter over how many types the connection goes, how its rows are fetched, or whether it
is a root field or lies below a record: the response is the one of the resolution per parent, in
which the page of every place is merged from the fronts of the types of the place.
-/

namespace GraphRead

open PerParent Success

/-- The response to a document is the one of the resolution per parent. -/
theorem response_of_executeDocument {schema : Schema} {store : Memory} {config : Config}
    {timing : Timing} {document : Document} {root : Selection} {reads : List RootRead}
    {response : Response} (built : Selection.ofDocument document = .ok root)
    (bound : root.rootReads schema = .ok reads)
    (done : (executeDocument schema store.connector config timing document).outcome =
      .ok response) : PerParent.response store.connector reads = .ok response := by
  rw [executeDocument_of_asks ⟨root, built, bound⟩] at done
  have resolved := outcome_of_observe done
  rw [← toOption_eq_some, ← resolveReads_of_document store config.maxBindValues
    Completion.inOrder_complete built bound, toOption_eq_some]
  exact resolved

/-- Every answer of a response to a document is the one of the resolution per parent. -/
theorem found_of_executeDocument {schema : Schema} {store : Memory} {config : Config}
    {timing : Timing} {document : Document} {root : Selection} {reads : List RootRead}
    {response : Response} (built : Selection.ofDocument document = .ok root)
    (bound : root.rootReads schema = .ok reads)
    (done : (executeDocument schema store.connector config timing document).outcome = .ok response)
    {place : Place} {answer : Answer Record} (here : response.At reads place answer) :
    place.Found schema store answer := by
  have keyed := Selection.ofDocument_wellKeyed built
  exact found_of_at (Selection.rootReads_keys_nodup keyed bound)
    (Selection.rootReads_formed keyed bound) (response_of_executeDocument built bound done) here

/-! ### Whatever is asked is answered -/

/-- A response answers whatever is asked: every root field and, of every record that it shows, the
associations that are asked of the records of its type. It answers with a page where lists are
asked. -/
structure Response.AnswersAll (reads : List RootRead) (response : Response) : Prop where
  roots : ∀ read ∈ reads, ∃ answer, (read.key, answer) ∈ response
  types : ∀ {place : Place} {above : Answer Record} {record : Record},
    response.At reads place above → record ∈ above.records →
      ∃ target ∈ place.targets, target.type = record.type
  links : ∀ {place : Place} {above : Answer Record} {record : Record} {target : Target}
    {f : BoundField} {key : String} {l : BoundLink},
    response.At reads place above → record ∈ above.records → target ∈ place.targets →
      target.type = record.type → target.record? = some f → (key, l) ∈ f.links →
        ∃ answer, (key, answer) ∈ record.links
  pages : ∀ {place : Place} {answer : Answer Record} {c : BoundConnection},
    response.At reads place answer → .connection c ∈ place.targets → ∃ page, answer = .many page

/-- The associations that are asked for at a place of a response are bound to the schema. -/
theorem Response.At.binds {schema : Schema} {root : Selection} {reads : List RootRead}
    (bound : root.rootReads schema = .ok reads)
    {response : Response} {place : Place} {answer : Answer Record}
    (here : response.At reads place answer) :
    ∀ target ∈ place.targets, ∀ link ∈ target.links, schema.Binds link.2 := by
  induction here with
  | root asked _ =>
    obtain ⟨key, s, isRoot⟩ := Selection.exists_bindRoot bound asked
    obtain ⟨_, _, _, isTargets⟩ := Selection.bindRoot_targets isRoot
    exact Selection.binds_of_bindTargets isTargets
  | link _ _ reached _ asked linked _ ih =>
    have own := ih _ reached _ (Target.mem_links.mpr ⟨_, asked, linked⟩)
    exact fun child below link linked => own.below below linked

/-- A response to a document answers whatever the document asks. -/
theorem answersAll_of_executeDocument {schema : Schema} {store : Memory} {config : Config}
    {timing : Timing} {document : Document} {root : Selection} {reads : List RootRead}
    {response : Response} (built : Selection.ofDocument document = .ok root)
    (bound : root.rootReads schema = .ok reads)
    (done : (executeDocument schema store.connector config timing document).outcome =
      .ok response) : response.AnswersAll reads := by
  have distinct := Selection.rootReads_keys_nodup (Selection.ofDocument_wellKeyed built) bound
  have resolved := response_of_executeDocument built bound done
  have found {place answer} (here : response.At reads place answer) :
      place.Found schema store answer := found_of_executeDocument built bound done here
  refine ⟨fun read asked => exists_shown distinct resolved asked, fun here listed => ?_,
    fun here listed reached ofType asked linked => ?_, fun here asked => ?_⟩
  · obtain ⟨target, reached, completed, -⟩ := (found here).answered.made listed
    exact ⟨target, reached, completed.1.symm⟩
  · obtain ⟨other, known, completed, -⟩ := (found here).answered.made listed
    obtain rfl := (found here).together.single _ reached _ known (ofType.trans completed.1)
    exact completed.exists_answer asked linked
  · cases here with
    | root among shown =>
      obtain ⟨key, s, isRoot⟩ := Selection.exists_bindRoot bound among
      exact exists_page_of_rootAnswer (Selection.bindRoot_many isRoot asked)
        (rootAnswer_of_shown distinct resolved among shown)
    | link upper listed reached ofType asks linked shown =>
      obtain ⟨position, answered⟩ :=
        (found upper).exists_answer listed reached ofType asks linked shown
      have own := upper.binds bound _ reached _ (Target.mem_links.mpr ⟨_, asks, linked⟩)
      exact exists_page_of_answer (own.many asked) answered

/-- **A connection shows exactly the window of its list.** Wherever a connection is asked, it is
answered with a page. The page has the first entries after the cursor, or the last ones before it,
of the rows of all types in one order, and the page info tells whether there are more. -/
theorem executeDocument_shows {schema : Schema} {store : Memory} {config : Config}
    {timing : Timing} {document : Document} {root : Selection} {reads : List RootRead}
    {response : Response} (built : Selection.ofDocument document = .ok root)
    (bound : root.rootReads schema = .ok reads)
    (done : (executeDocument schema store.connector config timing document).outcome =
      .ok response) :
    response.AnswersAll reads ∧
      ∀ place page c, response.At reads place (.many page) → .connection c ∈ place.targets →
        place.Regular store c → place.Shows store c page :=
  ⟨answersAll_of_executeDocument built bound done, fun _ _ _ here asked regular =>
    (found_of_executeDocument built bound done here).shows asked regular⟩

/-! ### Actors of two types -/

namespace Actors

/-- A user and a bot have the same name and the same primary key, so the names of their types
decide which of them comes first. -/
def actor (type table : String) : ObjectType where
  name := type
  table := table
  primaryKey := "id"
  scope := .always
  fields := [("name", .scalar ⟨"name", .string, .column "name"⟩)]

def byName : Order := [⟨"name", .ascending⟩]

def directory : Schema where
  types := [("user", actor "user" "users"), ("bot", actor "bot" "bots")]
  interfaces := [("actor", ⟨"actor", ["user", "bot"]⟩)]
  roots := [("actors", ⟨"actors", "actor", .connection byName, []⟩)]

def declarations : Declarations :=
  ⟨[actor "user" "users", actor "bot" "bots"], [⟨"actor", ["user", "bot"]⟩],
    [⟨"actors", "actor", .connection byName, []⟩]⟩

theorem built_directory : Schema.build declarations = .ok directory := by cbv

section Root

variable {field : Selection} {list : String → String → BoundConnection}

/-- Both types are read if the list is bound for a type. -/
theorem bindTargets_actors (each : ∀ type table path,
    Selection.bindConnection directory byName true (actor type table) path field =
      .ok (list type table)) (path : Path) :
    Selection.bindTargets directory (.connection byName) "actor" path field =
      .ok [.connection (list "user" "users"), .connection (list "bot" "bots")] := by
  have types : Selection.bindEach directory (.connection byName) true path field
      [actor "user" "users", actor "bot" "bots"] =
      .ok [.connection (list "user" "users"), .connection (list "bot" "bots")] := by
    simp only [Selection.bindEach, Selection.bindTarget, each]
    rfl
  rw [Selection.bindTargets]
  exact types

theorem bindRoot_actors (named : field.name = "actors") {filter : Filter}
    (filtered : ∀ path, field.declaredFilter [] Selection.paginationArguments path = .ok filter)
    (each : ∀ type table path,
      Selection.bindConnection directory byName true (actor type table) path field =
        .ok (list type table)) :
    Selection.bindRoot directory "actors" field = .ok ⟨"actors", filter,
      [.connection (list "user" "users"), .connection (list "bot" "bots")], .many⟩ := by
  rw [Selection.bindRoot, named]
  show (do
    let filter ← field.declaredFilter [] Selection.paginationArguments _
    let targets ← Selection.bindTargets directory (.connection byName) "actor" _ field
    return (⟨"actors", filter, targets, .many⟩ : RootRead)) = _
  rw [filtered, bindTargets_actors each]
  rfl

theorem forall_actors {p : Target → Prop} (user : p (.connection (list "user" "users")))
    (bot : p (.connection (list "bot" "bots"))) : ∀ target ∈
      [Target.connection (list "user" "users"), .connection (list "bot" "bots")], p target :=
  List.forall_mem_cons.mpr ⟨user, List.forall_mem_singleton.mpr bot⟩

end Root

def row (id : Int64) (name : String) : Row := [("id", .int id), ("name", .string name)]

def store : Memory := ⟨[("users", [row 1 "ada", row 2 "cy"]), ("bots", [row 1 "ada"])], []⟩

/-- Asks for the first two actors, and whether there are more. -/
def firstTwo : Document where
  root := ⟨⟨rootName, none, []⟩, [.field ⟨"actors", none, [("first", .int 2)]⟩
    [.field ⟨"pageInfo", none, []⟩ [.field ⟨"hasNextPage", none, []⟩ []]]]⟩
  fragments := []

def field : Selection where
  name := "actors"
  aliasName := none
  arguments := [("first", .int 2)]
  children := [("pageInfo",
    ⟨"pageInfo", none, [], [("hasNextPage", ⟨"hasNextPage", none, [], [], []⟩)], []⟩)]
  fragments := []

def connection (type table : String) : BoundConnection :=
  ⟨actor type table, byName, .forward 2 none, none, some ⟨true, false, false, false⟩, false, true⟩

def read : RootRead where
  key := "actors"
  filter := .always
  targets := [.connection (connection "user" "users"), .connection (connection "bot" "bots")]
  kind := .many

def fetched (type table : String) (id : Int64) (name : String) : Fetched :=
  read.place.shown ⟨.connection (connection type table), row id name⟩

/-- The bot comes before the user, and the other user on the next page. -/
def page : Page Record :=
  mergeMany [fetched "user" "users" 1 "ada", fetched "user" "users" 2 "cy",
    fetched "bot" "bots" 1 "ada"] (some (connection "user" "users")) 0

theorem built : Selection.ofDocument firstTwo =
    .ok ⟨rootName, none, [], [("actors", field)], []⟩ := by
  cbv

theorem bindConnection_actor (type table : String) (path : Path) :
    Selection.bindConnection directory byName true (actor type table) path field =
      .ok (connection type table) := by
  rw [Selection.bindConnection_eq]
  cbv

theorem bound : Selection.rootReads directory ⟨rootName, none, [], [("actors", field)], []⟩ =
    .ok [read] := by
  have root : Selection.bindRoot directory "actors" field = .ok read :=
    bindRoot_actors rfl (fun path => by cbv) bindConnection_actor
  have reads : Selection.rootReads directory ⟨rootName, none, [], [("actors", field)], []⟩ =
      [("actors", field)].mapM fun entry => Selection.bindRoot directory entry.1 entry.2 := by
    cbv
  rw [reads, List.mapM_cons, root]
  rfl

theorem executed : (executeDocument directory store.connector .default .instant firstTwo).outcome =
    .ok [("actors", .many page)] := by
  have tasks : [read].mapM RootRead.tasks = .ok [read.targets.map read.task] := by cbv
  have resolved : (resolveReads store.connector none .inOrder [read]).outcome =
      .ok [("actors", .many page)] := by
    rw [resolveReads, tasks]
    dsimp only
    rw [resolveLevel_cons _ _ _ _ (by simp [read])]
    cbv
  rw [executeDocument, built]
  dsimp only
  rw [executeSelection, bound]
  exact (observe_outcome store.connector 8 none 0 _).trans (congrArg _ resolved)

theorem regular : read.place.Regular store (connection "user" "users") :=
  ⟨by decide, forall_actors (by decide) (by decide), forall_actors (by decide) (by decide),
    fun _ given => nomatch given⟩

/-- The first page of the actors is the window of the list of all actors. -/
theorem executeDocument_shows_firstTwo :
    (executeDocument directory store.connector .default .instant firstTwo).outcome =
        .ok [("actors", .many page)] ∧
      read.place.Regular store (connection "user" "users") ∧
      read.place.Shows store (connection "user" "users") page :=
  ⟨executed, regular, (executeDocument_shows built bound executed).2 _ _ _
    (.root List.mem_cons_self List.mem_cons_self) List.mem_cons_self regular⟩

end Actors

end GraphRead
