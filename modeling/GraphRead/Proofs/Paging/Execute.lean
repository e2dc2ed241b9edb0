import GraphRead.Proofs.Execution.Outcome
import GraphRead.Proofs.Page.Execute
import GraphRead.Proofs.Page.Total
import GraphRead.Proofs.Paging.Bound
import GraphRead.Proofs.Schema.Build
import Mathlib
/-!
The totals of a response are exact, and do not depend on any page (`executeDocument_totals`).

The total of a page is the number of rows of its list (`Place.Found.total`), and the list is over
the distinct types behind the target of the root field or of the association. If two queries are
the same but for their pages, then at corresponding places of their responses the lists have the
same rows (`both_sameList`): on the way down the same associations are followed, and the records
that are shown have the same value to join by.
-/

namespace GraphRead

open Success

/-- A response answers at a place that leads to the types behind a name: the target of a root
field, or of an association that is asked of a record. -/
inductive Response.LeadsTo (schema : Schema) (reads : List RootRead) (response : Response) :
    Place → Answer Record → String → Prop
  | root {read : RootRead} {answer : Answer Record} {s : Selection} {field : RootField}
    (asked : read ∈ reads) (shown : (read.key, answer) ∈ response)
    (bound : Selection.bindRoot schema read.key s = .ok read)
    (declared : Keyed.get? schema.roots s.name = some field) :
    response.LeadsTo schema reads read.place answer field.target
  | link {place : Place} {above : Answer Record} {record : Record} {target : Target} {key : String}
    {l : BoundLink} {answer : Answer Record} (upper : response.At reads place above)
    (listed : record ∈ above.records) (reached : target ∈ place.targets)
    (ofType : target.type = record.type) (linked : (key, l) ∈ target.links)
    (shown : (key, answer) ∈ record.links) :
    response.LeadsTo schema reads (l.place ((record.get? l.association.localColumn).getD .null))
      answer l.association.target

/-- Two responses answer at corresponding places: at root fields of one key, or at associations of
one key that are asked of records of one type with the same value to join by. -/
inductive Response.Both (reads reads' : List RootRead) (response response' : Response) :
    Place → Answer Record → Place → Answer Record → Prop
  | root {read read' : RootRead} {answer answer' : Answer Record} (asked : read ∈ reads)
    (asked' : read' ∈ reads') (same : read.key = read'.key) (shown : (read.key, answer) ∈ response)
    (shown' : (read'.key, answer') ∈ response') :
    Both reads reads' response response' read.place answer read'.place answer'
  | link {place place' : Place} {above above' : Answer Record} {record record' : Record}
    {target target' : Target} {key : String} {l l' : BoundLink} {answer answer' : Answer Record}
    (upper : Both reads reads' response response' place above place' above')
    (listed : record ∈ above.records) (listed' : record' ∈ above'.records)
    (reached : target ∈ place.targets) (reached' : target' ∈ place'.targets)
    (ofType : target.type = record.type) (ofType' : target'.type = record'.type)
    (sameType : record.type = record'.type) (linked : (key, l) ∈ target.links)
    (linked' : (key, l') ∈ target'.links)
    (sameValue : (record.get? l.association.localColumn).getD .null =
      (record'.get? l'.association.localColumn).getD .null)
    (shown : (key, answer) ∈ record.links) (shown' : (key, answer') ∈ record'.links) :
    Both reads reads' response response'
      (l.place ((record.get? l.association.localColumn).getD .null)) answer
      (l'.place ((record'.get? l'.association.localColumn).getD .null)) answer'

namespace Response

variable {reads reads' : List RootRead} {response response' : Response} {place place' : Place}
  {answer answer' : Answer Record}

theorem At.of_link {above : Answer Record} {record : Record} {target : Target} {key : String}
    {l : BoundLink} (upper : response.At reads place above) (listed : record ∈ above.records)
    (reached : target ∈ place.targets) (ofType : target.type = record.type)
    (linked : (key, l) ∈ target.links) (shown : (key, answer) ∈ record.links) :
    response.At reads (l.place ((record.get? l.association.localColumn).getD .null)) answer := by
  obtain ⟨f, asked, linked⟩ := Target.mem_links.mp linked
  exact .link upper listed reached ofType asked linked shown

theorem Both.left (both : Both reads reads' response response' place answer place' answer') :
    response.At reads place answer := by
  induction both with
  | root asked _ _ shown _ => exact .root asked shown
  | link _ listed _ reached _ ofType _ _ linked _ _ shown _ ih =>
    exact .of_link ih listed reached ofType linked shown

theorem Both.right (both : Both reads reads' response response' place answer place' answer') :
    response'.At reads' place' answer' := by
  induction both with
  | root _ asked _ _ shown => exact .root asked shown
  | link _ _ listed _ reached _ ofType _ _ linked _ _ shown ih =>
    exact .of_link ih listed reached ofType linked shown

end Response

/-! ### Where a place leads -/

namespace Selection

open Fallible

variable {schema : Schema}

/-- A root field is bound to the types behind its target. -/
theorem exists_target_of_bindRoot {key : String} {s : Selection} {read : RootRead}
    (done : bindRoot schema key s = .ok read) :
    ∃ field, Keyed.get? schema.roots s.name = some field ∧
      schema.coveredTypes field.target = .ok (read.targets.map Target.type) := by
  unfold bindRoot at done
  dsimp only at done
  split at done
  · cases done
  · rename_i field declared
    refine ⟨field, declared, ?_⟩
    split at done
    · obtain ⟨filter, -, done⟩ := bind_eq_ok.mp done
      obtain ⟨targets, isTargets, done⟩ := bind_eq_ok.mp done
      cases pure_eq_ok.mp done
      exact types_of_bindTargets isTargets
    · obtain ⟨id, -, done⟩ := bind_eq_ok.mp done
      obtain ⟨filter, -, done⟩ := bind_eq_ok.mp done
      obtain ⟨targets, isTargets, done⟩ := bind_eq_ok.mp done
      cases pure_eq_ok.mp done
      exact types_of_bindTargets isTargets

end Selection

/-- Every place of a response leads to the types behind a name, which are those of its targets. -/
theorem exists_leadsTo {schema : Schema} {root : Selection} {reads : List RootRead}
    (bound : root.rootReads schema = .ok reads) {response : Response} {place : Place}
    {answer : Answer Record} (here : response.At reads place answer) :
    ∃ name, response.LeadsTo schema reads place answer name ∧
      schema.coveredTypes name = .ok (place.targets.map Target.type) := by
  cases here with
  | @root read _ asked shown =>
    obtain ⟨key, s, isRoot⟩ := Selection.exists_bindRoot bound asked
    obtain ⟨field, declared, types⟩ := Selection.exists_target_of_bindRoot isRoot
    cases Selection.bindRoot_key isRoot
    exact ⟨field.target, .root asked shown isRoot declared, types⟩
  | @link _ _ _ target f key l _ upper listed reached ofType asked linked shown =>
    have linked := Target.mem_links.mpr ⟨f, asked, linked⟩
    have own := upper.binds bound target reached (key, l) linked
    exact ⟨l.association.target, .link upper listed reached ofType linked shown, own.types⟩

/-! ### Corresponding places -/

/-- Two places list the same rows, as far as they are lists, for targets that are alike. -/
structure Place.SameList (place other : Place) : Prop where
  rows : SameRows place.filter other.filter place.targets other.targets
  each : Target.AlikeEach place.targets other.targets
  parent : place.parent = other.parent

namespace Place.SameList

variable {place other : Place} (same : place.SameList other) {c : BoundConnection}
  (asked : .connection c ∈ place.targets)

include same asked

/-- Where one place asks for a list, so does the other, and it asks for the count if the one
does. -/
theorem exists_connection : ∃ c', .connection c' ∈ other.targets ∧ c.count = c'.count := by
  have known : c.type ∈ other.targets.map Target.type := by
    rw [← same.rows.types]
    exact List.mem_map.mpr ⟨.connection c, asked, rfl⟩
  obtain ⟨target, reached, ofType⟩ := List.mem_map.mp known
  have counts := (same.each _ asked target reached ofType.symm).counts
  obtain ⟨c', isConnection, count⟩ := Option.map_eq_some_iff.mp counts.symm
  cases target with
  | connection own =>
    cases isConnection
    exact ⟨c', reached, count.symm⟩
  | field f => cases isConnection
  | edge e => cases isConnection

/-- Both lists have the same number of rows. -/
theorem total (store : Memory) (types : List ObjectType) :
    place.total store types = other.total store types := by
  have joins : place.joins = other.joins := by
    funext row
    rw [Place.joins, Place.joins, same.parent]
  have counted (type : ObjectType) : place.counted store type = other.counted store type := by
    rw [Place.counted, Place.counted, same.rows.filter c asked, joins]
  rw [Place.total, Place.total, List.map_congr_left fun type _ => counted type]

end Place.SameList

/-- At corresponding places the responses to queries that are the same but for their pages list the
same rows, by induction on the way down. -/
theorem both_sameList {schema : Schema} {root root' : Selection} (keyed : root.WellKeyed)
    (keyed' : root'.WellKeyed) (alike : Selection.Alike root root')
    {reads reads' : List RootRead} (bound : root.rootReads schema = .ok reads)
    (bound' : root'.rootReads schema = .ok reads') {response response' : Response}
    {place place' : Place} {answer answer' : Answer Record}
    (both : Response.Both reads reads' response response' place answer place' answer') :
    place.SameList place' := by
  induction both with
  | root asked asked' same =>
    obtain ⟨rows, each⟩ :=
      Selection.rootReads_alike keyed keyed' alike bound bound' asked asked' same
    exact ⟨rows, each, rfl⟩
  | @link place place' _ _ record record' target target' key l l' _ _ _ _ _ reached reached' ofType
      ofType' sameType linked linked' sameValue _ _ ih =>
    have types : target.type = target'.type := ofType.trans (sameType.trans ofType'.symm)
    obtain ⟨association, rows, each⟩ := (ih.each target reached target' reached' types).link linked
      linked'
    refine ⟨rows, each, ?_⟩
    show some _ = some _
    rw [sameValue, association]

/-! ### Executions -/

section Totals

variable {declared : Declarations} {schema : Schema} {store : Memory}

/-- **Totals are exact and independent of pages.** Every connection that is asked is answered with a
page, and its total is the number of rows of the list over the distinct types of the place, or zero
if the count is not asked. A document that is the same but for its pages has the same totals at
corresponding places, under whatever configuration it is executed. -/
theorem executeDocument_totals (built : Schema.build declared = .ok schema)
    (distinct : ∀ face ∈ schema.interfaces.values, face.covered.Nodup) {config : Config}
    {timing : Timing} {document : Document} {response : Response}
    (done : (executeDocument schema store.connector config timing document).outcome =
      .ok response) :
    ∃ reads, document.Asks schema reads ∧ response.AnswersAll reads ∧
      (∀ place page c, response.At reads place (.many page) → .connection c ∈ place.targets →
        ∃ name types, response.LeadsTo schema reads place (.many page) name ∧
          schema.coveredTypes name = .ok types ∧ (types.map ObjectType.name).Nodup ∧
          place.targets.map Target.type = types ∧
          page.total = if c.count then place.total store types else 0) ∧
      ∀ config' timing' other reads' response', other.unpaged = document.unpaged →
        other.Asks schema reads' →
        (executeDocument schema store.connector config' timing' other).outcome = .ok response' →
        ∀ place page place' page' c,
          Response.Both reads reads' response response' place (.many page) place' (.many page') →
          .connection c ∈ place.targets → page'.total = page.total := by
  obtain ⟨reads, root, isRoot, bound⟩ := exists_asks done
  have named := Schema.named_of_build built
  refine ⟨reads, ⟨root, isRoot, bound⟩, answersAll_of_executeDocument isRoot bound done,
    fun place page c here asked => ?_, ?_⟩
  · obtain ⟨name, leads, covered⟩ := exists_leadsTo bound here
    have found := found_of_executeDocument isRoot bound done here
    have unrepeated (face) (found : Keyed.get? schema.interfaces name = some face) :=
      distinct face (List.mem_map.mpr ⟨_, Keyed.mem_of_get? found, rfl⟩)
    exact ⟨name, _, leads, covered, named.nodup_coveredTypes unrepeated covered, rfl,
      found.total asked⟩
  · rintro config' timing' other reads' response' same ⟨root', isRoot', bound'⟩ done' place page
      place' page' c both asked
    have alike := Selection.ofDocument_alike same.symm isRoot isRoot'
    have sameList := both_sameList (Selection.ofDocument_wellKeyed isRoot)
      (Selection.ofDocument_wellKeyed isRoot') alike bound bound' both
    obtain ⟨c', asked', count⟩ := sameList.exists_connection asked
    rw [(found_of_executeDocument isRoot bound done both.left).total asked,
      (found_of_executeDocument isRoot' bound' done' both.right).total asked', count,
      sameList.rows.types, sameList.total asked]

end Totals

/-! ### The number of actors -/

namespace Actors

/-- Asks for a page of the actors, and how many there are. -/
def counting (size : Int64) : Document where
  root := ⟨⟨rootName, none, []⟩, [.field ⟨"actors", none, [("first", .int size)]⟩
    [.field ⟨"totalCount", none, []⟩ []]]⟩
  fragments := []

def countingField (size : Int64) : Selection :=
  ⟨"actors", none, [("first", .int size)], [("totalCount", ⟨"totalCount", none, [], [], []⟩)], []⟩

def countingConnection (size : Nat) (type table : String) : BoundConnection :=
  ⟨actor type table, byName, .forward size none, none, none, true, true⟩

def countingRead (size : Nat) : RootRead :=
  ⟨"actors", .always, [.connection (countingConnection size "user" "users"),
    .connection (countingConnection size "bot" "bots")], .many⟩

/-- A page of the actors, for which some users and the bot are fetched, and which tells that there
are three actors. -/
def countingPage (size : Nat) (users : List Row) : Page Record :=
  mergeMany ((users.map fun row => (countingRead size).place.shown
      ⟨.connection (countingConnection size "user" "users"), row⟩) ++
    [(countingRead size).place.shown
      ⟨.connection (countingConnection size "bot" "bots"), row 1 "ada"⟩])
    (some (countingConnection size "user" "users")) 3

theorem built_counting (size : Int64) : Selection.ofDocument (counting size) =
    .ok ⟨rootName, none, [], [("actors", countingField size)], []⟩ := by
  cbv

theorem bindConnection_counting_one (type table : String) (path : Path) :
    Selection.bindConnection directory byName true (actor type table) path (countingField 1) =
      .ok (countingConnection 1 type table) := by
  rw [Selection.bindConnection_eq]
  cbv

theorem bindConnection_counting_two (type table : String) (path : Path) :
    Selection.bindConnection directory byName true (actor type table) path (countingField 2) =
      .ok (countingConnection 2 type table) := by
  rw [Selection.bindConnection_eq]
  cbv

theorem bound_counting {size : Int64} {n : Nat} (each : ∀ type table path,
      Selection.bindConnection directory byName true (actor type table) path (countingField size) =
        .ok (countingConnection n type table)) :
    Selection.rootReads directory ⟨rootName, none, [], [("actors", countingField size)], []⟩ =
      .ok [countingRead n] := by
  have root : Selection.bindRoot directory "actors" (countingField size) = .ok (countingRead n) :=
    bindRoot_actors rfl (fun path => rfl) each
  have reads : Selection.rootReads directory
        ⟨rootName, none, [], [("actors", countingField size)], []⟩ =
      [("actors", countingField size)].mapM fun entry =>
        Selection.bindRoot directory entry.1 entry.2 := rfl
  rw [reads, List.mapM_cons, root]
  rfl

theorem executed_counting {size : Int64} {n : Nat} (each : ∀ type table path,
      Selection.bindConnection directory byName true (actor type table) path (countingField size) =
        .ok (countingConnection n type table)) {response : Response}
    (resolved : (resolveReads store.connector none .inOrder [countingRead n]).outcome =
      .ok response) :
    (executeDocument directory store.connector .default .instant (counting size)).outcome =
      .ok response := by
  rw [executeDocument_of_asks ⟨_, built_counting size, bound_counting each⟩]
  exact (PerParent.observe_outcome store.connector 8 none 0 _).trans (congrArg _ resolved)

theorem resolved_counting_one :
    (resolveReads store.connector none .inOrder [countingRead 1]).outcome =
      .ok [("actors", .many (countingPage 1 [row 1 "ada"]))] := by
  have tasks : [countingRead 1].mapM RootRead.tasks =
      .ok [(countingRead 1).targets.map (countingRead 1).task] := by cbv
  rw [resolveReads, tasks]
  dsimp only
  rw [resolveLevel_cons _ _ _ _ (by simp [countingRead])]
  cbv

theorem resolved_counting_two :
    (resolveReads store.connector none .inOrder [countingRead 2]).outcome =
      .ok [("actors", .many (countingPage 2 [row 1 "ada", row 2 "cy"]))] := by
  have tasks : [countingRead 2].mapM RootRead.tasks =
      .ok [(countingRead 2).targets.map (countingRead 2).task] := by cbv
  rw [resolveReads, tasks]
  dsimp only
  rw [resolveLevel_cons _ _ _ _ (by simp [countingRead])]
  cbv

/-- Both pages of the actors tell that there are three of them. -/
theorem executeDocument_totals_actors :
    Schema.build declarations = .ok directory ∧
      (∀ face ∈ directory.interfaces.values, face.covered.Nodup) ∧
      (executeDocument directory store.connector .default .instant (counting 1)).outcome =
        .ok [("actors", .many (countingPage 1 [row 1 "ada"]))] ∧
      (countingPage 1 [row 1 "ada"]).total = 3 ∧
      (countingPage 2 [row 1 "ada", row 2 "cy"]).total =
        (countingPage 1 [row 1 "ada"]).total := by
  have distinct : ∀ face ∈ directory.interfaces.values, face.covered.Nodup :=
    List.forall_mem_singleton.mpr (by decide)
  have executed := executed_counting bindConnection_counting_one resolved_counting_one
  have executed' := executed_counting bindConnection_counting_two resolved_counting_two
  have asks : (counting 1).Asks directory [countingRead 1] :=
    ⟨_, built_counting 1, bound_counting bindConnection_counting_one⟩
  have asks' : (counting 2).Asks directory [countingRead 2] :=
    ⟨_, built_counting 2, bound_counting bindConnection_counting_two⟩
  obtain ⟨reads, known, -, totals, alike⟩ :=
    executeDocument_totals built_directory distinct executed
  cases known.unique asks
  refine ⟨built_directory, distinct, executed, ?_, ?_⟩
  · obtain ⟨_, _, -, -, -, rfl, total⟩ := totals _ _ (countingConnection 1 "user" "users")
      (.root List.mem_cons_self List.mem_cons_self) List.mem_cons_self
    exact total.trans (by decide)
  · have same : (counting 2).unpaged = (counting 1).unpaged := by cbv
    exact alike _ _ _ _ _ same asks' executed' _ _ _ _ (countingConnection 1 "user" "users")
      (.root List.mem_cons_self List.mem_cons_self rfl List.mem_cons_self List.mem_cons_self)
      List.mem_cons_self

end Actors

end GraphRead
