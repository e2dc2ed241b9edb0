import GraphRead.Proofs.Columns.Level
import GraphRead.Proofs.Columns.Rows
import GraphRead.Proofs.Intact.Execute
/-!
Plans fetch every column that is needed (`executeDocument_supplied`).

A plan asks for columns in one place, and they are looked up in five: where the rows are sorted and
joined, where the next level is planned, where children are dealt out, and where the values of a
record are read. If every row has the columns that the schema mentions for its table, none of these
looks for a column in vain, and whoever reads a record of the response sees the whole row as far as
it was asked for.
-/

namespace GraphRead

open PerParent Success

section Documents

variable {declared : Declarations} {schema : Schema} {store : Memory} {config : Config}
  {timing : Timing} {document : Document}

/-- A query over rows that have all mentioned columns does not fail for want of a column. -/
theorem isMissingColumn_of_executeDocument (built : Schema.build declared = .ok schema)
    (fills : schema.Fills store) {e : ExecutionError}
    (failed : (executeDocument schema store.connector config timing document).outcome = .error e) :
    e.isMissingColumn = false := by
  unfold executeDocument at failed
  cases written : Selection.ofDocument document with
  | error fault =>
    rw [written] at failed
    cases failed
    rfl
  | ok root =>
    rw [written] at failed
    dsimp only at failed
    unfold executeSelection at failed
    cases bound : root.rootReads schema with
    | error fault =>
      rw [bound] at failed
      cases failed
      have user := Selection.isUserError_of_rootReads built bound
      cases fault <;> first | rfl | cases user
    | ok reads =>
      rw [bound] at failed
      rcases error_of_observe failed with ⟨error, resolved, rfl⟩ | stops
      · have known := resolveReads_present (Schema.shape_of_build built) fills
          Completion.inOrder_complete bound error resolved
        cases error <;> exact known
      · cases stops <;> rfl

/-- The levels of an execution are those of a resolution of what the document asks. -/
theorem exists_level_of_executeDocument {level : List Task}
    (listed : level ∈ (executeDocument schema store.connector config timing document).levels) :
    ∃ reads, document.Asks schema reads ∧
      level ∈ (resolveReads store.connector config.maxBindValues .inOrder reads).levels := by
  by_cases asks : ∃ reads, document.Asks schema reads
  · obtain ⟨reads, asks⟩ := asks
    rw [executeDocument_of_asks asks] at listed
    exact ⟨reads, asks, levels_of_observe listed⟩
  · obtain ⟨_, -, rejected⟩ := rejected_of_not_asks asks
    rw [rejected] at listed
    cases listed

/-- **Plans fetch every column that is needed.** Let a schema be built from types whose fields are
filed under their names, and let every row of a store have the columns that the schema mentions for
its table. Whatever document is executed, with whatever settings:

* It does not fail because a column does not exist or is missing from a record.
* Every record that the response holds is listed at a place of the response. Wherever a record is
  listed, it shows a row of the table of its type that belongs to the place: its primary key, and
  the value of every attribute that is asked for there, as it is computed from the whole row.
* No plan asks for a column twice, or for one that the schema does not mention for its table. -/
theorem executeDocument_supplied (built : Schema.build declared = .ok schema)
    (filed : ∀ type ∈ declared.types, ∃ fields, type.fields = ObjectType.fieldsOf fields)
    (fills : schema.Fills store) (config : Config) (timing : Timing) (document : Document) :
    (∀ e, (executeDocument schema store.connector config timing document).outcome = .error e →
      e.isMissingColumn = false) ∧
    (∀ reads response, document.Asks schema reads →
      (executeDocument schema store.connector config timing document).outcome = .ok response →
      (∀ record, response.Holds record →
        ∃ place answer, response.At reads place answer ∧ record ∈ answer.records) ∧
      ∀ place answer, response.At reads place answer → ∀ record ∈ answer.records,
        ∃ target ∈ place.targets,
          (∀ other ∈ place.targets, other.type = record.type → other = target) ∧
          ∃ row ∈ store.rowsOf target.type.table,
            place.admits target row ∧ record.ShowsRow target row) ∧
    ∀ level ∈ (executeDocument schema store.connector config timing document).levels,
      ∀ task ∈ level, task.plan.columns.Nodup ∧
        ∀ column ∈ task.plan.columns, schema.Mentions task.plan.table column := by
  have shape := Schema.shape_of_build built
  refine ⟨fun e => isMissingColumn_of_executeDocument built fills,
    fun reads response asks done => ?_, fun level listed task present => ?_⟩
  · obtain ⟨root, written, bound⟩ := id asks
    have found {place : Place} {answer : Answer Record} (here : response.At reads place answer) :=
      found_of_executeDocument written bound done here
    have shown := response_of_executeDocument written bound done
    refine ⟨fun record held => exists_at found shown held,
      fun place answer here record listed => ?_⟩
    obtain ⟨target, reached, -, row, known, admitted, bare⟩ := (found here).answered.made listed
    have isBound := boundTo_of_at (fun read asked target reached =>
      (formed_of_asks asks read asked target reached).2) here target reached
    have isDeclared : target.type ∈ declared.types := by
      obtain ⟨⟨name, type⟩, there, same⟩ := List.mem_map.mp isBound.1
      rw [shape.types] at there
      obtain ⟨own, declares, pair⟩ := List.mem_map.mp there
      cases pair
      exact same ▸ declares
    obtain ⟨fields, own⟩ := filed target.type isDeclared
    have shows := showsRow_of_bare fills isBound own known bare
    refine ⟨target, reached, fun other among same => ?_, row, known, admitted, shows⟩
    exact (found here).together.single other among target reached (same.trans shows.type)
  · obtain ⟨reads, ⟨root, -, bound⟩, there⟩ := exists_level_of_executeDocument listed
    have supplied := resolveReads_supplied shape store.connector config.maxBindValues
      Completion.inOrder_complete bound level there task present
    exact ⟨supplied.planned.columns_nodup, supplied.mentioned⟩

end Documents

/-! ### A person of a team -/

namespace Staff

/-- The given and the family name of a person. -/
def fullName : List Value → Value
  | [.string given, .string family] => .string (given ++ " " ++ family)
  | _ => .null

def label : Attribute := ⟨"label", .string, .computed ["given", "family"] fullName⟩

def title : Attribute := ⟨"title", .string, .column "title"⟩

def membership : Association :=
  ⟨"team", .manyToOne, "Team", "team_id", "id", false, none, []⟩

def team : ObjectType := ⟨"Team", "teams", "id", .always, ObjectType.fieldsOf [.scalar title]⟩

def person : ObjectType :=
  ⟨"Person", "people", "id", .always, ObjectType.fieldsOf [.scalar label, .link membership]⟩

def entry : RootField := ⟨"person", "Person", .single, []⟩

def declared : Declarations := ⟨[person, team], [], [entry]⟩

def roster : Schema where
  types := [("Person", person), ("Team", team)]
  interfaces := []
  roots := [("person", entry)]

def ada : Row :=
  [("id", .int 1), ("given", .string "Ada"), ("family", .string "King"), ("team_id", .int 7)]

def engines : Row := [("id", .int 7), ("title", .string "Engines")]

def store : Memory where
  tables := [("people", [ada]), ("teams", [engines])]
  failing := []

theorem built_roster : Schema.build declared = .ok roster := by cbv

/-- All columns that the schema mentions for the two tables are there. -/
theorem fills : roster.Fills store := by
  have people (column : String) (among : column ∈ ["id", "given", "family", "team_id"]) (row : Row)
      (present : row ∈ store.rowsOf "people") : (Keyed.get? row column).isSome := by
    obtain rfl : row = ada := List.mem_singleton.mp present
    revert column
    decide
  have teams (column : String) (among : column ∈ ["id", "title"]) (row : Row)
      (present : row ∈ store.rowsOf "teams") : (Keyed.get? row column).isSome := by
    obtain rfl : row = engines := List.mem_singleton.mp present
    revert column
    decide
  have types (type : ObjectType) (known : type ∈ roster.types.values) :
      type = person ∨ type = team := by
    simpa [Keyed.values, roster] using known
  have links (type : ObjectType) (a : Association) (known : type ∈ roster.types.values)
      (declares : a ∈ type.associations) : type = person ∧ a = membership := by
    rcases types type known with rfl | rfl
    · exact ⟨rfl, List.mem_singleton.mp declares⟩
    · cases declares
  intro table column mentioned
  cases mentioned with
  | key known =>
    rcases types _ known with rfl | rfl
    · exact people _ (by decide)
    · exact teams _ (by decide)
  | value known declares needs =>
    rcases types _ known with rfl | rfl
    · obtain rfl := List.mem_singleton.mp declares
      have among : label.columns ⊆ ["id", "given", "family", "team_id"] := by decide
      exact people _ (among needs)
    · obtain rfl := List.mem_singleton.mp declares
      obtain rfl := List.mem_singleton.mp needs
      exact teams _ (by decide)
  | ofParents known declares =>
    obtain ⟨rfl, rfl⟩ := links _ _ known declares
    exact people _ (by decide)
  | ofChildren known declares behind covered =>
    obtain ⟨rfl, rfl⟩ := links _ _ known declares
    cases behind
    obtain rfl := List.mem_singleton.mp covered
    exact teams _ (by decide)
  | sorted known declares _ _ ordered _ =>
    obtain ⟨rfl, rfl⟩ := links _ _ known declares
    cases ordered
  | sortedRoot known _ _ ordered _ =>
    obtain rfl := List.mem_singleton.mp known
    cases ordered

/-- Asks for the label of a person under another key, and for the title of the team. -/
def asking : Document where
  root := ⟨⟨rootName, none, []⟩, [.field ⟨"person", none, [("id", .int 1)]⟩
    [.field ⟨"label", some "who", []⟩ [], .field ⟨"team", none, []⟩
      [.field ⟨"title", none, []⟩ []]]]⟩
  fragments := []

def teamSelection : Selection := ⟨"team", none, [], [("title", ⟨"title", none, [], [], []⟩)], []⟩

def field : Selection :=
  ⟨"person", none, [("id", .int 1)], [("who", ⟨"label", some "who", [], [], []⟩),
    ("team", teamSelection)], []⟩

def teamTarget : Target := .field ⟨team, [("title", .scalar title)]⟩

def teamLink : BoundLink := ⟨membership, .always, [teamTarget]⟩

def target : Target := .field ⟨person, [("who", .scalar label), ("team", .link teamLink)]⟩

def read : RootRead := ⟨"person", .always, [target], .single (.int 1)⟩

/-- What the response shows of the team. -/
def teamRecord : Record := ⟨team, ["id", "title"], [.int 7, .string "Engines"], none, []⟩

/-- What the response shows of the person. -/
def personRecord : Record :=
  ⟨person, ["id", "given", "family", "team_id"],
    [.int 1, .string "Ada", .string "King", .int 7], none, [("team", .one (some teamRecord))]⟩

theorem built : Selection.ofDocument asking =
    .ok ⟨rootName, none, [], [("person", field)], []⟩ := by
  cbv

theorem bindLink_team (path : Path) :
    Selection.bindLink roster membership path teamSelection = .ok teamLink := by
  have isTeam : Selection.bindField roster team path teamSelection =
      .ok ⟨team, [("title", .scalar title)]⟩ := by
    rw [Selection.bindField_eq]
    cbv
  have targets : Selection.bindTargets roster .field "Team" path teamSelection =
      .ok [teamTarget] := by
    rw [Selection.bindTargets_single rfl, Selection.bindTarget, isTeam]
    rfl
  rw [Selection.bindLink, if_neg (by decide)]
  show (do
    let targets ← Selection.bindTargets roster .field "Team" path teamSelection
    return (⟨membership, .always, targets⟩ : BoundLink)) = _
  rw [targets]
  rfl

theorem bound : Selection.rootReads roster ⟨rootName, none, [], [("person", field)], []⟩ =
    .ok [read] := by
  have items (path : Path) : Selection.bindItems roster person path field.children =
      .ok [("who", .scalar label), ("team", .link teamLink)] := by
    have isTeam : Selection.bindItems roster person path [("team", teamSelection)] =
        .ok [("team", .link teamLink)] := by
      rw [Selection.bindItems_link roster rfl, bindLink_team, Selection.bindItems]
      rfl
    rw [field, Selection.bindItems_cons_eq, isTeam]
    rfl
  have isPerson (path : Path) : Selection.bindField roster person path field =
      .ok ⟨person, [("who", .scalar label), ("team", .link teamLink)]⟩ := by
    have resolved : Selection.resolveFragments (Selection.appliesTo roster person.name path) path
        field = .ok field := by cbv
    rw [Selection.bindField_eq, resolved]
    exact congrArg (Except.map (BoundField.mk person)) (items path)
  rw [Selection.rootReads_single, Selection.bindRoot_lookup rfl rfl rfl rfl rfl (isPerson _)]
  rfl

theorem asks : asking.Asks roster [read] := ⟨_, built, bound⟩

theorem executed : (executeDocument roster store.connector .default .instant asking).outcome =
    .ok [("person", .one (some personRecord))] := by
  rw [executeDocument_of_asks asks]
  refine (observe_outcome store.connector 8 none 0 _).trans ?_
  cbv

/-- The response shows the row of the person, by the key and by the label, and the row of the team
that is asked of the person. -/
theorem executeDocument_supplied_ada : Schema.build declared = .ok roster ∧
    (∀ type ∈ declared.types, ∃ fields, type.fields = ObjectType.fieldsOf fields) ∧
    roster.Fills store ∧ asking.Asks roster [read] ∧
    (executeDocument roster store.connector .default .instant asking).outcome =
      .ok [("person", .one (some personRecord))] ∧
    personRecord.ShowsRow target ada ∧ teamRecord.ShowsRow teamTarget engines ∧
    personRecord.fieldValue "label" = .ok (.string "Ada King") := by
  have filed : ∀ type ∈ declared.types, ∃ fields, type.fields = ObjectType.fieldsOf fields := by
    intro type known
    rcases List.mem_cons.mp known with rfl | known
    · exact ⟨_, rfl⟩
    · obtain rfl := List.mem_singleton.mp known
      exact ⟨_, rfl⟩
  obtain ⟨-, shown, -⟩ := executeDocument_supplied built_roster filed fills .default .instant asking
  obtain ⟨-, each⟩ := shown _ _ asks executed
  have here : Response.At [read] [("person", .one (some personRecord))] read.place
      (.one (some personRecord)) := .root List.mem_cons_self List.mem_cons_self
  have asked : target ∈ read.place.targets := List.mem_cons_self
  have below := here.link List.mem_cons_self asked rfl rfl List.mem_cons_self List.mem_cons_self
  obtain ⟨own, reached, -, row, known, -, shows⟩ := each _ _ here personRecord List.mem_cons_self
  obtain rfl : own = target := List.mem_singleton.mp reached
  obtain rfl : row = ada := List.mem_singleton.mp known
  obtain ⟨other, reached, -, row, known, -, deeper⟩ := each _ _ below teamRecord List.mem_cons_self
  obtain rfl : other = teamTarget := List.mem_singleton.mp reached
  obtain rfl : row = engines := List.mem_singleton.mp known
  exact ⟨built_roster, filed, fills, asks, executed, shows, deeper, rfl⟩

end Staff

end GraphRead
