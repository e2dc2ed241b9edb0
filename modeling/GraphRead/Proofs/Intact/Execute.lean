import GraphRead.Proofs.Binding.Formed
import GraphRead.Proofs.Binding.Single
import GraphRead.Proofs.Execution.Outcome
import GraphRead.Proofs.Intact.Level
import Mathlib
/-!
What a query over intact data can fail with (`executeDocument_intact`).

If every association that leads to one record does so, then a query fails with the number of
records only because of what it asks or because of the schema: it looks up a single record by a key
that several rows have, it follows an association to an interface that repeats a type, or it filters
the related row of a required association. The last can happen to every query that is well formed,
and still it is told as an internal error, like a broken reference (`Essays.execute_fails`).
-/

namespace GraphRead

open PerParent Success FailsOnly

section Roots

variable {schema : Schema} {store : Memory} {reads : List RootRead} {size : Option Nat}

/-- A root field answers without a mismatch, unless it looks up a single record. -/
theorem answer_excused {read : RootRead} (asked : read ∈ reads) (outputs : List Output) :
    FailsOnly (Excused schema store reads) (read.answer outputs) := by
  unfold RootRead.answer
  dsimp only
  cases kind : read.kind with
  | many => exact ok _
  | single id =>
    refine FailsOnly.map _ ?_
    match outputs.flatMap Output.records with
    | [] => exact ok none
    | [one] => exact ok (some one.record)
    | first :: second :: rest => exact error (.lookup asked kind)

theorem rootAnswers_excused {some_reads : List RootRead} (asked : some_reads ⊆ reads)
    (outputs : List Output) :
    FailsOnly (Excused schema store reads) (rootAnswers some_reads outputs) := by
  induction some_reads generalizing outputs with
  | nil => exact ok []
  | cons read rest ih =>
    obtain ⟨here, later⟩ := List.cons_subset.mp asked
    exact (answer_excused here _).bind fun _ _ => (ih later _).bind fun _ _ => ok _

/-- The tasks of root fields are due. -/
theorem due_of_tasks (formed : ∀ read ∈ reads, ∀ target ∈ read.targets,
      target.Formed schema.Together ∧ target.BoundTo schema) {tasks : List (List Task)}
    (planned : reads.mapM RootRead.tasks = .ok tasks) :
    ∀ task ∈ tasks.flatten, task.Due schema reads := by
  intro task present
  obtain ⟨read, asked, target, reached, rfl⟩ := exists_of_mem_tasks planned present
  obtain ⟨isFormed, bound⟩ := formed read asked target reached
  exact ⟨rootTask_planned read target, isFormed, .root asked reached, bound⟩

/-- Over intact data, root fields are resolved without a mismatch that is not excused. -/
theorem resolveReads_excused (named : schema.Named) (intact : schema.Intact store)
    (formed : ∀ read ∈ reads, ∀ target ∈ read.targets,
      target.Formed schema.Together ∧ target.BoundTo schema) {completion : Completion}
    (every : completion.Complete) :
    FailsOnly (Excused schema store reads)
      (resolveReads store.connector size completion reads).outcome := by
  unfold resolveReads
  split
  · rename_i e failed
    have each : FailsOnly (fun e => e.isMismatch = false) (reads.mapM RootRead.tasks) :=
      FailsOnly.mapM fun read _ => (checkOrders_other _ _).bind fun _ _ => ok _
    exact error (.other (each e failed))
  · rename_i tasks planned
    refine (resolveLevel_excused named intact every 0 (due_of_tasks formed planned)).bind
      fun outputs _ => ?_
    exact (rootAnswers_excused (List.Subset.refl reads) outputs).bind fun _ _ => ok _

/-- What a document asks for is bound to the schema. -/
theorem formed_of_asks {document : Document} (asks : document.Asks schema reads) :
    ∀ read ∈ reads, ∀ target ∈ read.targets,
      target.Formed schema.Together ∧ target.BoundTo schema := by
  obtain ⟨root, built, bound⟩ := asks
  intro read asked target reached
  have keyed := Selection.ofDocument_wellKeyed built
  obtain ⟨key, s, isRoot⟩ := Selection.exists_bindRoot bound asked
  obtain ⟨entry, name, path, isTargets⟩ := Selection.bindRoot_targets isRoot
  exact ⟨(Selection.rootReads_formed keyed bound read asked).2 target reached,
    boundTo_of_bindTargets isTargets target reached⟩

end Roots

/-- **Over intact data a query causes a mismatch only by what it asks.** Let a schema be built, and
let every association of it that leads to one record do so in a store. If a document fails with too
many records, then at a root field that looks up a single record, or at an association to an
interface that repeats a type. If it fails with a missing record, then at an association whose
related row is rejected by the filter of its arguments. -/
theorem executeDocument_intact {declared : Declarations} {schema : Schema} {store : Memory}
    (built : Schema.build declared = .ok schema) (intact : schema.Intact store) (config : Config)
    (timing : Timing) (document : Document) :
    (∀ position found,
      (executeDocument schema store.connector config timing document).outcome =
        .error (.resolve (.tooManyRecords position found)) →
      ∃ reads, document.Asks schema reads ∧
        ((∃ read ∈ reads, ∃ id, read.kind = .single id ∧ position = read.position) ∨
          Repeated schema reads position)) ∧
    ∀ position key,
      (executeDocument schema store.connector config timing document).outcome =
        .error (.resolve (.missingRecord position key)) →
      ∃ reads, document.Asks schema reads ∧ Filtered store reads position key := by
  have excused (e : ResolveError)
      (failed : (executeDocument schema store.connector config timing document).outcome =
        .error (.resolve e)) :
      ∃ reads, document.Asks schema reads ∧ Excused schema store reads e := by
    by_cases asks : ∃ reads, document.Asks schema reads
    · obtain ⟨reads, asks⟩ := asks
      refine ⟨reads, asks, ?_⟩
      rw [executeDocument_of_asks asks] at failed
      rcases error_of_observe failed with ⟨error, resolved, same⟩ | stops
      · have known := resolveReads_excused (Schema.named_of_build built) intact
          (formed_of_asks asks) Completion.inOrder_complete error resolved
        cases error <;> cases same <;> exact known
      · cases stops
    · obtain ⟨e', other, rejected⟩ := rejected_of_not_asks asks
      rw [rejected] at failed
      cases failed
      exact absurd rfl (other e)
  refine ⟨fun position found failed => ?_, fun position key failed => ?_⟩
  · obtain ⟨reads, asks, known⟩ := excused _ failed
    refine ⟨reads, asks, ?_⟩
    cases known with
    | other other => cases other
    | lookup asked single => exact .inl ⟨_, asked, _, single, rfl⟩
    | repeated repeated => exact .inr repeated
  · obtain ⟨reads, asks, known⟩ := excused _ failed
    refine ⟨reads, asks, ?_⟩
    cases known with
    | other other => cases other
    | filtered filtered => exact filtered

/-! ### An essay whose author is filtered -/

namespace Essays

def author : ObjectType :=
  ⟨"Author", "authors", "id", .always, [("name", .scalar ⟨"name", .string, .column "name"⟩)]⟩

/-- Every essay has an author, who can be asked for by the name. -/
def authorship : Association :=
  ⟨"author", .manyToOne, "Author", "author_id", "id", false, none, [⟨"name", "name", .eq⟩]⟩

def essay : ObjectType := ⟨"Essay", "essays", "id", .always, [("author", .link authorship)]⟩

def declared : Declarations := ⟨[essay, author], [], [⟨"essay", "Essay", .single, []⟩]⟩

def journal : Schema where
  types := [("Essay", essay), ("Author", author)]
  interfaces := []
  roots := [("essay", ⟨"essay", "Essay", .single, []⟩)]

theorem built_journal : Schema.build declared = .ok journal := by cbv

def row : Row := [("id", .int 1), ("author_id", .int 1)]

def store : Memory where
  tables := [("essays", [row]), ("authors", [[("id", .int 1), ("name", .string "ada")]])]
  failing := []

/-- The author of the essay is there, and nobody else. -/
theorem intact : journal.Intact store := by
  intro type known a declares one types reaches row' present _ _
  rcases List.mem_cons.mp known with rfl | known
  · have isAuthorship : a = authorship := List.mem_singleton.mp declares
    subst isAuthorship
    have isRow : row' = row := List.mem_singleton.mp present
    subst isRow
    have alone : journal.coveredTypes authorship.target = .ok [author] := rfl
    rw [reaches.eq_singleton alone]
    exact ⟨by decide, fun _ => by decide⟩
  · cases List.mem_singleton.mp known
    exact absurd declares List.not_mem_nil

/-- Asks for the name of the author of the essay, if it is bob. -/
def byBob : Document where
  root := ⟨⟨rootName, none, []⟩, [.field ⟨"essay", none, [("id", .int 1)]⟩
    [.field ⟨"author", none, [("name", .string "bob")]⟩ [.field ⟨"name", none, []⟩ []]]]⟩
  fragments := []

def authorSelection : Selection :=
  ⟨"author", none, [("name", .string "bob")], [("name", ⟨"name", none, [], [], []⟩)], []⟩

def field : Selection := ⟨"essay", none, [("id", .int 1)], [("author", authorSelection)], []⟩

def authorField : BoundField := ⟨author, [("name", .scalar ⟨"name", .string, .column "name"⟩)]⟩

def authorLink : BoundLink :=
  ⟨authorship, .scalar "name" (.eq (.string "bob")), [.field authorField]⟩

def read : RootRead :=
  ⟨"essay", .always, [.field ⟨essay, [("author", .link authorLink)]⟩], .single (.int 1)⟩

theorem built : Selection.ofDocument byBob = .ok ⟨rootName, none, [], [("essay", field)], []⟩ := by
  cbv

theorem bindLink_author (path : Path) :
    Selection.bindLink journal authorship path authorSelection = .ok authorLink := by
  have isAuthor : Selection.bindField journal author path authorSelection = .ok authorField := by
    rw [Selection.bindField_eq]
    cbv
  have targets : Selection.bindTargets journal .field "Author" path authorSelection =
      .ok [.field authorField] := by
    rw [Selection.bindTargets_single rfl, Selection.bindTarget, isAuthor]
    rfl
  have filtered : authorSelection.declaredFilter authorship.filters [] path =
      .ok (.scalar "name" (.eq (.string "bob"))) := by cbv
  rw [Selection.bindLink, if_neg (by decide)]
  show (do
    let filter ← authorSelection.declaredFilter authorship.filters [] path
    let targets ← Selection.bindTargets journal .field "Author" path authorSelection
    return (⟨authorship, filter, targets⟩ : BoundLink)) = _
  rw [filtered, targets]
  rfl

theorem bound : Selection.rootReads journal ⟨rootName, none, [], [("essay", field)], []⟩ =
    .ok [read] := by
  have isEssay (path : Path) : Selection.bindField journal essay path field =
      .ok ⟨essay, [("author", .link authorLink)]⟩ := by
    have resolved : Selection.resolveFragments (Selection.appliesTo journal essay.name path) path
        field = .ok field := by cbv
    rw [Selection.bindField_eq, resolved]
    show (do
      let items ← Selection.bindItems journal essay path [("author", authorSelection)]
      return (⟨essay, items⟩ : BoundField)) = _
    rw [Selection.bindItems_link journal rfl, bindLink_author, Selection.bindItems]
    rfl
  rw [Selection.rootReads_single, Selection.bindRoot_lookup rfl rfl rfl rfl rfl (isEssay _)]
  rfl

theorem asks : byBob.Asks journal [read] := ⟨_, built, bound⟩

theorem executed : (executeDocument journal store.connector .default .instant byBob).outcome =
    .error (.resolve (.missingRecord ["Query", "essay", "author"] "1")) := by
  rw [executeDocument_of_asks asks]
  refine (observe_outcome store.connector 8 none 0 _).trans ?_
  cbv

/-- The author of the essay is there, but is not called bob, so the query fails. -/
theorem execute_fails : Schema.build declared = .ok journal ∧ journal.Intact store ∧
    (executeDocument journal store.connector .default .instant byBob).outcome =
      .error (.resolve (.missingRecord ["Query", "essay", "author"] "1")) :=
  ⟨built_journal, intact, executed⟩

/-- It fails because the query filters the author. -/
theorem executeDocument_intact_byBob : Schema.build declared = .ok journal ∧
    journal.Intact store ∧ ∃ reads, byBob.Asks journal reads ∧
      Filtered store reads ["Query", "essay", "author"] "1" :=
  ⟨built_journal, intact, (executeDocument_intact built_journal intact .default .instant
    byBob).2 _ _ executed⟩

end Essays

end GraphRead
