import GraphRead.Proofs.Binding.Formed
import GraphRead.Proofs.Binding.Single
import GraphRead.Proofs.Filter.Lists
import GraphRead.Proofs.PerParent.Roots
import GraphRead.Proofs.Resolve.Descent
import GraphRead.Proofs.Resolve.Issued
import Mathlib
/-!
How long the lists of values are that a data store is asked to compare with.

The filter of a read has the lists of the scope of its type, those that are given as arguments at
its position, and the keys of some parents where it is joined (`Plan.lists_of_mem_reads`). Only the
keys are split over several reads. So a read keeps to the limit for one list as far as keys are
concerned, whereas a list that is given as an argument is passed on whole, however long it is.

* `executeDocument_lists` — so it is for every read that the execution of a document issues.
-/

namespace GraphRead

open PerParent

/-! ### The reads of a plan -/

namespace Plan

variable {plan : Plan}

/-- Seeking a page adds no list to what a plan fetches. -/
theorem lists_fetchFilter (target : Target) (filter : Filter) (join : Option Join)
    (take : Option Nat) :
    (compile target filter join take).fetchFilter.lists =
      target.type.scope.lists ++ filter.lists := by
  have own : (compile target filter join take).filter.lists =
      target.type.scope.lists ++ filter.lists := Filter.lists_pair _ _
  rw [← own, fetchFilter]
  split
  · rename_i seek there
    have plain : seek.lists = [] := by
      obtain ⟨listing, listed, there⟩ := Option.bind_eq_some_iff.mp there
      obtain ⟨c, _, rfl⟩ := Option.map_eq_some_iff.mp listed
      obtain ⟨cursor, _, rfl⟩ := Option.map_eq_some_iff.mp there
      exact lists_seekFilter _ _ _ _
    rw [Filter.lists_pair, plain, List.append_nil]
  · rfl

/-- What a plan issues: the rows and, if they are counted, their count, once where it is not joined,
else for every chunk of the keys. -/
theorem cases_of_mem_reads {size : Option Nat} {read : Read} (issued : read ∈ plan.reads size) :
    (plan.join = none ∧ (read = .rows (.plain plan.table plan.columns plan.arguments) ∨
      read = .count plan.table plan.filter)) ∨
    ∃ join, plan.join = some join ∧ ∃ chunk ∈ keyChunks join size,
      (read = .rows (plan.fetchOf join (plan.chunkArguments join chunk) chunk) ∨
        read = .grouped plan.table (plan.joinFilter join chunk) join.column) := by
  cases joined : plan.join with
  | none =>
    refine .inl ⟨rfl, ?_⟩
    rcases List.mem_append.mp issued with rows | counts
    · rw [fetches, joined] at rows
      exact .inl (List.mem_singleton.mp rows)
    · split at counts
      · rw [joined] at counts
        exact .inr (List.mem_singleton.mp counts)
      · cases counts
  | some join =>
    refine .inr ⟨join, rfl, ?_⟩
    rcases List.mem_append.mp issued with rows | counts
    · rw [fetches_eq joined] at rows
      obtain ⟨_, there, rfl⟩ := List.mem_map.mp rows
      obtain ⟨chunk, cut, rfl⟩ := List.mem_map.mp there
      exact ⟨chunk, cut, .inl rfl⟩
    · split at counts
      · rw [joined] at counts
        obtain ⟨_, there, rfl⟩ := List.mem_map.mp counts
        obtain ⟨chunk, cut, rfl⟩ := List.mem_map.mp there
        exact ⟨chunk, cut, .inr rfl⟩
      · cases counts

theorem table_of_mem_reads {size : Option Nat} {read : Read} (issued : read ∈ plan.reads size) :
    read.table = plan.table := by
  rcases cases_of_mem_reads issued with ⟨-, rfl | rfl⟩ | ⟨join, -, chunk, -, rfl | rfl⟩
  · rfl
  · rfl
  · exact fetchOf_table plan join _ chunk
  · rfl

/-- The lists of a read: those of the scope, those of the arguments, and where the plan is joined a
chunk of the keys. -/
theorem lists_of_mem_reads {target : Target} {filter : Filter} {join : Option Join}
    {take size : Option Nat} {read : Read}
    (issued : read ∈ (compile target filter join take).reads size) :
    ∃ keys, read.filter.lists = target.type.scope.lists ++ filter.lists ++ keys ∧
      ((join = none ∧ keys = []) ∨
        ∃ joined, join = some joined ∧ ∃ chunk ∈ keyChunks joined size, keys = [chunk]) := by
  have fetched := lists_fetchFilter target filter join take
  have counted : (compile target filter join take).filter.lists =
      target.type.scope.lists ++ filter.lists := Filter.lists_pair _ _
  have joins : (compile target filter join take).join = join := rfl
  generalize compile target filter join take = plan at *
  subst joins
  rcases cases_of_mem_reads issued with
    ⟨alone, rfl | rfl⟩ | ⟨join, joined, chunk, cut, rfl | rfl⟩
  · exact ⟨[], by rw [List.append_nil, ← fetched]; rfl, .inl ⟨alone, rfl⟩⟩
  · exact ⟨[], by rw [List.append_nil, ← counted]; rfl, .inl ⟨alone, rfl⟩⟩
  · refine ⟨[chunk], ?_, .inr ⟨join, joined, chunk, cut, rfl⟩⟩
    rw [fetchOf_filter, chunkArguments, Filter.lists_pair, fetched]
    rfl
  · refine ⟨[chunk], ?_, .inr ⟨join, joined, chunk, cut, rfl⟩⟩
    show (plan.joinFilter join chunk).lists = _
    rw [joinFilter, Filter.lists_pair, counted]
    rfl

end Plan

/-! ### The positions of a query -/

namespace RootRead

/-- The filter of the arguments at a position of some root fields, and one of the targets there. -/
inductive Asks (reads : List RootRead) : Filter → Target → Prop
  | root {read : RootRead} {target : Target} (asked : read ∈ reads)
    (reached : target ∈ read.targets) : Asks reads read.filter target
  | link {filter : Filter} {parent target : Target} {f : BoundField} {key : String}
    {l : BoundLink} (above : Asks reads filter parent) (asked : parent.record? = some f)
    (linked : (key, l) ∈ f.links) (reached : target ∈ l.targets) : Asks reads l.filter target

end RootRead

/-- A task reads a target of a position under the filter that is given there. -/
structure Task.Given (reads : List RootRead) (task : Task) (given : Filter) : Prop where
  asks : RootRead.Asks reads given task.target
  compiled : ∃ filter join take, task.plan = .compile task.target filter join take ∧
    filter.lists = given.lists

theorem Task.given_root {reads : List RootRead} {read : RootRead} (asked : read ∈ reads)
    {target : Target} (reached : target ∈ read.targets) :
    (read.task target).Given reads read.filter where
  asks := .root asked reached
  compiled := by
    unfold RootRead.task
    cases read.kind with
    | many => exact ⟨_, _, _, rfl, rfl⟩
    | single id =>
      refine ⟨_, _, _, rfl, ?_⟩
      rw [Filter.lists_pair]
      exact List.append_nil _

theorem Task.given_child {reads : List RootRead} {task child : Task} {output : Output}
    (above : ∃ given, task.Given reads given) (present : child ∈ task.children output) :
    ∃ given, child.Given reads given := by
  obtain ⟨given, above⟩ := above
  obtain ⟨f, key, l, target, asked, linked, reached, _, rfl⟩ := exists_link present
  exact ⟨l.filter, .link above.asks asked linked reached, _, _, _, rfl, rfl⟩

/-- Every task of a resolution reads under the filter that is given at its position. -/
theorem resolveReads_given (connector : Connector) (size : Option Nat) {completion : Completion}
    (complete : completion.Complete) (reads : List RootRead) :
    ∀ level ∈ (resolveReads connector size completion reads).levels, ∀ task ∈ level,
      ∃ given, task.Given reads given := by
  rcases resolveReads_descends connector size complete reads with ⟨_, descends⟩ | ⟨_, none⟩
  · refine descends.forall_tasks (fun task present => ?_) Task.given_child
    obtain ⟨read, asked, own⟩ := List.mem_flatMap.mp present
    obtain ⟨target, reached, rfl⟩ := List.mem_map.mp own
    exact ⟨read.filter, Task.given_root asked reached⟩
  · rw [none]
    exact fun _ listed => nomatch listed

/-- What an execution of root fields issues keeps to the limit as far as keys are concerned. -/
theorem observe_lists (connector : Connector) (config : Config) (timing : Timing)
    (reads : List RootRead) {completion : Completion} (complete : completion.Complete) {limit : Nat}
    (limited : config.maxBindValues = some limit) :
    ∀ read ∈ (observe connector config timing
        (resolveReads connector config.maxBindValues completion reads)).reads,
      ∃ given target keys, RootRead.Asks reads given target ∧ read.table = target.type.table ∧
        read.filter.lists = target.type.scope.lists ++ given.lists ++ keys ∧
        keys.length ≤ 1 ∧ ∀ list ∈ keys, list.length ≤ max 1 limit := by
  intro read issued
  obtain ⟨task, there, own⟩ := List.mem_flatMap.mp
    ((observe_reads_sublist connector config timing _).subset issued)
  obtain ⟨level, listed, known⟩ := List.mem_flatten.mp there
  obtain ⟨given, asks, filter, join, take, compiled, same⟩ :=
    resolveReads_given connector config.maxBindValues complete reads level listed task known
  rw [Task.reads, compiled] at own
  obtain ⟨keys, lists, chunked⟩ := Plan.lists_of_mem_reads own
  rw [same] at lists
  refine ⟨given, task.target, keys, asks, ?_, lists, ?_⟩
  · exact Plan.table_of_mem_reads own
  · rcases chunked with ⟨_, rfl⟩ | ⟨joined, _, chunk, cut, rfl⟩
    · exact ⟨Nat.zero_le 1, fun _ present => nomatch present⟩
    · refine ⟨Nat.le_refl 1, List.forall_mem_singleton.mpr ?_⟩
      rw [limited] at cut
      exact length_le_of_mem_chunks cut

/-- **Keys are split over several reads, and arguments are not.** Whatever is executed with a limit
for the values of one list: every read that is issued has the lists of the scope of its type, then
the lists that are given as arguments at its position, each of them whole, and then a chunk of keys
if it is joined, which keeps to the limit. So apart from the scope the read keeps to the limit
exactly if the arguments do. -/
theorem executeDocument_lists (schema : Schema) (connector : Connector) (config : Config)
    (timing : Timing) (document : Document) {limit : Nat}
    (limited : config.maxBindValues = some limit) (positive : 1 ≤ limit) :
    ∀ read ∈ (executeDocument schema connector config timing document).reads,
      ∃ root reads given target keys,
        Selection.ofDocument document = .ok root ∧ root.rootReads schema = .ok reads ∧
        RootRead.Asks reads given target ∧ read.table = target.type.table ∧
        read.filter.lists = target.type.scope.lists ++ given.lists ++ keys ∧
        keys.length ≤ 1 ∧ (∀ list ∈ keys, list.length ≤ limit) ∧
        ((∀ list ∈ given.lists ++ keys, list.length ≤ limit) ↔
          ∀ list ∈ given.lists, list.length ≤ limit) := by
  intro read issued
  unfold executeDocument at issued
  cases built : Selection.ofDocument document with
  | error e =>
    rw [built] at issued
    cases issued
  | ok root =>
    rw [built] at issued
    dsimp only at issued
    unfold executeSelection at issued
    cases bound : root.rootReads schema with
    | error e =>
      rw [bound] at issued
      cases issued
    | ok reads =>
      rw [bound] at issued
      obtain ⟨given, target, keys, asks, table, lists, single, few⟩ :=
        observe_lists connector config timing reads Completion.inOrder_complete limited read issued
      have few : ∀ list ∈ keys, list.length ≤ limit := by
        rwa [Nat.max_eq_right positive] at few
      refine ⟨root, reads, given, target, keys, rfl, bound, asks, table, lists, single, few, ?_⟩
      rw [List.forall_mem_append]
      exact and_iff_left few

namespace People

def person : ObjectType :=
  ⟨"Person", "people", "id", .always, [("id", .scalar ⟨"id", .int, .column "id"⟩)]⟩

/-- People can be asked for by the list of their ids. -/
def register : Schema where
  types := [("Person", person)]
  interfaces := []
  roots := [("people", ⟨"people", "Person", .connection [⟨"id", .ascending⟩],
    [⟨"ids", "id", .oneOf⟩]⟩)]

def store : Memory := ⟨[("people", [[("id", .int 1)], [("id", .int 2)]])], []⟩

/-- One value per list. -/
def single : Config := ⟨8, some 1, none⟩

/-- Asks for two people by their ids, and whether there are more. -/
def both : Document where
  root := ⟨⟨rootName, none, []⟩,
    [.field ⟨"people", none, [("first", .int 2), ("ids", .list [.int 1, .int 2])]⟩
      [.field ⟨"pageInfo", none, []⟩ [.field ⟨"hasNextPage", none, []⟩ []]]]⟩
  fragments := []

def field : Selection where
  name := "people"
  aliasName := none
  arguments := [("first", .int 2), ("ids", .list [.int 1, .int 2])]
  children := [("pageInfo",
    ⟨"pageInfo", none, [], [("hasNextPage", ⟨"hasNextPage", none, [], [], []⟩)], []⟩)]
  fragments := []

def connection : BoundConnection :=
  ⟨person, [⟨"id", .ascending⟩], .forward 2 none, none, some ⟨true, false, false, false⟩, false,
    false⟩

def read : RootRead :=
  ⟨"people", .among "id" [.int 1, .int 2], [.connection connection], .many⟩

theorem bound : Selection.rootReads register ⟨rootName, none, [], [("people", field)], []⟩ =
    .ok [read] := by
  have target : Selection.bindConnection register [⟨"id", .ascending⟩] false person
      ["Query", "people"] field = .ok connection := by
    rw [Selection.bindConnection_eq]
    cbv
  have filtered : field.declaredFilter [⟨"ids", "id", .oneOf⟩] Selection.paginationArguments
      ["Query", "people"] = .ok (.among "id" [.int 1, .int 2]) := by cbv
  rw [Selection.rootReads_single, Selection.bindRoot_list rfl rfl rfl filtered target]
  rfl

theorem reads_both : (executeDocument register store.connector single .instant both).reads =
    [.rows (.plain "people" ["id"]
      ⟨.among "id" [.int 1, .int 2], [⟨"id", .ascending⟩], some 3⟩)] := by
  have built : Selection.ofDocument both = .ok ⟨rootName, none, [], [("people", field)], []⟩ := by
    cbv
  rw [executeDocument, built]
  dsimp only
  rw [executeSelection, bound]
  cbv

/-- The read of the two people has no chunk of keys, so its list is one that was given. -/
theorem executeDocument_lists_both : single.maxBindValues = some 1 ∧ 1 ≤ 1 ∧
    ∃ reads given target keys, RootRead.Asks reads given target ∧
      [[.int 1, .int 2]] = target.type.scope.lists ++ given.lists ++ keys ∧
      ∀ list ∈ keys, list.length ≤ 1 := by
  have issued : .rows (.plain "people" ["id"]
      ⟨.among "id" [.int 1, .int 2], [⟨"id", .ascending⟩], some 3⟩) ∈
      (executeDocument register store.connector single .instant both).reads := by
    rw [reads_both]
    exact List.mem_cons_self
  obtain ⟨_, reads, given, target, keys, _, _, asks, _, lists, _, few, _⟩ :=
    executeDocument_lists register store.connector single .instant both rfl (Nat.le_refl 1) _ issued
  exact ⟨rfl, Nat.le_refl 1, reads, given, target, keys, asks, lists, few⟩

/-- With one value per list, two ids are asked for in one list. -/
theorem list_exceeds_limit :
    ∃ read ∈ (executeDocument register store.connector single .instant both).reads,
      ∃ list ∈ read.filter.lists, ¬ list.length ≤ 1 := by
  rw [reads_both]
  exact ⟨_, List.mem_cons_self, [.int 1, .int 2], List.mem_cons_self, by decide⟩

end People

end GraphRead
