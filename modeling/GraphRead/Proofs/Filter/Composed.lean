import GraphRead.Proofs.Filter.Lists
import GraphRead.Proofs.PerParent.Read
/-!
Filters that are put together.

A filter is put together on the way from the schema and the query to a read: the scope of the type,
the conditions of the arguments, the rows beyond the cursor, the keys of the parents. Conjunctions
are flattened meanwhile, members that are always true are dropped, and a single member stands for
itself. None of that changes what a filter says: however deep it is nested, and wherever its
conjunctions and disjunctions are kept small or left as they are, a row passes it exactly if the row
is as its conditions say (`Composition.matches_filter`). So nothing gets lost in a plan: a row
passes what the plan asks for exactly if it passes each of the parts (`Plan.narrows_compile`).
-/

namespace GraphRead

open Fallible

namespace Filter

/-- How a filter is put together from conditions on columns. Conjunctions and disjunctions that are
small are made by `allOf` and `anyOf`, the others stand as they are. -/
inductive Composition where
  | scalar (column : String) (condition : Condition)
  | constant (holds : Bool)
  | and (small : Bool) (members : List Composition)
  | or (small : Bool) (members : List Composition)
  | not (members : List Composition)

namespace Composition

mutual

/-- The filter that is put together. -/
def filter : Composition → Filter
  | scalar column condition => .scalar column condition
  | constant b => .constant b
  | and small members => if small then .allOf (filters members) else .and (filters members)
  | or small members => if small then .anyOf (filters members) else .or (filters members)
  | not members => .not (filters members)

/-- The filters of several compositions. -/
def filters : List Composition → List Filter
  | [] => []
  | c :: rest => filter c :: filters rest

end

mutual

/-- What a composition says of a row, however its filter is made. -/
def Holds : Composition → Row → Prop
  | scalar column condition, row => condition.holds (row.value column)
  | constant b, _ => b
  | and _ members, row => AllHold members row
  | or _ members, row => SomeHold members row
  | not members, row => ¬AllHold members row

/-- Each of several compositions holds of a row. -/
def AllHold : List Composition → Row → Prop
  | [], _ => True
  | c :: rest, row => Holds c row ∧ AllHold rest row

/-- One of several compositions holds of a row. -/
def SomeHold : List Composition → Row → Prop
  | [], _ => False
  | c :: rest, row => Holds c row ∨ SomeHold rest row

end

end Composition

/-! ### Conjunctions and disjunctions -/

theorem matches_allOf_iff {filters : List Filter} {row : Row} :
    (allOf filters).matches row ↔ ∀ f ∈ filters, f.matches row := by
  rw [matches_allOf, List.all_eq_true]

theorem matches_anyOf_iff {filters : List Filter} {row : Row} :
    (anyOf filters).matches row ↔ ∃ f ∈ filters, f.matches row := by
  rw [matches_anyOf, List.any_eq_true]

theorem matches_and_iff {members : List Filter} {row : Row} :
    (and members).matches row ↔ ∀ f ∈ members, f.matches row := by
  rw [«matches», allMatch_eq_all, List.all_eq_true]

theorem matches_or_iff {members : List Filter} {row : Row} :
    (or members).matches row ↔ ∃ f ∈ members, f.matches row := by
  rw [«matches», anyMatches_eq_any, List.any_eq_true]

theorem matches_not_iff {members : List Filter} {row : Row} :
    (not members).matches row ↔ ¬∀ f ∈ members, f.matches row := by
  rw [«matches», allMatch_eq_all, Bool.not_eq_true', ← Bool.not_eq_true, List.all_eq_true]

namespace Composition

mutual

/-- A row passes a filter exactly if what was put together holds of the row. -/
theorem matches_filter (row : Row) : ∀ c : Composition, c.filter.matches row ↔ c.Holds row
  | scalar _ _ => Iff.rfl
  | constant _ => Iff.rfl
  | and small members => by
    rw [filter, Holds, ← matches_filters row members]
    cases small with
    | false => exact matches_and_iff
    | true => exact matches_allOf_iff
  | or small members => by
    rw [filter, Holds, ← exists_matches_filters row members]
    cases small with
    | false => exact matches_or_iff
    | true => exact matches_anyOf_iff
  | not members => by
    rw [filter, Holds, ← matches_filters row members]
    exact matches_not_iff

theorem matches_filters (row : Row) : ∀ members : List Composition,
    (∀ f ∈ filters members, f.matches row) ↔ AllHold members row
  | [] => by simp [filters, AllHold]
  | c :: rest => by
    rw [filters, List.forall_mem_cons, matches_filter row c, matches_filters row rest, AllHold]

theorem exists_matches_filters (row : Row) : ∀ members : List Composition,
    (∃ f ∈ filters members, f.matches row) ↔ SomeHold members row
  | [] => by simp [filters, SomeHold]
  | c :: rest => by
    rw [filters, List.exists_mem_cons_iff, matches_filter row c, exists_matches_filters row rest,
      SomeHold]

end

end Composition

end Filter

/-! ### Arguments -/

namespace Selection

/-- A row passes the filter of the arguments exactly if it meets the condition that each of them
makes. -/
theorem matches_declaredFilter {s : Selection} {declared : List DeclaredFilter}
    {allowed : List String} {path : Path} {filter : Filter}
    (done : s.declaredFilter declared allowed path = .ok filter) (row : Row) :
    filter.matches row ↔ ∀ entry ∈ s.arguments, entry.1 ∉ allowed →
      ∃ own condition, DeclaredFilter.find? declared entry.1 = some own ∧
        own.condition? entry.2 = .ok condition ∧ condition.holds (row.value own.column) := by
  obtain ⟨made, each, done⟩ := bind_eq_ok.mp done
  cases pure_eq_ok.mp done
  rw [Filter.matches_allOf_iff]
  constructor
  · intro passes entry given restricts
    have restricting : entry ∈ s.arguments.filter fun entry => !allowed.contains entry.1 :=
      List.mem_filter.mpr ⟨given, by simpa using restricts⟩
    obtain ⟨f, listed, makes⟩ := Success.exists_mem_of_mapM_ok each entry restricting
    obtain ⟨own, found, applied⟩ := argumentFilter_eq_ok.mp makes
    obtain ⟨condition, asked, rfl⟩ := map_eq_ok.mp applied
    exact ⟨own, condition, found, asked, passes _ listed⟩
  · intro meets f listed
    obtain ⟨entry, restricting, makes⟩ := Success.exists_of_mem_mapM_ok each listed
    obtain ⟨given, restricts⟩ := List.mem_filter.mp restricting
    obtain ⟨own, found, applied⟩ := argumentFilter_eq_ok.mp makes
    obtain ⟨condition, asked, rfl⟩ := map_eq_ok.mp applied
    obtain ⟨own', condition', found', asked', holds⟩ := meets entry given (by simpa using restricts)
    cases found.symm.trans found'
    cases asked.symm.trans asked'
    exact holds

end Selection

/-! ### Plans -/

/-- A row lies beyond the cursor of the page that is asked of a target, if there is one. -/
def Target.Seeks (target : Target) (row : Row) : Prop :=
  ∀ c cursor, target.connection? = some c → c.pagination.cursor? = some cursor →
    (seekFilter c.effectiveOrder cursor c.pagination.side
      (if c.typedCursors then some c.type.name else none)).matches row

namespace Plan

/-- A row passes the filters of a plan exactly if it passes what they are put together from: the
scope of the type, the filter of the position, the seeking and the keys. -/
structure Narrows (plan : Plan) (target : Target) (own : Filter) (row : Row) : Prop where
  /-- What is counted, where there are no parents. -/
  counted : plan.filter.matches row ↔ target.type.scope.matches row ∧ own.matches row
  /-- What is fetched, without regard to the parents. -/
  fetched : plan.fetchFilter.matches row ↔
    target.type.scope.matches row ∧ own.matches row ∧ target.Seeks row
  /-- What is counted for parents. -/
  joined : ∀ join keys, (plan.joinFilter join keys).matches row ↔
    target.type.scope.matches row ∧ own.matches row ∧ row.HasOneOf join.column keys
  /-- What is fetched for parents, in batches of their keys. -/
  batched : ∀ column keys size, List.Forall₂ (fun batch chunk =>
    batch.filter.matches row ↔ plan.fetchFilter.matches row ∧ row.HasOneOf column chunk)
    (plan.arguments.batched column keys size) (chunks size keys)
  /-- The requests for rows that a joined plan makes. -/
  issued : ∀ join size, plan.join = some join → List.Forall₂ (fun fetch chunk =>
    (Read.rows fetch).filter.matches row ↔
      plan.fetchFilter.matches row ∧ row.HasOneOf join.column chunk)
    (plan.fetches size) (keyChunks join size)

/-- The seeking of a plan is that of the page of its target. -/
theorem seeks_iff (target : Target) (row : Row) : target.Seeks row ↔
    ∀ seek, (target.connection?.map Listing.ofConnection).bind Listing.seek = some seek →
      seek.matches row := by
  constructor
  · intro seeks seek given
    obtain ⟨listing, reads, sought⟩ := Option.bind_eq_some_iff.mp given
    obtain ⟨c, asked, rfl⟩ := Option.map_eq_some_iff.mp reads
    obtain ⟨cursor, placed, rfl⟩ := Option.map_eq_some_iff.mp sought
    exact seeks c cursor asked placed
  · intro passes c cursor asked placed
    refine passes _ ?_
    rw [asked, Option.map_some, Option.bind_some, Listing.ofConnection, placed, Option.map_some]

/-- Nothing gets lost in the filters of a plan. -/
theorem narrows_compile (target : Target) (own : Filter) (join : Option Join) (take : Option Nat)
    (row : Row) : (compile target own join take).Narrows target own row where
  counted := Filter.matches_pair_iff
  fetched := by
    rw [matches_fetchFilter_iff, ← and_assoc, seeks_iff]
    exact and_congr_left fun _ => Filter.matches_pair_iff
  joined := fun join keys => by
    rw [joinFilter, Filter.matches_narrowed_iff, ← and_assoc]
    exact and_congr_left fun _ => Filter.matches_pair_iff
  batched := fun column keys size => by
    rw [ReadArguments.batched, List.forall₂_map_left_iff, List.forall₂_same]
    exact fun chunk _ => Filter.matches_narrowed_iff
  issued := fun join size joined => by
    rw [fetches_eq joined, List.forall₂_map_left_iff, List.forall₂_same]
    intro chunk _
    rw [fetchOf_filter, chunkArguments, Filter.matches_narrowed_iff]

end Plan

/-- **Filters mean what they are put together from.** A row passes a conjunction exactly if it
passes every member, and a disjunction exactly if it passes one of them, also if there is none. So
it is with filters that are put together at any depth, whether their conjunctions and disjunctions
are kept small or stand as they are. A row passes what a plan asks for exactly if it passes the
scope of the type, the filter of the position and the seeking, or has one of the keys; and where the
filter is that of the arguments, exactly if it meets the condition of each of them. -/
theorem Filter.composition_keeps_meaning (filters : List Filter) (composition : Composition)
    (target : Target) (own : Filter) (join : Option Join) (take : Option Nat) (s : Selection)
    (declared : List DeclaredFilter) (allowed : List String) (path : Path) (row : Row) :
    ((allOf filters).matches row ↔ ∀ f ∈ filters, f.matches row) ∧
    ((anyOf filters).matches row ↔ ∃ f ∈ filters, f.matches row) ∧
    (composition.filter.matches row ↔ composition.Holds row) ∧
    (Plan.compile target own join take).Narrows target own row ∧
    (s.declaredFilter declared allowed path = .ok own →
      (own.matches row ↔ ∀ entry ∈ s.arguments, entry.1 ∉ allowed →
        ∃ filter condition, DeclaredFilter.find? declared entry.1 = some filter ∧
          filter.condition? entry.2 = .ok condition ∧
            condition.holds (row.value filter.column))) :=
  ⟨matches_allOf_iff, matches_anyOf_iff, composition.matches_filter row,
    Plan.narrows_compile target own join take row,
    fun done => Selection.matches_declaredFilter done row⟩

namespace Newsroom

/-- Articles of a tenant and shared ones. -/
def articles : ObjectType where
  name := "Article"
  table := "articles"
  primaryKey := "id"
  scope := .and [.always, .or [.equals "tenant" (.int 1), .equals "shared" (.boolean true)]]
  fields := []

/-- Two articles of the newest ones, beyond one of a day. -/
def newest : BoundConnection where
  type := articles
  order := [⟨"day", .descending⟩]
  pagination := .forward 2 (some ⟨[.int 20, .int 7]⟩)
  edges := none
  pageInfo := none
  count := true
  typedCursors := false

/-- Asks for articles of some rating. -/
def asked : Selection := ⟨"articles", none, [("first", .int 2), ("rating", .int 3)], [], []⟩

/-- What is asked is a least rating. -/
def rating : DeclaredFilter := ⟨"rating", "stars", .ge⟩

def rated : Filter := .scalar "stars" (.ge (.int 3))

/-- The keys of two authors. -/
def authors : Join := ⟨"author_id", [.int 4, .float ⟨15, 1⟩]⟩

def plan : Plan := .compile (.connection newest) rated (some authors) none

/-- Of another tenant, but shared, and of the day of the cursor. -/
def article : Row :=
  [("id", .int 8), ("tenant", .int 2), ("shared", .boolean true), ("day", .int 20),
    ("stars", .int 3), ("author_id", .float ⟨150, 2⟩)]

/-- The article is in scope, rated as asked and beyond the cursor. It belongs to one of the
authors, whose key is spelled differently, and not to the other one. -/
theorem composition_keeps_meaning_article :
    asked.declaredFilter [rating] Selection.paginationArguments [] = .ok rated ∧
      rated.matches article ∧ plan.fetchFilter.matches article ∧
      (plan.joinFilter authors [.float ⟨15, 1⟩]).matches article ∧
      ¬(plan.joinFilter authors [.int 4]).matches article := by
  have done : asked.declaredFilter [rating] Selection.paginationArguments [] = .ok rated := rfl
  obtain ⟨-, -, -, narrows, filtered⟩ := Filter.composition_keeps_meaning [] (.constant true)
    (.connection newest) rated (some authors) none asked [rating] Selection.paginationArguments []
    article
  have meets : rated.matches article := by
    refine (filtered done).mpr fun entry given restricts => ?_
    rcases List.mem_cons.mp given with rfl | given
    · exact absurd (by decide) restricts
    · cases List.mem_singleton.mp given
      exact ⟨rating, .ge (.int 3), rfl, rfl, by decide⟩
  have inScope : articles.scope.matches article := by decide
  have seeks : (Target.connection newest).Seeks article := by
    intro c cursor isNewest placed
    cases isNewest
    cases placed
    decide
  refine ⟨done, meets, narrows.fetched.mpr ⟨inScope, meets, seeks⟩,
    (narrows.joined authors _).mpr ⟨inScope, meets, _, List.mem_singleton_self _, rfl, by decide⟩,
    fun passes => ?_⟩
  obtain ⟨-, -, v, listed, -, here⟩ := (narrows.joined authors _).mp passes
  cases List.mem_singleton.mp listed
  exact absurd here (by decide)

end Newsroom

end GraphRead
