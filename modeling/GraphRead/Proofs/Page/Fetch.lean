import GraphRead.Proofs.Binding.Formed
import GraphRead.Proofs.Page.Basic
import GraphRead.Proofs.Page.Merging
import GraphRead.Proofs.PerParent.Shares
/-!
From the rows that are fetched for a page to the page.

Every type of a connection is fetched on its own, from the end at which the page begins, up to the
limit of the page (`Place.front_eq`). What is fetched for all types together is sorted and cut,
and this is the window of the whole list (`Place.mergeMany_shows`).
-/

namespace GraphRead

open PerParent Memory

/-! ### Cursors that fit -/

/-- A cursor without a type ties with all types. -/
theorem Cursor.typeAgainst_of_fits {c : BoundConnection} (fits : c.Fits) {cursor : Cursor}
    (given : c.pagination.cursor? = some cursor) (name : String) :
    cursor.typeAgainst c.effectiveOrder (if c.typedCursors then some name else none) =
      cursor.typeAgainst c.effectiveOrder (some name) := by
  have long := fits.length given
  by_cases typed : c.typedCursors
  · rw [if_pos typed]
  · rw [if_neg typed] at long
    have missing : cursor.values[c.effectiveOrder.length]? = none :=
      List.getElem?_eq_none (by omega)
    unfold typeAgainst
    rw [if_neg typed, missing]

/-! ### Orders in both directions -/

theorem Memory.compareRows_reversed (order : Order) (l r : Row) :
    compareRows order.reversed l r = compareRows order r l := by
  induction order with
  | nil => rfl
  | cons part parts ih =>
    have turned (ordering : Ordering) :
        part.direction.reverse.apply ordering = part.direction.apply ordering.swap := by
      cases part.direction
      · rfl
      · exact Ordering.swap_swap.symm
    show (part.direction.reverse.apply _).then (compareRows (Order.reversed parts) l r) = _
    rw [ih, turned, ← Std.OrientedOrd.eq_swap]
    rfl

/-- Rows that tie have the same values in the columns of the order. -/
theorem Memory.beq_of_compareRows_eq {order : Order} {l r : Row}
    (tie : compareRows order l r = .eq) {column : String} (sorted : column ∈ order.columns) :
    (l.value column == r.value column) = true := by
  induction order with
  | nil => cases sorted
  | cons part parts ih =>
    obtain ⟨first, later⟩ := Ordering.then_eq_eq.mp tie
    rcases List.mem_cons.mp sorted with here | there
    · rw [here, Value.beq_iff_compare]
      exact beq_iff_eq.mp ((part.direction.apply_eq_eq _).symm.trans (beq_iff_eq.mpr first))
    · exact ih later there

/-- The primary key is among the columns of an order that ends with it. -/
theorem Order.mem_columns_withTiebreaker (order : Order) (primaryKey : String) :
    primaryKey ∈ (order.withTiebreaker primaryKey).columns := by
  unfold withTiebreaker
  split
  · rename_i among
    obtain ⟨part, known, same⟩ := List.any_eq_true.mp among
    exact List.mem_map.mpr ⟨part, known, of_decide_eq_true same⟩
  · rw [columns, List.map_append]
    exact List.mem_append_right _ List.mem_cons_self

namespace Pagination

theorem cut_map {α β : Type} (page : Pagination) (f : α → β) (items : List α) :
    page.cut (items.map f) = (page.cut items).map f := by
  cases page with
  | forward first after => exact (List.map_take ..).symm
  | backward last before =>
    rw [cut, cut, List.length_map]
    exact (List.map_drop ..).symm

theorem cut_nil {α : Type} (page : Pagination) : page.cut ([] : List α) = [] := by
  cases page with
  | forward first after => exact List.take_nil
  | backward last before => exact List.drop_nil

theorem window_eq_cut (page : Pagination) (order : Order) (entries : List Entry) :
    page.window order entries = page.cut (page.beyond order entries) := by
  cases page with
  | forward first after => rfl
  | backward last before => exact (cut_backward last before _).symm

end Pagination

/-! ### What is fetched for a type -/

theorem Entry.compare_mk (order : Order) (target : Target) (l r : Row) :
    Entry.compare order ⟨target, l⟩ ⟨target, r⟩ = compareRows order l r := by
  rw [Entry.compare, Std.ReflOrd.compare_self, Ordering.then_eq]

/-- What is fetched for a list are the first of its entries, from the end at which the page
begins. -/
theorem BoundConnection.map_taken (c : BoundConnection) (rows : List Row) :
    (taken (some c.fetchLimit) (sortRows (Listing.ofConnection c).fetchOrder rows)).map
        (Entry.mk (.connection c)) =
      ((rows.map (Entry.mk (.connection c))).mergeSort
        (notAfter (c.pagination.toward (Entry.compare c.effectiveOrder)))).take c.fetchLimit := by
  rw [taken, List.map_take, sortRows]
  refine congrArg (List.take _) (List.map_mergeSort fun l _ r _ => ?_)
  have direction : (Listing.ofConnection c).fetchOrder =
      if c.pagination.isBackward then c.effectiveOrder.reversed else c.effectiveOrder := rfl
  rw [direction, notAfter, Pagination.toward]
  by_cases backward : c.pagination.isBackward
  · rw [if_pos backward, if_pos backward, Entry.compare_mk, compareRows_reversed]
  · rw [if_neg backward, if_neg backward, Entry.compare_mk]

/-- No two entries tie if the types have different names, and the rows of a type have different
primary keys, by which the list is sorted. -/
theorem strict_entries {targets : List Target} {order : Order} {rows : Target → List Row}
    (types : (targets.map fun target => target.type.name).Nodup)
    (keys : ∀ target ∈ targets, (rows target).Pairwise fun l r =>
      (l.value target.type.primaryKey == r.value target.type.primaryKey) = false)
    (sorted : ∀ target ∈ targets, target.type.primaryKey ∈ order.columns) :
    Strict (Entry.compare order)
      (targets.flatMap fun target => (rows target).map (Entry.mk target)) := by
  rw [Strict, List.pairwise_flatMap]
  constructor
  · intro target reached
    rw [List.pairwise_map]
    refine (keys target reached).imp fun {l r} differ tie => ?_
    have same := beq_of_compareRows_eq (Ordering.then_eq_eq.mp tie).1 (sorted target reached)
    rw [show (l.value target.type.primaryKey == r.value target.type.primaryKey) = false from differ]
      at same
    cases same
  · refine (List.pairwise_map.mp types).imp fun differ l here r there tie => ?_
    obtain ⟨_, _, rfl⟩ := List.mem_map.mp here
    obtain ⟨_, _, rfl⟩ := List.mem_map.mp there
    exact differ (Std.LawfulEqOrd.eq_of_compare (Ordering.then_eq_eq.mp tie).2)

namespace Place

/-- The targets of a place are lists that ask for one page, in one order. -/
structure Lists (place : Place) (c : BoundConnection) : Prop where
  each : ∀ target ∈ place.targets, ∃ own : BoundConnection, target = .connection own ∧
    own.shared = c.shared ∧ own.effectiveOrder = c.effectiveOrder ∧ own.Fits

/-- The rows that are fetched for a target. -/
def fetched (place : Place) (target : Target) (rows : List Row) : List Row :=
  let plan := place.plan target
  taken plan.take (sortRows plan.arguments.order
    (rows.filter fun row => plan.fetchFilter.matches row && place.joins row))

/-- The entries that are fetched for a target. -/
def front (place : Place) (store : Memory) (target : Target) : List Entry :=
  (place.fetched target (store.rowsOf target.type.table)).map (Entry.mk target)

/-- The entries of a target that lie beyond the cursor of a page. -/
def ahead (place : Place) (store : Memory) (c : BoundConnection) (target : Target) : List Entry :=
  c.pagination.beyond c.effectiveOrder (place.listed store target)

variable {place : Place} {store : Memory} {c : BoundConnection}

theorem fetchFilter_matches (regular : place.Regular store c) {own : BoundConnection}
    (shared : own.shared = c.shared) (order : own.effectiveOrder = c.effectiveOrder)
    (fits : own.Fits) {row : Row}
    (valued : ∀ column ∈ c.effectiveOrder.columns, (row.value column).isNull = false) :
    (place.plan (.connection own)).fetchFilter.matches row =
      (own.type.scope.matches row && place.filter.matches row &&
        c.pagination.isBeyond c.effectiveOrder ⟨.connection own, row⟩) := by
  have page : own.pagination = c.pagination := congrArg Shared.pagination shared
  have passes : (place.plan (.connection own)).filter.matches row =
      (own.type.scope.matches row && place.filter.matches row) := Filter.matches_pair _ _ _
  have seek : (place.plan (.connection own)).listing.bind Listing.seek =
      c.pagination.cursor?.map fun cursor => seekFilter c.effectiveOrder cursor c.pagination.side
        (if own.typedCursors then some own.type.name else none) := by
    rw [← page, ← order]
    rfl
  unfold Plan.fetchFilter Pagination.isBeyond
  rw [seek]
  cases given : c.pagination.cursor? with
  | none => rw [Option.map_none, passes, Bool.and_true]
  | some cursor =>
    have ties := Cursor.typeAgainst_of_fits fits (page ▸ given) own.type.name
    rw [order] at ties
    rw [Option.map_some, Filter.matches_pair, passes,
      matches_seekFilter _ _ valued (regular.cursor cursor given), ties]
    rfl

/-- What is fetched for a target are its first entries beyond the cursor, from the end at which
the page begins. -/
theorem front_eq (lists : place.Lists c) (regular : place.Regular store c) {target : Target}
    (reached : target ∈ place.targets) :
    place.front store target = ((place.ahead store c target).mergeSort
      (notAfter (c.pagination.toward (Entry.compare c.effectiveOrder)))).take c.fetchLimit := by
  obtain ⟨own, rfl, shared, order, fits⟩ := lists.each target reached
  have page : own.pagination = c.pagination := congrArg Shared.pagination shared
  have info : own.pageInfo = c.pageInfo := congrArg Shared.pageInfo shared
  have limit : own.fetchLimit = c.fetchLimit := by
    rw [BoundConnection.fetchLimit, BoundConnection.fetchLimit, page, info]
  have kept : ((store.rowsOf (Target.connection own).type.table).filter fun row =>
      (place.plan (.connection own)).fetchFilter.matches row && place.joins row).map
        (Entry.mk (.connection own)) =
      place.ahead store c (.connection own) := by
    rw [ahead, Pagination.beyond, listed, List.filter_map, List.filter_filter]
    refine congrArg (List.map _) (List.filter_congr fun row known => ?_)
    rw [fetchFilter_matches regular shared order fits (regular.valued _ reached row known),
      Function.comp_apply, admits, Bool.and_right_comm, Bool.and_comm]
    rfl
  rw [← kept, ← limit, ← page, ← order]
  exact own.map_taken _

theorem flatMap_front (lists : place.Lists c) (regular : place.Regular store c) :
    place.targets.flatMap (place.front store) = place.targets.flatMap fun target =>
      ((place.ahead store c target).mergeSort
        (notAfter (c.pagination.toward (Entry.compare c.effectiveOrder)))).take c.fetchLimit :=
  List.flatMap_congr fun _ reached => front_eq lists regular reached

/-- No two entries of a place tie. -/
theorem strict_listed (lists : place.Lists c) (regular : place.Regular store c) :
    Strict (Entry.compare c.effectiveOrder) (place.targets.flatMap (place.listed store)) := by
  refine strict_entries regular.types
    (fun target reached => (regular.keys target reached).sublist List.filter_sublist)
    fun target reached => ?_
  obtain ⟨own, rfl, -, order, -⟩ := lists.each target reached
  rw [← order]
  exact Order.mem_columns_withTiebreaker own.order own.type.primaryKey

theorem strict_ahead (lists : place.Lists c) (regular : place.Regular store c) :
    Strict (Entry.compare c.effectiveOrder) (place.targets.flatMap (place.ahead store c)) := by
  refine List.Pairwise.sublist ?_ (strict_listed lists regular)
  exact List.Sublist.flatMap_right _ fun target _ => List.filter_sublist

/-- The entries beyond the cursor are those of the targets, sorted. -/
theorem beyond_entries (place : Place) (store : Memory) (c : BoundConnection) :
    c.pagination.beyond c.effectiveOrder (place.entries store c.effectiveOrder) =
      (place.targets.flatMap (place.ahead store c)).mergeSort
        (notAfter (Entry.compare c.effectiveOrder)) := by
  rw [Pagination.beyond, entries, filter_mergeSort, List.filter_flatMap]
  rfl

/-! ### What is fetched for all types -/

/-- What is fetched for all types, sorted. -/
def merged (c : BoundConnection) (found : List Fetched) : List Fetched :=
  found.mergeSort fun l r => compareFetched c.effectiveOrder l r != .gt

/-- Records compare as the entries that they show. -/
theorem compareFetched_shown (lists : place.Lists c) {l r : Entry} (left : l.target ∈ place.targets)
    (right : r.target ∈ place.targets) :
    compareFetched c.effectiveOrder (place.shown l) (place.shown r) =
      l.compare c.effectiveOrder r := by
  have keyed {e : Entry} (reached : e.target ∈ place.targets) :
      (place.shown e).sortKey = c.effectiveOrder.columns.map e.row.value := by
    obtain ⟨target, row⟩ := e
    obtain ⟨own, rfl, -, order, -⟩ := lists.each target reached
    rw [← order]
    rfl
  rw [compareFetched, keyed left, keyed right, compareKeys_values]
  rfl

section Merged

variable {found : List Fetched}
  (made : found.map bare = (place.targets.flatMap (place.front store)).map place.shown)

include made

/-- Sorting what is fetched sorts the entries. -/
theorem map_merged (lists : place.Lists c) :
    (merged c found).map bare = ((place.targets.flatMap (place.front store)).mergeSort
      (notAfter (Entry.compare c.effectiveOrder))).map place.shown := by
  have keys : (merged c found).map bare =
      (found.map bare).mergeSort fun l r => compareFetched c.effectiveOrder l r != .gt :=
    List.map_mergeSort fun _ _ _ _ => rfl
  have reached {e : Entry} (present : e ∈ place.targets.flatMap (place.front store)) :
      e.target ∈ place.targets :=
    (Entry.mem_flatMap.mp present).1
  rw [keys, made]
  refine (List.map_mergeSort fun l here r there => ?_).symm
  rw [compareFetched_shown lists (reached here) (reached there)]
  rfl

theorem length_merged : (merged c found).length =
    (place.targets.flatMap (place.front store)).length := by
  have same := congrArg List.length made
  rw [List.length_map, List.length_map] at same
  rw [merged, List.length_mergeSort, same]

variable (lists : place.Lists c) (regular : place.Regular store c)

include lists regular

/-- Cutting what is fetched for all types gives the window of the whole list. -/
theorem cut_merged :
    ((c.pagination.cut (merged c found)).map Fetched.record).map Record.bare =
      (c.pagination.window c.effectiveOrder (place.entries store c.effectiveOrder)).map
        place.record := by
  have cut := Pagination.cut_mergeSort_parts c.pagination (place.ahead store c)
    (show c.pagination.limit ≤ c.fetchLimit from Nat.le_add_right _ _) place.targets
    (fun _ => strict_ahead lists regular)
  have bares : ((c.pagination.cut (merged c found)).map Fetched.record).map Record.bare =
      ((c.pagination.cut (merged c found)).map bare).map Fetched.record := by
    rw [List.map_map, List.map_map]
    rfl
  rw [Pagination.window_eq_cut, beyond_entries, ← cut, ← flatMap_front lists regular, bares,
    ← Pagination.cut_map, map_merged made lists, Pagination.cut_map, List.map_map]
  rfl

/-- Where one more record is fetched than a page may show, what is fetched tells whether there is
more than the page. -/
theorem limit_lt_length_merged (limit : c.fetchLimit = c.pagination.limit + 1) :
    c.pagination.limit < (merged c found).length ↔ c.pagination.limit <
      (c.pagination.beyond c.effectiveOrder (place.entries store c.effectiveOrder)).length := by
  have counted := length_flatMap_take (fun target => (place.ahead store c target).mergeSort
    (notAfter (c.pagination.toward (Entry.compare c.effectiveOrder)))) c.fetchLimit place.targets
  have whole : (place.targets.flatMap fun target => (place.ahead store c target).mergeSort
      (notAfter (c.pagination.toward (Entry.compare c.effectiveOrder)))).length =
      (c.pagination.beyond c.effectiveOrder (place.entries store c.effectiveOrder)).length := by
    rw [beyond_entries, List.length_mergeSort, List.length_flatMap, List.length_flatMap]
    simp only [List.length_mergeSort]
  rw [← flatMap_front lists regular, ← length_merged (c := c) made, whole] at counted
  omega

/-- A page that is merged from what is fetched for all types is the window of the whole list. -/
theorem mergeMany_shows {head : BoundConnection} (shared : head.shared = c.shared)
    (order : head.effectiveOrder = c.effectiveOrder) (total : Nat) :
    place.Shows store c (mergeMany found (some head) total) := by
  have page : head.pagination = c.pagination := congrArg Shared.pagination shared
  have info : head.pageInfo = c.pageInfo := congrArg Shared.pageInfo shared
  unfold mergeMany
  dsimp only
  rw [page, info, order]
  constructor
  · exact cut_merged made lists regular
  · cases asked : c.pageInfo with
    | none => rfl
    | some request =>
      have limit : c.fetchLimit = c.pagination.limit + 1 := by
        rw [BoundConnection.fetchLimit, asked]
        rfl
      have more := limit_lt_length_merged made lists regular limit
      simp only [merged] at more
      simp only [Option.map_some, pageInfo, Pagination.located, more]
      cases c.pagination with
      | forward first after => rfl
      | backward last before => rfl

end Merged

end Place

end GraphRead
