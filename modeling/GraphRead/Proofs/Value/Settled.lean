import GraphRead.Proofs.Value.Cursor
import Mathlib.Order.MinMax
/-!
What becomes of a cursor that is read and written again.

Whatever the text of a cursor is read as, no object in it has a key twice or is taken for a tag, its
date-times are in the profile, and its tagged form is too deep for JSON only where a decimal stands
in as many lists and objects as JSON may have (`Settled`): a decimal is written as an object, but a
plain number is read as one. So reading the text that is written for it cuts its date-times to the
millisecond, and after that nothing changes any more (`Cursor.decode_settles`).
-/

namespace GraphRead

namespace Value

mutual

/-- A value with its date-times cut to whole milliseconds. -/
def cut : Value → Value
  | dateTime t => dateTime t.cut
  | list items => list (cutItems items)
  | object members => object (cutMembers members)
  | v => v

/-- The items of a list with their date-times cut to whole milliseconds. -/
def cutItems : List Value → List Value
  | [] => []
  | item :: rest => cut item :: cutItems rest

/-- The members of an object with their date-times cut to whole milliseconds. -/
def cutMembers : List (String × Value) → List (String × Value)
  | [] => []
  | (key, item) :: rest => (key, cut item) :: cutMembers rest

end

mutual

/-- In how many lists and objects the decimals of a value stand. -/
def decimalDepths : Value → List Nat
  | float _ => [0]
  | list items => (decimalDepthsOfItems items).map (· + 1)
  | object members => (decimalDepthsOfMembers members).map (· + 1)
  | _ => []

/-- In how many lists and objects inside a list its decimals stand. -/
def decimalDepthsOfItems : List Value → List Nat
  | [] => []
  | item :: rest => decimalDepths item ++ decimalDepthsOfItems rest

/-- In how many lists and objects inside an object its decimals stand. -/
def decimalDepthsOfMembers : List (String × Value) → List Nat
  | [] => []
  | (_, item) :: rest => decimalDepths item ++ decimalDepthsOfMembers rest

end

/-! ### Parts of lists and objects -/

theorem mem_partsOfItems {items : List Value} {part : Value} :
    part ∈ partsOfItems items ↔ ∃ item ∈ items, part ∈ item.parts := by
  induction items with
  | nil => simp [partsOfItems]
  | cons item rest ih => simp [partsOfItems, ih]

theorem mem_partsOfMembers {members : List (String × Value)} {part : Value} :
    part ∈ partsOfMembers members ↔ ∃ entry ∈ members, part ∈ entry.2.parts := by
  induction members with
  | nil => simp [partsOfMembers]
  | cons entry rest ih =>
    obtain ⟨key, item⟩ := entry
    rw [partsOfMembers, List.mem_append, ih, List.exists_mem_cons_iff]

theorem mem_decimalDepthsOfItems {items : List Value} {n : Nat} :
    n ∈ decimalDepthsOfItems items ↔ ∃ item ∈ items, n ∈ item.decimalDepths := by
  induction items with
  | nil => simp [decimalDepthsOfItems]
  | cons item rest ih => simp [decimalDepthsOfItems, ih]

theorem mem_decimalDepthsOfMembers {members : List (String × Value)} {n : Nat} :
    n ∈ decimalDepthsOfMembers members ↔ ∃ entry ∈ members, n ∈ entry.2.decimalDepths := by
  induction members with
  | nil => simp [decimalDepthsOfMembers]
  | cons entry rest ih =>
    obtain ⟨key, item⟩ := entry
    rw [decimalDepthsOfMembers, List.mem_append, ih, List.exists_mem_cons_iff]

theorem lt_itemsDepth {items : List Value} {n : Nat} :
    n < Json.itemsDepth (taggedItems items) ↔ ∃ item ∈ items, n < item.tagged.depth := by
  induction items with
  | nil => simp [taggedItems, Json.itemsDepth]
  | cons item rest ih => simp [taggedItems, Json.itemsDepth, ih]

theorem lt_membersDepth {members : List (String × Value)} {n : Nat} :
    n < Json.membersDepth (taggedMembers members) ↔
      ∃ entry ∈ members, n < entry.2.tagged.depth := by
  induction members with
  | nil => simp [taggedMembers, Json.membersDepth]
  | cons entry rest ih =>
    obtain ⟨key, item⟩ := entry
    rw [taggedMembers, Json.membersDepth, lt_max_iff, ih, List.exists_mem_cons_iff]

/-! ### What is read -/

/-- A value as it is read from JSON of so many levels: no object in it has a key twice, none is
taken for a tag, its date-times are in the profile, and its tagged form needs more levels exactly if
a decimal stands in all of them. -/
structure Settled (levels : Nat) (v : Value) : Prop where
  once : v.KeyedOnce
  clear : ∀ part ∈ v.parts, part.Untagged ∧ part.InProfile
  deeper : levels < v.tagged.depth ↔ levels ∈ v.decimalDepths

theorem Settled.list {levels : Nat} {items : List Value}
    (each : ∀ item ∈ items, Settled levels item) : Settled (levels + 1) (list items) where
  once := by
    refine List.forall_mem_cons.mpr ⟨trivial, fun part present => ?_⟩
    obtain ⟨item, inside, present⟩ := mem_partsOfItems.mp present
    exact (each item inside).once part present
  clear := by
    refine List.forall_mem_cons.mpr ⟨⟨trivial, trivial⟩, fun part present => ?_⟩
    obtain ⟨item, inside, present⟩ := mem_partsOfItems.mp present
    exact (each item inside).clear part present
  deeper := by
    have inside : levels < Json.itemsDepth (taggedItems items) ↔
        levels ∈ decimalDepthsOfItems items := by
      rw [lt_itemsDepth, mem_decimalDepthsOfItems]
      exact exists_congr fun item => and_congr_right fun inside => (each item inside).deeper
    rw [tagged, Json.depth, Nat.add_lt_add_iff_right, inside, decimalDepths]
    simp

theorem Settled.object {levels : Nat} {members : List (String × Value)}
    (distinct : (object members).KeysDiffer) (untagged : (object members).Untagged)
    (each : ∀ entry ∈ members, Settled levels entry.2) :
    Settled (levels + 1) (object members) where
  once := by
    refine List.forall_mem_cons.mpr ⟨distinct, fun part present => ?_⟩
    obtain ⟨entry, inside, present⟩ := mem_partsOfMembers.mp present
    exact (each entry inside).once part present
  clear := by
    refine List.forall_mem_cons.mpr ⟨⟨untagged, trivial⟩, fun part present => ?_⟩
    obtain ⟨entry, inside, present⟩ := mem_partsOfMembers.mp present
    exact (each entry inside).clear part present
  deeper := by
    have inside : levels < Json.membersDepth (taggedMembers members) ↔
        levels ∈ decimalDepthsOfMembers members := by
      rw [lt_membersDepth, mem_decimalDepthsOfMembers]
      exact exists_congr fun entry => and_congr_right fun inside => (each entry inside).deeper
    rw [tagged, Json.depth, Nat.add_lt_add_iff_right, inside, decimalDepths]
    simp

/-- A value that has no parts but itself. -/
theorem Settled.alone {levels : Nat} {v : Value} (single : v.parts = [v]) (distinct : v.KeysDiffer)
    (clear : v.Untagged ∧ v.InProfile)
    (deeper : levels < v.tagged.depth ↔ levels ∈ v.decimalDepths) : Settled levels v where
  once := by
    rw [KeyedOnce, single]
    exact List.forall_mem_singleton.mpr distinct
  clear := by
    rw [single]
    exact List.forall_mem_singleton.mpr clear
  deeper := deeper

theorem keys_writtenMembers (members : List (String × Value)) :
    (writtenMembers members).map Prod.fst = members.map Prod.fst := by
  induction members with
  | nil => rfl
  | cons member rest ih =>
    rw [writtenMembers, List.map_cons, List.map_cons, ih]

theorem get?_writtenMembers (members : List (String × Value)) (key : String) :
    Keyed.get? (writtenMembers members) key = (Keyed.get? members key).map written := by
  induction members with
  | nil => rfl
  | cons member rest ih =>
    rw [writtenMembers, Keyed.get?, Keyed.get?, ih]
    split <;> rfl

theorem string?_written (v : Value) : v.written.string? = v.string? := by
  cases v <;> rfl

theorem KeysDiffer.written {v : Value} (distinct : v.KeysDiffer) : v.written.KeysDiffer := by
  cases v with
  | object members =>
    show ((writtenMembers members).map Prod.fst).Nodup
    rw [keys_writtenMembers]
    exact distinct
  | _ => trivial

theorem Untagged.written {v : Value} (clear : v.Untagged) : v.written.Untagged := by
  cases v with
  | object members =>
    show (Keyed.get? (writtenMembers members) typeKey).bind string? = none
    rw [get?_writtenMembers, Option.bind_map]
    exact (congrArg _ (funext string?_written)).trans clear
  | _ => trivial

theorem InProfile.written {v : Value} (profile : v.InProfile) : v.written.InProfile := by
  cases v with
  | dateTime t => exact DateTime.InProfile.cut profile
  | _ => trivial

mutual

theorem parts_written : ∀ v : Value, v.written.parts = v.parts.map written
  | .list items => congrArg (written (.list items) :: ·) (partsOfItems_written items)
  | .object members => congrArg (written (.object members) :: ·) (partsOfMembers_written members)
  | .null | .boolean _ | .int _ | .float _ | .string _ | .enum _ | .dateTime _ | .uuid _
  | .bytes _ => rfl

theorem partsOfItems_written : ∀ items : List Value,
    partsOfItems (writtenItems items) = (partsOfItems items).map written
  | [] => rfl
  | item :: rest => by
    rw [writtenItems, partsOfItems, partsOfItems, parts_written item, partsOfItems_written rest,
      List.map_append]

theorem partsOfMembers_written : ∀ members : List (String × Value),
    partsOfMembers (writtenMembers members) = (partsOfMembers members).map written
  | [] => rfl
  | (_, item) :: rest => by
    rw [writtenMembers, partsOfMembers, partsOfMembers, parts_written item,
      partsOfMembers_written rest, List.map_append]

end

mutual

/-- A value that was written once is written as it is from then on. -/
theorem written_written : ∀ v : Value, v.written.written = v.written
  | .float d => congrArg float d.written_written
  | .dateTime t => congrArg dateTime t.cut_cut
  | .list items => congrArg list (writtenItems_written items)
  | .object members => congrArg object (writtenMembers_written members)
  | .null | .boolean _ | .int _ | .string _ | .enum _ | .uuid _ | .bytes _ => rfl

theorem writtenItems_written : ∀ items : List Value,
    writtenItems (writtenItems items) = writtenItems items
  | [] => rfl
  | item :: rest =>
    congrArg₂ List.cons (written_written item) (writtenItems_written rest)

theorem writtenMembers_written : ∀ members : List (String × Value),
    writtenMembers (writtenMembers members) = writtenMembers members
  | [] => rfl
  | (key, item) :: rest =>
    congrArg₂ List.cons (congrArg (Prod.mk key) (written_written item))
      (writtenMembers_written rest)

end

theorem depth_tag (name text : String) : (tag name text).depth = 1 := rfl

mutual

/-- Writing a value changes no depth. -/
theorem depth_written : ∀ v : Value, v.written.tagged.depth = v.tagged.depth
  | .list items => congrArg (· + 1) (itemsDepth_written items)
  | .object members => congrArg (· + 1) (membersDepth_written members)
  | .float _ => (depth_tag _ _).trans (depth_tag _ _).symm
  | .dateTime _ => (depth_tag _ _).trans (depth_tag _ _).symm
  | .null | .boolean _ | .int _ | .string _ | .enum _ | .uuid _ | .bytes _ => rfl

theorem itemsDepth_written : ∀ items : List Value,
    Json.itemsDepth (taggedItems (writtenItems items)) = Json.itemsDepth (taggedItems items)
  | [] => rfl
  | item :: rest => congrArg₂ max (depth_written item) (itemsDepth_written rest)

theorem membersDepth_written : ∀ members : List (String × Value),
    Json.membersDepth (taggedMembers (writtenMembers members)) =
      Json.membersDepth (taggedMembers members)
  | [] => rfl
  | (_, item) :: rest => congrArg₂ max (depth_written item) (membersDepth_written rest)

end

mutual

/-- A value is written as the same value with its date-times cut to whole milliseconds. -/
theorem same_written_cut : ∀ v : Value, same v.written v.cut = true
  | .null => rfl
  | .boolean b => beq_self_eq_true b
  | .int i => beq_self_eq_true i
  | .float d => d.same_written
  | .string s => beq_self_eq_true s
  | .enum s => beq_self_eq_true s
  | .dateTime _ => Bool.and_eq_true_iff.mpr ⟨beq_self_eq_true _, beq_self_eq_true _⟩
  | .uuid u => beq_self_eq_true u
  | .bytes bs => beq_self_eq_true bs
  | .list items => sameItems_written_cut items
  | .object members => sameMembers_written_cut members

theorem sameItems_written_cut : ∀ items : List Value,
    sameItems (writtenItems items) (cutItems items) = true
  | [] => rfl
  | item :: rest => by
    rw [writtenItems, cutItems, sameItems, same_written_cut item, sameItems_written_cut rest]
    rfl

theorem sameMembers_written_cut : ∀ members : List (String × Value),
    sameMembers (writtenMembers members) (cutMembers members) = true
  | [] => rfl
  | (key, item) :: rest => by
    rw [writtenMembers, cutMembers, sameMembers, same_written_cut item,
      sameMembers_written_cut rest, beq_self_eq_true]
    rfl

end

theorem Settled.written {levels : Nat} {v : Value} (settled : Settled levels v) :
    v.written.KeyedOnce ∧ ∀ part ∈ v.written.parts, part.Untagged ∧ part.InProfile := by
  rw [KeyedOnce, parts_written, List.forall_mem_map, List.forall_mem_map]
  exact ⟨fun part present => (settled.once part present).written,
    fun part present => (settled.clear part present).imp Untagged.written InProfile.written⟩

end Value

namespace Cursor

open Value

end Cursor

end GraphRead
