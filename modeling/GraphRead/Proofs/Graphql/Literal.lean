import GraphRead.Graphql.Convert
import GraphRead.Fallible
import GraphRead.Proofs.InStep
import GraphRead.Proofs.Json.Text
/-!
JSON that is written as a GraphQL literal.

Both have the same scalars, lists and objects, but the objects of literals are sorted by key
(`Parser.sortMembers`), while JSON keeps the order of its keys. So a literal has the value of its
JSON with sorted objects (`Input.value_ofJson`), which is the value of the JSON itself if the keys
of all its objects ascend (`Value.sorted_of_ascending`).
-/

namespace GraphRead

/-! ### Sorted members -/

namespace Graphql.Parser

variable {α β : Type}

/-- The keys of members ascend. -/
def Ascends (members : List (String × α)) : Prop :=
  members.Pairwise fun one other => compare one.1 other.1 = .lt

theorem both_insertSorted {related : α → β → Prop} {left : Keyed α} {right : Keyed β}
    (both : Keyed.Both related left right) {key : String} {a : α} {b : β} (added : related a b) :
    Keyed.Both related (insertSorted left key a) (insertSorted right key b) := by
  induction both with
  | nil => exact .cons added .nil
  | @cons k old old' rest others first later ih =>
    rw [insertSorted, insertSorted]
    cases compare key k with
    | lt => exact .cons added (.cons first later)
    | eq => exact .cons added later
    | gt => exact .cons first ih

/-- Members with the same keys are sorted alike. -/
theorem both_sortMembers {related : α → β → Prop} {left : Keyed α} {right : Keyed β}
    (both : Keyed.Both related left right) :
    Keyed.Both related (sortMembers left) (sortMembers right) := by
  suffices general : ∀ {start : Keyed α} {start' : Keyed β}, Keyed.Both related start start' →
      Keyed.Both related
        (left.foldl (fun sorted entry => insertSorted sorted entry.1 entry.2) start)
        (right.foldl (fun sorted entry => insertSorted sorted entry.1 entry.2) start') from
    general .nil
  induction both with
  | nil => exact id
  | cons first later ih => exact fun begun => ih (both_insertSorted begun first)

theorem mem_insertSorted {members : List (String × α)} {key : String} {value : α}
    {entry : String × α} (present : entry ∈ insertSorted members key value) :
    entry = (key, value) ∨ entry ∈ members := by
  induction members with
  | nil => exact .inl (List.mem_singleton.mp present)
  | cons member rest ih =>
    obtain ⟨k, old⟩ := member
    rw [insertSorted] at present
    split at present
    · exact List.mem_cons.mp present
    · exact (List.mem_cons.mp present).imp_right (List.mem_cons_of_mem _)
    · rcases List.mem_cons.mp present with here | there
      · exact .inr (here ▸ List.mem_cons_self)
      · exact (ih there).imp_right (List.mem_cons_of_mem _)

/-- Sorting adds no members. -/
theorem mem_sortMembers {members : List (String × α)} {entry : String × α}
    (present : entry ∈ sortMembers members) : entry ∈ members := by
  suffices general : ∀ {start : List (String × α)}, entry ∈
      members.foldl (fun sorted entry => insertSorted sorted entry.1 entry.2) start →
      entry ∈ start ∨ entry ∈ members from
    (general present).resolve_left List.not_mem_nil
  clear present
  induction members with
  | nil => exact .inl
  | cons member rest ih =>
    intro start present
    rcases ih present with begun | later
    · rcases mem_insertSorted begun with rfl | there
      · exact .inr List.mem_cons_self
      · exact .inl there
    · exact .inr (List.mem_cons_of_mem _ later)

theorem ascends_insertSorted {members : List (String × α)} (ascends : Ascends members)
    (key : String) (value : α) : Ascends (insertSorted members key value) := by
  induction members with
  | nil => exact List.pairwise_singleton _ _
  | cons member rest ih =>
    obtain ⟨k, old⟩ := member
    obtain ⟨above, later⟩ := List.pairwise_cons.mp ascends
    rw [insertSorted]
    split
    · rename_i less
      refine List.pairwise_cons.mpr ⟨fun entry present => ?_, ascends⟩
      rcases List.mem_cons.mp present with rfl | there
      · exact less
      · exact Std.TransCmp.lt_trans less (above entry there)
    · rename_i same
      obtain rfl := Std.LawfulEqCmp.eq_of_compare same
      exact List.pairwise_cons.mpr ⟨above, later⟩
    · rename_i more
      refine List.pairwise_cons.mpr ⟨fun entry present => ?_, ih later⟩
      rcases mem_insertSorted present with rfl | there
      · exact Std.OrientedCmp.gt_iff_lt.mp more
      · exact above entry there

/-- The keys of sorted members ascend. -/
theorem ascends_sortMembers (members : List (String × α)) : Ascends (sortMembers members) := by
  suffices general : ∀ {start : List (String × α)}, Ascends start →
      Ascends (members.foldl (fun sorted entry => insertSorted sorted entry.1 entry.2) start) from
    general List.Pairwise.nil
  induction members with
  | nil => exact id
  | cons member rest ih => exact fun begun => ih (ascends_insertSorted begun _ _)

theorem insertSorted_of_above {members : List (String × α)} {key : String}
    (above : ∀ entry ∈ members, compare entry.1 key = .lt) (value : α) :
    insertSorted members key value = members ++ [(key, value)] := by
  induction members with
  | nil => rfl
  | cons member rest ih =>
    obtain ⟨k, old⟩ := member
    obtain ⟨here, later⟩ := List.forall_mem_cons.mp above
    rw [insertSorted, Std.OrientedCmp.gt_iff_lt.mpr here]
    exact congrArg ((k, old) :: ·) (ih later)

/-- Members whose keys ascend are sorted. -/
theorem sortMembers_of_ascends {members : List (String × α)} (ascends : Ascends members) :
    sortMembers members = members := by
  suffices general : ∀ start : List (String × α), Ascends (start ++ members) →
      members.foldl (fun sorted entry => insertSorted sorted entry.1 entry.2) start =
        start ++ members from
    general [] ascends
  clear ascends
  induction members with
  | nil => exact fun start _ => (List.append_nil start).symm
  | cons member rest ih =>
    intro start ascends
    obtain ⟨key, value⟩ := member
    have above := (List.pairwise_append.mp ascends).2.2
    have placed : insertSorted start key value = start ++ [(key, value)] :=
      insertSorted_of_above (fun entry present => above entry present _ List.mem_cons_self) _
    rw [List.append_cons] at ascends ⊢
    rw [← ih _ ascends, ← placed]
    rfl

/-- Whether keys ascend depends on the keys alone. -/
theorem ascends_congr {members : List (String × α)} {others : List (String × β)}
    (keys : others.map Prod.fst = members.map Prod.fst) (ascends : Ascends members) :
    Ascends others := by
  have above : (members.map Prod.fst).Pairwise fun j k => compare j k = .lt :=
    List.pairwise_map.mpr ascends
  rw [← keys] at above
  exact List.pairwise_map.mp above

end Graphql.Parser

open Graphql.Parser

/-! ### Sorted values -/

namespace Json

mutual

/-- The keys of every object ascend. -/
def Ascending : Json → Prop
  | array items => AscendingItems items
  | object members => Ascends members ∧ AscendingMembers members
  | _ => True

/-- The keys of every object in an array ascend. -/
def AscendingItems : List Json → Prop
  | [] => True
  | item :: rest => item.Ascending ∧ AscendingItems rest

/-- The keys of every object inside an object ascend. -/
def AscendingMembers : List (String × Json) → Prop
  | [] => True
  | (_, item) :: rest => item.Ascending ∧ AscendingMembers rest

end

end Json

namespace Value

mutual

/-- A value with the members of its objects sorted by key. -/
def sorted : Value → Value
  | list items => list (sortedItems items)
  | object members => object (sortMembers (sortedMembers members))
  | v => v

/-- The items of a list with the members of their objects sorted by key. -/
def sortedItems : List Value → List Value
  | [] => []
  | item :: rest => sorted item :: sortedItems rest

/-- The members of an object with the members of objects in them sorted by key. -/
def sortedMembers : List (String × Value) → List (String × Value)
  | [] => []
  | (key, item) :: rest => (key, sorted item) :: sortedMembers rest

end

theorem sortedItems_eq (items : List Value) : sortedItems items = items.map sorted := by
  induction items with
  | nil => rfl
  | cons item rest ih => exact congrArg (sorted item :: ·) ih

theorem sortedMembers_eq (members : List (String × Value)) :
    sortedMembers members = members.map (Prod.map id sorted) := by
  induction members with
  | nil => rfl
  | cons member rest ih => exact congrArg ((member.1, sorted member.2) :: ·) ih

theorem both_sortedMembers (members : List (String × Value)) :
    Keyed.Both (fun v w => w = sorted v) members (sortedMembers members) := by
  induction members with
  | nil => exact .nil
  | cons member rest ih => exact .cons rfl ih

theorem eq_sortedMembers {members others : List (String × Value)}
    (both : Keyed.Both (fun v w => w = sorted v) members others) :
    others = sortedMembers members := by
  induction both with
  | nil => rfl
  | cons first later ih => rw [first, ih, sortedMembers]

theorem sortedMembers_sortMembers (members : List (String × Value)) :
    sortedMembers (sortMembers members) = sortMembers (sortedMembers members) :=
  (eq_sortedMembers (both_sortMembers (both_sortedMembers members))).symm

mutual

theorem sorted_sorted : ∀ v : Value, v.sorted.sorted = v.sorted
  | .list items => congrArg list (sortedItems_sorted items)
  | .object members => by
    rw [sorted, sorted, sortedMembers_sortMembers, sortedMembers_sorted members,
      sortMembers_of_ascends (ascends_sortMembers _)]
  | .null | .boolean _ | .int _ | .float _ | .string _ | .enum _ | .dateTime _ | .uuid _
  | .bytes _ => rfl

theorem sortedItems_sorted : ∀ items : List Value,
    sortedItems (sortedItems items) = sortedItems items
  | [] => rfl
  | item :: rest => congrArg₂ List.cons (sorted_sorted item) (sortedItems_sorted rest)

theorem sortedMembers_sorted : ∀ members : List (String × Value),
    sortedMembers (sortedMembers members) = sortedMembers members
  | [] => rfl
  | (key, item) :: rest =>
    congrArg₂ List.cons (congrArg (Prod.mk key) (sorted_sorted item)) (sortedMembers_sorted rest)

end

theorem keys_ofPlainMembers {members : List (String × Json)} {found : List (String × Value)}
    (read : ofPlainMembers members = .ok found) : found.map Prod.fst = members.map Prod.fst := by
  induction members generalizing found with
  | nil =>
    cases read
    rfl
  | cons member rest ih =>
    obtain ⟨first, _, read⟩ := Fallible.bind_eq_ok.mp read
    obtain ⟨others, later, same⟩ := Fallible.bind_eq_ok.mp read
    cases same
    exact congrArg (member.1 :: ·) (ih later)

theorem sorted_ofNumber {n : Json.Number} {v : Value} (read : ofNumber n = .ok v) :
    v.sorted = v := by
  have rounded (read : ofNumber.rounded n = .ok v) : v.sorted = v := by
    unfold ofNumber.rounded at read
    split at read <;> cases read
    rfl
  unfold ofNumber at read
  split at read
  · split at read
    · cases read
      rfl
    · exact rounded read
  · exact rounded read

mutual

/-- The value of JSON whose keys ascend is sorted. -/
theorem sorted_of_ascending : ∀ {json : Json} {v : Value}, json.Ascending → ofPlain json = .ok v →
    v.sorted = v
  | .null, _, _, rfl | .boolean _, _, _, rfl | .string _, _, _, rfl => rfl
  | .number _, _, _, read => sorted_ofNumber read
  | .array items, v, ascending, read => by
    obtain ⟨found, inside, same⟩ := Fallible.bind_eq_ok.mp read
    cases same
    exact congrArg list (sortedItems_of_ascending ascending inside)
  | .object members, v, ⟨ascends, ascending⟩, read => by
    obtain ⟨found, inside, same⟩ := Fallible.bind_eq_ok.mp read
    cases same
    have kept := ascends_congr (keys_ofPlainMembers inside) ascends
    rw [sorted, sortedMembers_of_ascending ascending inside, sortMembers_of_ascends kept]

theorem sortedItems_of_ascending : ∀ {items : List Json} {found : List Value},
    Json.AscendingItems items → ofPlainItems items = .ok found → sortedItems found = found
  | [], _, _, rfl => rfl
  | item :: rest, found, ⟨here, later⟩, read => by
    obtain ⟨first, one, read⟩ := Fallible.bind_eq_ok.mp read
    obtain ⟨others, more, same⟩ := Fallible.bind_eq_ok.mp read
    cases same
    exact congrArg₂ List.cons (sorted_of_ascending here one) (sortedItems_of_ascending later more)

theorem sortedMembers_of_ascending : ∀ {members : List (String × Json)}
    {found : List (String × Value)}, Json.AscendingMembers members →
    ofPlainMembers members = .ok found → sortedMembers found = found
  | [], _, _, rfl => rfl
  | (key, item) :: rest, found, ⟨here, later⟩, read => by
    obtain ⟨first, one, read⟩ := Fallible.bind_eq_ok.mp read
    obtain ⟨others, more, same⟩ := Fallible.bind_eq_ok.mp read
    cases same
    exact congrArg₂ List.cons (congrArg (Prod.mk key) (sorted_of_ascending here one))
      (sortedMembers_of_ascending later more)

end

end Value

/-! ### Literals -/

namespace Graphql.Input

variable {ν : Type}

mutual

/-- The literal of JSON. -/
def ofJson : Json → Input ν
  | .null => null
  | .boolean b => boolean b
  | .number (.integer i) => int (Int64.ofInt i)
  | .number (.real d) => float (Binary64.ofDecimal (decide (d.unscaled < 0)) d)
  | .string s => string s
  | .array items => list (itemsOfJson items)
  | .object members => object (sortMembers (membersOfJson members))

/-- The literals of the items of an array. -/
def itemsOfJson : List Json → List (Input ν)
  | [] => []
  | item :: rest => ofJson item :: itemsOfJson rest

/-- The literals of the members of an object. -/
def membersOfJson : List (String × Json) → List (String × Input ν)
  | [] => []
  | (key, item) :: rest => (key, ofJson item) :: membersOfJson rest

end

section Literals

variable (lookup : ν → Except QueryFault (Option Value))

theorem memberValues_eq_ok {members : List (String × Input ν)} {found : List (String × Value)} :
    memberValues lookup members = .ok found ↔
      Keyed.Both (fun input v => input.value lookup = .ok v) members found := by
  induction members generalizing found with
  | nil =>
    constructor
    · intro read
      cases read
      exact .nil
    · intro both
      cases both
      rfl
  | cons member rest ih =>
    obtain ⟨key, item⟩ := member
    constructor
    · intro read
      obtain ⟨first, here, read⟩ := Fallible.bind_eq_ok.mp read
      obtain ⟨others, later, same⟩ := Fallible.bind_eq_ok.mp read
      cases same
      exact .cons here (ih.mp later)
    · intro both
      cases both with
      | cons first later =>
        exact Fallible.bind_eq_ok.mpr ⟨_, first, Fallible.bind_eq_ok.mpr ⟨_, ih.mpr later, rfl⟩⟩

mutual

/-- Plain JSON has a value, and its literal has the same value with sorted objects. -/
theorem value_ofJson : ∀ json : Json, json.Plain → ∃ v, Value.ofPlain json = .ok v ∧
    (ofJson json).value lookup = .ok v.sorted
  | .null, _ => ⟨_, rfl, rfl⟩
  | .boolean _, _ => ⟨_, rfl, rfl⟩
  | .string _, _ => ⟨_, rfl, rfl⟩
  | .number (.integer i), plain => by
    have fits : fits64 i = true := plain
    refine ⟨.int (Int64.ofInt i), ?_, rfl⟩
    rw [Value.ofPlain, Value.ofNumber, if_pos fits]
  | .array items, plain => by
    obtain ⟨found, read, written⟩ := itemValues_ofJson items plain
    exact ⟨.list found, Fallible.bind_eq_ok.mpr ⟨found, read, rfl⟩,
      Fallible.bind_eq_ok.mpr ⟨_, written, rfl⟩⟩
  | .object members, plain => by
    obtain ⟨found, read, written⟩ := memberValues_ofJson members plain.2
    have both := both_sortMembers ((memberValues_eq_ok lookup).mp written)
    exact ⟨.object found, Fallible.bind_eq_ok.mpr ⟨found, read, rfl⟩,
      Fallible.bind_eq_ok.mpr ⟨_, (memberValues_eq_ok lookup).mpr both, rfl⟩⟩

theorem itemValues_ofJson : ∀ items : List Json, Json.PlainItems items →
    ∃ found, Value.ofPlainItems items = .ok found ∧
      itemValues lookup (itemsOfJson items) = .ok (Value.sortedItems found)
  | [], _ => ⟨_, rfl, rfl⟩
  | item :: rest, ⟨here, later⟩ => by
    obtain ⟨v, read, written⟩ := value_ofJson item here
    obtain ⟨found, others, more⟩ := itemValues_ofJson rest later
    exact ⟨v :: found, Fallible.bind_eq_ok.mpr ⟨v, read, Fallible.bind_eq_ok.mpr ⟨_, others, rfl⟩⟩,
      Fallible.bind_eq_ok.mpr ⟨_, written, Fallible.bind_eq_ok.mpr ⟨_, more, rfl⟩⟩⟩

theorem memberValues_ofJson : ∀ members : List (String × Json), Json.PlainMembers members →
    ∃ found, Value.ofPlainMembers members = .ok found ∧
      memberValues lookup (membersOfJson members) = .ok (Value.sortedMembers found)
  | [], _ => ⟨_, rfl, rfl⟩
  | (key, item) :: rest, ⟨here, later⟩ => by
    obtain ⟨v, read, written⟩ := value_ofJson item here
    obtain ⟨found, others, more⟩ := memberValues_ofJson rest later
    exact ⟨(key, v) :: found,
      Fallible.bind_eq_ok.mpr ⟨v, read, Fallible.bind_eq_ok.mpr ⟨_, others, rfl⟩⟩,
      Fallible.bind_eq_ok.mpr ⟨_, written, Fallible.bind_eq_ok.mpr ⟨_, more, rfl⟩⟩⟩

end

end Literals

end Graphql.Input

end GraphRead
