import GraphRead.Fallible
import GraphRead.Graphql.Convert
import GraphRead.Proofs.Document.Spreads
/-!
When the arguments of a document have values.

An argument has a value exactly if every variable in it has one, supplied or declared by the picked
operation, and every number in it is finite (`Input.Readable`). Items are converted exactly if all
arguments in them are readable (`itemList_ok`), and the converted items spread the same fragments
(`spreadsOf_itemList`).
-/

namespace GraphRead.Graphql

open Fallible

/-! ### Steps that do not need each other -/

section Steps

variable {ε φ α β γ : Type}

theorem exists_map_ok {x : Except ε α} {f : α → β} :
    (∃ b, (do return f (← x)) = (.ok b : Except ε β)) ↔ ∃ a, x = .ok a := by
  constructor
  · rintro ⟨b, done⟩
    obtain ⟨a, here, -⟩ := bind_eq_ok.mp done
    exact ⟨a, here⟩
  · rintro ⟨a, here⟩
    exact ⟨f a, bind_eq_ok.mpr ⟨a, here, rfl⟩⟩

theorem exists_both_ok {x : Except ε α} {y : Except ε β} {f : α → β → γ} :
    (∃ c, (do
      let a ← x
      let b ← y
      return f a b) = (.ok c : Except ε γ)) ↔ (∃ a, x = .ok a) ∧ ∃ b, y = .ok b := by
  constructor
  · rintro ⟨c, done⟩
    obtain ⟨a, here, done⟩ := bind_eq_ok.mp done
    obtain ⟨b, there, -⟩ := bind_eq_ok.mp done
    exact ⟨⟨a, here⟩, b, there⟩
  · rintro ⟨⟨a, here⟩, b, there⟩
    exact ⟨f a b, bind_eq_ok.mpr ⟨a, here, bind_eq_ok.mpr ⟨b, there, rfl⟩⟩⟩

theorem exists_mapError_ok {x : Except ε α} {f : ε → φ} :
    (∃ a, x.mapError f = .ok a) ↔ ∃ a, x = .ok a :=
  exists_congr fun _ => mapError_eq_ok

end Steps

/-! ### Inputs -/

namespace Input

variable {ν : Type}

mutual

/-- Every variable of an input has a value, and every number is finite. -/
def Readable (has : ν → Prop) : Input ν → Prop
  | var name => has name
  | float x => x.isFinite
  | list items => ReadableItems has items
  | object members => ReadableMembers has members
  | int _ | string _ | boolean _ | null | enum _ => True

/-- All items of a list are readable. -/
def ReadableItems (has : ν → Prop) : List (Input ν) → Prop
  | [] => True
  | item :: rest => item.Readable has ∧ ReadableItems has rest

/-- All members of an object are readable. -/
def ReadableMembers (has : ν → Prop) : List (String × Input ν) → Prop
  | [] => True
  | (_, item) :: rest => item.Readable has ∧ ReadableMembers has rest

end

theorem ofBinary64_ok {x : Binary64} : (∃ v, Value.ofBinary64 x = .ok v) ↔ x.isFinite := by
  cases x with
  | finite negative m e =>
    have decimal : ∃ d, (Binary64.finite negative m e).toDecimal = some d := by
      unfold Binary64.toDecimal
      dsimp only
      split <;> exact ⟨_, rfl⟩
    obtain ⟨d, found⟩ := decimal
    refine iff_of_true ⟨.float d, ?_⟩ rfl
    rw [Value.ofBinary64, found]
  | infinite negative => exact iff_of_false (fun ⟨_, done⟩ => nomatch done) nofun
  | nan => exact iff_of_false (fun ⟨_, done⟩ => nomatch done) nofun

mutual

/-- An input has a value exactly if it is readable. -/
theorem value_ok (lookup : ν → Except QueryFault (Option Value)) :
    ∀ input : Input ν, (∃ v, input.value lookup = .ok v) ↔
      input.Readable fun name => ∃ v, lookup name = .ok v
  | var name => by
    rw [value, Readable]
    exact exists_map_ok
  | int i | string s | boolean b | null | enum s => by
    rw [value, Readable]
    exact iff_of_true ⟨_, rfl⟩ trivial
  | float x => by
    rw [value, Readable, ← ofBinary64_ok]
    cases Value.ofBinary64 x with
    | ok v => exact iff_of_true ⟨v, rfl⟩ ⟨v, rfl⟩
    | error e => exact iff_of_false (fun ⟨_, done⟩ => nomatch done) fun ⟨_, done⟩ => nomatch done
  | list items => by
    rw [value, Readable, ← itemValues_ok lookup items]
    exact exists_map_ok
  | object members => by
    rw [value, Readable, ← memberValues_ok lookup members]
    exact exists_map_ok

theorem itemValues_ok (lookup : ν → Except QueryFault (Option Value)) :
    ∀ items : List (Input ν), (∃ vs, itemValues lookup items = .ok vs) ↔
      ReadableItems (fun name => ∃ v, lookup name = .ok v) items
  | [] => by
    rw [itemValues, ReadableItems]
    exact iff_of_true ⟨_, rfl⟩ trivial
  | item :: rest => by
    rw [itemValues, ReadableItems, ← value_ok lookup item, ← itemValues_ok lookup rest]
    exact exists_both_ok

theorem memberValues_ok (lookup : ν → Except QueryFault (Option Value)) :
    ∀ members : List (String × Input ν), (∃ vs, memberValues lookup members = .ok vs) ↔
      ReadableMembers (fun name => ∃ v, lookup name = .ok v) members
  | [] => by
    rw [memberValues, ReadableMembers]
    exact iff_of_true ⟨_, rfl⟩ trivial
  | (key, item) :: rest => by
    rw [memberValues, ReadableMembers, ← value_ok lookup item, ← memberValues_ok lookup rest]
    exact exists_both_ok

end

end Input

/-! ### Items -/

namespace Variables

variable (given : Variables)

/-- A variable has a value, or may be left out. -/
def Has (name : String) : Prop := ∃ v, given.lookup name = .ok v

theorem argument_ok (input : Input String) :
    (∃ v, given.argument input = .ok v) ↔ input.Readable given.Has := by
  unfold argument
  split
  · rw [Input.Readable]
    exact Iff.rfl
  · refine Iff.trans ?_ (Input.value_ok given.lookup input)
    constructor
    · rintro ⟨v, done⟩
      obtain ⟨w, here, -⟩ := map_eq_ok.mp done
      exact ⟨w, here⟩
    · rintro ⟨w, here⟩
      exact ⟨some w, map_eq_ok.mpr ⟨w, here, rfl⟩⟩

theorem arguments_ok (written : List (String × Input String)) :
    (∃ vs, given.arguments written = .ok vs) ↔ ∀ entry ∈ written, entry.2.Readable given.Has := by
  induction written with
  | nil => exact iff_of_true ⟨[], rfl⟩ fun _ present => nomatch present
  | cons entry rest ih =>
    obtain ⟨name, input⟩ := entry
    rw [List.forall_mem_cons, ← argument_ok, ← ih, arguments]
    exact exists_both_ok

mutual

/-- Every argument in an item is readable. -/
def ReadsItem : Item (Input String) → Prop
  | .field head items =>
    (∀ entry ∈ head.arguments, entry.2.Readable given.Has) ∧ ReadsItems items
  | .spread _ => True
  | .inline _ items => ReadsItems items

/-- Every argument in the items of a selection set is readable. -/
def ReadsItems : List (Item (Input String)) → Prop
  | [] => True
  | first :: rest => ReadsItem first ∧ ReadsItems rest

end

mutual

theorem item_ok : ∀ (path : Path) (written : Item (Input String)),
    (∃ converted, given.item path written = .ok converted) ↔ given.ReadsItem written
  | path, .field head items => by
    rw [item, ReadsItem, ← arguments_ok, ← itemList_ok (path.add head.outputKey) items]
    exact exists_both_ok.trans (and_congr_left' exists_mapError_ok)
  | path, .spread fragment => by
    rw [item, ReadsItem]
    exact iff_of_true ⟨_, rfl⟩ trivial
  | path, .inline condition items => by
    rw [item, ReadsItem, ← itemList_ok path items]
    exact exists_map_ok

/-- The items of a selection set are converted exactly if every argument in them is readable. -/
theorem itemList_ok : ∀ (path : Path) (written : List (Item (Input String))),
    (∃ converted, given.itemList path written = .ok converted) ↔ given.ReadsItems written
  | path, [] => by
    rw [itemList, ReadsItems]
    exact iff_of_true ⟨_, rfl⟩ trivial
  | path, first :: rest => by
    rw [itemList, ReadsItems, ← item_ok path first, ← itemList_ok path rest]
    exact exists_both_ok

end

theorem fragment_ok (path : Path) (definition : FragmentDefinition) :
    (∃ converted, given.fragment path definition = .ok converted) ↔
      given.ReadsItems definition.items := by
  rw [← given.itemList_ok (path.add definition.name)]
  exact exists_map_ok

mutual

theorem spreads_item : ∀ (path : Path) (written : Item (Input String)) (converted : Item Value),
    given.item path written = .ok converted → converted.spreads = written.spreads
  | path, .field head items, converted, done => by
    rw [item] at done
    obtain ⟨arguments, -, done⟩ := bind_eq_ok.mp done
    obtain ⟨inside, isInside, done⟩ := bind_eq_ok.mp done
    cases pure_eq_ok.mp done
    exact spreadsOf_itemList _ items inside isInside
  | path, .spread fragment, converted, done => by
    rw [item] at done
    cases done
    rfl
  | path, .inline condition items, converted, done => by
    rw [item] at done
    obtain ⟨inside, isInside, done⟩ := bind_eq_ok.mp done
    cases pure_eq_ok.mp done
    exact spreadsOf_itemList path items inside isInside

/-- Converting items keeps the fragments that they spread. -/
theorem spreadsOf_itemList : ∀ (path : Path) (written : List (Item (Input String)))
    (converted : List (Item Value)), given.itemList path written = .ok converted →
      Item.spreadsOf converted = Item.spreadsOf written
  | path, [], converted, done => by
    rw [itemList] at done
    cases done
    rfl
  | path, first :: rest, converted, done => by
    rw [itemList] at done
    obtain ⟨one, isOne, done⟩ := bind_eq_ok.mp done
    obtain ⟨more, isMore, done⟩ := bind_eq_ok.mp done
    cases pure_eq_ok.mp done
    rw [Item.spreadsOf, Item.spreadsOf, spreads_item path first one isOne,
      spreadsOf_itemList path rest more isMore]

end

end Variables

end GraphRead.Graphql
