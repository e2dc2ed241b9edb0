import GraphRead.Document.Basic
import GraphRead.Keyed
import Mathlib.Data.List.Basic
import Mathlib.Data.Prod.Basic
/-!
Documents whose arguments have other values.

`Document.map` changes the values of all arguments. Two computations whose results look alike under
a map still look alike after steps that keep it so (`Fallible.return_congr`, `Fallible.both_congr`).
-/

namespace GraphRead

/-! ### Documents -/

section Map

variable {α β : Type} (f : α → β)

mutual

/-- An item with other values in its arguments. -/
def Item.map : Item α → Item β
  | .field head items =>
    .field ⟨head.name, head.aliasName, head.arguments.map (Prod.map id f)⟩ (mapItems items)
  | .spread fragment => .spread fragment
  | .inline condition items => .inline condition (mapItems items)

/-- A selection set with other values in its arguments. -/
def Item.mapItems : List (Item α) → List (Item β)
  | [] => []
  | first :: rest => first.map :: mapItems rest

end

end Map

/-- A fragment with other values in its arguments. -/
def Fragment.map (f : Value → Value) (fragment : Fragment) : Fragment :=
  ⟨fragment.condition, Item.mapItems f fragment.items⟩

/-- A document with other values in its arguments. -/
def Document.map (f : Value → Value) (document : Document) : Document where
  root :=
    ⟨⟨document.root.head.name, document.root.head.aliasName,
      document.root.head.arguments.map (Prod.map id f)⟩, Item.mapItems f document.root.items⟩
  fragments := document.fragments.map (Prod.map id (Fragment.map f))

mutual

theorem Item.map_id {α : Type} : ∀ item : Item α, item.map id = item
  | .field head items => by
    rw [map, mapItems_id items, Prod.map_id, List.map_id]
  | .spread _ => rfl
  | .inline condition items => by rw [map, mapItems_id items]

theorem Item.mapItems_id {α : Type} : ∀ items : List (Item α), mapItems id items = items
  | [] => rfl
  | first :: rest => congrArg₂ List.cons (map_id first) (mapItems_id rest)

end

theorem Document.map_id (document : Document) : document.map id = document := by
  have fragment : Fragment.map id = id := funext fun fragment => by
    rw [Fragment.map, Item.mapItems_id]
    rfl
  rw [map, Item.mapItems_id, fragment, Prod.map_id, List.map_id, Prod.map_id, List.map_id]

namespace Keyed

variable {α β : Type} (f : α → β)

theorem map_insert (entries : Keyed α) (key : String) (value : α) :
    (insert entries key value).map (Prod.map id f) =
      insert (entries.map (Prod.map id f)) key (f value) := by
  induction entries with
  | nil => rfl
  | cons entry rest ih =>
    obtain ⟨k, old⟩ := entry
    show _ = insert ((k, f old) :: rest.map (Prod.map id f)) key (f value)
    rw [insert, insert]
    split
    · rfl
    · exact congrArg ((k, f old) :: ·) ih

theorem map_ofList (pairs : List (String × α)) :
    (ofList pairs).map (Prod.map id f) = ofList (pairs.map (Prod.map id f)) := by
  suffices general : ∀ start : Keyed α,
      (pairs.foldl (fun entries pair => insert entries pair.1 pair.2) start).map
        (Prod.map id f) =
      (pairs.map (Prod.map id f)).foldl (fun entries pair => insert entries pair.1 pair.2)
        (start.map (Prod.map id f)) from general []
  induction pairs with
  | nil => exact fun _ => rfl
  | cons pair rest ih =>
    intro start
    rw [List.foldl_cons, ih, List.map_cons, List.foldl_cons, map_insert]
    rfl

end Keyed

namespace Fallible

variable {ε α α' β β' γ δ : Type}

theorem map_id (x : Except ε α) : x.map id = x := by
  cases x <;> rfl

/-- Results that look alike still do after a step, if the step keeps it so. -/
theorem return_congr {x y : Except ε α} {f : α → β} {look : α → α'} {view : β → β'}
    (same : x.map look = y.map look) (kept : ∀ a b, look a = look b → view (f a) = view (f b)) :
    (do return f (← x) : Except ε β).map view = (do return f (← y) : Except ε β).map view := by
  cases x with
  | error e => cases y <;> cases same; rfl
  | ok a =>
    cases y with
    | error e => cases same
    | ok b => exact congrArg Except.ok (kept a b (Except.ok.inj same))

theorem mapError_congr {φ : Type} {x y : Except ε α} {look : α → α'}
    (same : x.map look = y.map look) (f : ε → φ) :
    (x.mapError f).map look = (y.mapError f).map look := by
  cases x with
  | error e => cases y <;> cases same; rfl
  | ok a =>
    cases y with
    | error e => cases same
    | ok b => exact congrArg Except.ok (Except.ok.inj same)

theorem both_congr {x x' : Except ε α} {y y' : Except ε β} {f : α → β → γ} {look : α → α'}
    {glance : β → β'} {view : γ → δ} (first : x.map look = x'.map look)
    (second : y.map glance = y'.map glance)
    (kept : ∀ a a' b b', look a = look a' → glance b = glance b' → view (f a b) = view (f a' b')) :
    (do
      let a ← x
      let b ← y
      return f a b : Except ε γ).map view =
    (do
      let a ← x'
      let b ← y'
      return f a b : Except ε γ).map view := by
  cases x with
  | error e => cases x' <;> cases first; rfl
  | ok a =>
    cases x' with
    | error e => cases first
    | ok a' =>
      have alike := Except.ok.inj first
      cases y with
      | error e => cases y' <;> cases second; rfl
      | ok b =>
        cases y' with
        | error e => cases second
        | ok b' => exact congrArg Except.ok (kept a a' b b' alike (Except.ok.inj second))

end Fallible

end GraphRead
