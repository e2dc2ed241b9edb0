import GraphRead.Binding.Bound
/-!
The height of what is bound: how many associations lie below one another.

Every target of an association lies less high than the record whose association it is
(`Target.height_lt`), so following associations comes to an end.
-/

namespace GraphRead

mutual

/-- The number of associations below one another in a record. -/
def BoundField.height : BoundField → Nat
  | ⟨_, items⟩ => BoundField.itemsHeight items

/-- The height of a record with the given items. -/
def BoundField.itemsHeight : List (String × BoundItem) → Nat
  | [] => 0
  | (_, item) :: rest => max item.height (BoundField.itemsHeight rest)

/-- An association makes a record one higher than its targets. -/
def BoundItem.height : BoundItem → Nat
  | .id => 0
  | .scalar _ => 0
  | .link l => l.height

/-- The height of an association. -/
def BoundLink.height : BoundLink → Nat
  | ⟨_, _, targets⟩ => Target.listHeight targets + 1

/-- The height of a target. -/
def Target.height : Target → Nat
  | .field f => f.height
  | .connection c => c.height
  | .edge e => e.height

/-- The height of the highest of some targets. -/
def Target.listHeight : List Target → Nat
  | [] => 0
  | target :: rest => max target.height (Target.listHeight rest)

/-- The height of a list. -/
def BoundConnection.height : BoundConnection → Nat
  | ⟨_, _, _, none, _, _, _⟩ => 0
  | ⟨_, _, _, some edge, _, _, _⟩ => edge.height

/-- The height of an edge. -/
def BoundEdge.height : BoundEdge → Nat
  | ⟨_, none, _⟩ => 0
  | ⟨_, some node, _⟩ => node.height

end

/-- A target is as high as what it asks of a record. -/
theorem Target.height_eq_record {target : Target} {f : BoundField}
    (asked : target.record? = some f) : f.height = target.height := by
  rcases target with field | ⟨_, _, _, edges, _, _, _⟩ | ⟨_, node, _⟩
  · cases asked; rfl
  · rcases edges with _ | ⟨_, node, _⟩
    · simp [record?, BoundConnection.node] at asked
    · simp only [record?, BoundConnection.node, Option.bind_some] at asked
      subst asked
      simp [height, BoundConnection.height, BoundEdge.height]
  · simp only [record?] at asked
    subst asked
    simp [height, BoundEdge.height]

/-- A target is not higher than the highest of a list. -/
theorem Target.height_le_listHeight {target : Target} {targets : List Target}
    (present : target ∈ targets) : target.height ≤ listHeight targets := by
  induction targets with
  | nil => cases present
  | cons first rest ih =>
    simp only [listHeight]
    rcases List.mem_cons.mp present with rfl | later
    · omega
    · have := ih later
      omega

/-- An association is not higher than its record. -/
theorem BoundField.link_height_le {f : BoundField} {key : String} {l : BoundLink}
    (present : (key, l) ∈ f.links) : l.height ≤ f.height := by
  obtain ⟨type, items⟩ := f
  simp only [links, height] at present ⊢
  induction items with
  | nil => cases present
  | cons item rest ih =>
    obtain ⟨k, bound⟩ := item
    simp only [itemsHeight]
    cases bound with
    | id => exact Nat.le_trans (ih (by simpa using present)) (Nat.le_max_right _ _)
    | scalar a => exact Nat.le_trans (ih (by simpa using present)) (Nat.le_max_right _ _)
    | link l' =>
      simp only [List.filterMap_cons, List.mem_cons, Prod.mk.injEq] at present
      rcases present with ⟨_, rfl⟩ | later
      · simp only [BoundItem.height]
        omega
      · exact Nat.le_trans (ih later) (Nat.le_max_right _ _)

/-- The targets of an association lie less high than the target that asks for it. -/
theorem Target.height_lt {parent child : Target} {f : BoundField} {key : String} {l : BoundLink}
    (asked : parent.record? = some f) (linked : (key, l) ∈ f.links) (reached : child ∈ l.targets) :
    child.height < parent.height := by
  have record := height_eq_record asked
  have link := BoundField.link_height_le linked
  have below := height_le_listHeight reached
  cases l
  simp only [BoundLink.height] at link below
  omega

end GraphRead
