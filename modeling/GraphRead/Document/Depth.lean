import GraphRead.Document.Selection
/-!
The depth of a selection: how many fields lie inside one another in it, those in fragments
included.

Merging never makes a selection deeper than the deeper of the two (`depth_splice_le`,
`depth_merge_le`), which is why the binding of a selection comes to an end. `fragmentCount` counts
the fragments that lie inside one another, for the loop that takes them one by one.
-/

namespace GraphRead.Selection

mutual

/-- The number of fields that lie inside one another. -/
def depth : Selection → Nat
  | ⟨_, _, _, children, fragments⟩ => max (childrenDepth children) (fragmentsDepth fragments)

/-- The depth of a selection with the given children. -/
def childrenDepth : List (String × Selection) → Nat
  | [] => 0
  | (_, child) :: rest => max (depth child + 1) (childrenDepth rest)

/-- The depth of the deepest of some fragments under their conditions. -/
def fragmentsDepth : List (String × List Selection) → Nat
  | [] => 0
  | (_, members) :: rest => max (listDepth members) (fragmentsDepth rest)

/-- The depth of the deepest of some selections. -/
def listDepth : List Selection → Nat
  | [] => 0
  | s :: rest => max (depth s) (listDepth rest)

end

mutual

/-- The number of fragments inside a fragment, itself included. -/
def fragmentCount : Selection → Nat
  | ⟨_, _, _, _, fragments⟩ => 1 + fragmentsCount fragments

/-- The number of fragments in fragments under their conditions. -/
def fragmentsCount : List (String × List Selection) → Nat
  | [] => 0
  | (_, members) :: rest => listCount members + fragmentsCount rest

/-- The number of fragments in a list of fragments. -/
def listCount : List Selection → Nat
  | [] => 0
  | s :: rest => fragmentCount s + listCount rest

end

/-! ### Parts are not deeper than the whole -/

theorem childrenDepth_le_depth (s : Selection) : childrenDepth s.children ≤ s.depth := by
  cases s; simp only [depth]; omega

theorem fragmentsDepth_le_depth (s : Selection) : fragmentsDepth s.fragments ≤ s.depth := by
  cases s; simp only [depth]; omega

theorem depth_eq (s : Selection) :
    s.depth = max (childrenDepth s.children) (fragmentsDepth s.fragments) := by
  cases s; simp only [depth]

theorem depth_lt_childrenDepth {children : List (String × Selection)} {key : String}
    {child : Selection} (member : (key, child) ∈ children) :
    child.depth < childrenDepth children := by
  induction children with
  | nil => cases member
  | cons entry rest ih =>
    obtain ⟨k, c⟩ := entry
    simp only [childrenDepth]
    rcases List.mem_cons.mp member with same | later
    · cases same; omega
    · have := ih later; omega

theorem listDepth_append (left right : List Selection) :
    listDepth (left ++ right) = max (listDepth left) (listDepth right) := by
  induction left with
  | nil => simp [listDepth]
  | cons s rest ih => simp only [List.cons_append, listDepth, ih]; omega

theorem depth_le_of_mem_fragmentList {s fragment : Selection} {condition : String}
    (member : (condition, fragment) ∈ s.fragmentList) : fragment.depth ≤ s.depth := by
  refine Nat.le_trans ?_ (fragmentsDepth_le_depth s)
  unfold fragmentList at member
  generalize s.fragments = fragments at member
  induction fragments with
  | nil => simp at member
  | cons entry rest ih =>
    obtain ⟨c, members⟩ := entry
    simp only [List.flatMap_cons, List.mem_append, List.mem_map, Prod.mk.injEq] at member
    simp only [fragmentsDepth]
    rcases member with ⟨m, inMembers, rfl, rfl⟩ | later
    · have : m.depth ≤ listDepth members := by
        clear ih
        induction members with
        | nil => cases inMembers
        | cons head tail ih =>
          simp only [listDepth]
          rcases List.mem_cons.mp inMembers with rfl | later
          · omega
          · have := ih later; omega
      omega
    · have := ih later; omega

theorem depth_withoutFragments_le (s : Selection) : s.withoutFragments.depth ≤ s.depth := by
  rw [depth_eq s.withoutFragments, depth_eq s]
  simp only [withoutFragments, fragmentsDepth]
  omega

/-! ### Changes do not make a selection deeper than its parts -/

theorem childrenDepth_insert_le (children : List (String × Selection)) (key : String)
    (child : Selection) :
    childrenDepth (Keyed.insert children key child) ≤
      max (childrenDepth children) (child.depth + 1) := by
  induction children with
  | nil => simp [Keyed.insert, childrenDepth]
  | cons entry rest ih =>
    obtain ⟨k, c⟩ := entry
    by_cases same : k = key
    · simp only [Keyed.insert, same, if_true, childrenDepth]; omega
    · simp only [Keyed.insert, same, if_false, childrenDepth]; omega

theorem depth_lt_of_get? {children : List (String × Selection)} {key : String}
    {child : Selection} (found : Keyed.get? children key = some child) :
    child.depth < childrenDepth children := by
  induction children with
  | nil => simp [Keyed.get?] at found
  | cons entry rest ih =>
    obtain ⟨k, c⟩ := entry
    simp only [Keyed.get?] at found
    simp only [childrenDepth]
    split at found
    · cases found; omega
    · have := ih found; omega

theorem listDepth_le_of_get? {fragments : List (String × List Selection)} {condition : String}
    {members : List Selection} (found : Keyed.get? fragments condition = some members) :
    listDepth members ≤ fragmentsDepth fragments := by
  induction fragments with
  | nil => simp [Keyed.get?] at found
  | cons entry rest ih =>
    obtain ⟨c, ms⟩ := entry
    simp only [Keyed.get?] at found
    simp only [fragmentsDepth]
    split at found
    · cases found; omega
    · have := ih found; omega

theorem fragmentsDepth_insert_le (fragments : List (String × List Selection)) (condition : String)
    (members : List Selection) :
    fragmentsDepth (Keyed.insert fragments condition members) ≤
      max (fragmentsDepth fragments) (listDepth members) := by
  induction fragments with
  | nil => simp [Keyed.insert, fragmentsDepth]
  | cons entry rest ih =>
    obtain ⟨c, ms⟩ := entry
    by_cases same : c = condition
    · simp only [Keyed.insert, same, if_true, fragmentsDepth]; omega
    · simp only [Keyed.insert, same, if_false, fragmentsDepth]; omega

theorem fragmentsDepth_addFragments_le (there more : List (String × List Selection)) :
    fragmentsDepth (addFragments there more) ≤
      max (fragmentsDepth there) (fragmentsDepth more) := by
  unfold addFragments
  induction more generalizing there with
  | nil => simp [fragmentsDepth]
  | cons entry rest ih =>
    obtain ⟨c, ms⟩ := entry
    simp only [List.foldl_cons, fragmentsDepth]
    refine Nat.le_trans (ih _) ?_
    have inserted := fragmentsDepth_insert_le there c ((Keyed.get? there c).getD [] ++ ms)
    rw [listDepth_append] at inserted
    have present : listDepth ((Keyed.get? there c).getD []) ≤ fragmentsDepth there := by
      cases found : Keyed.get? there c with
      | none => simp [listDepth]
      | some old => simpa using listDepth_le_of_get? found
    omega

theorem depth_place_le (s child : Selection) (merge : Selection → Change)
    (merged : ∀ there, (merge there).selection.depth ≤ max there.depth child.depth) :
    (place s child merge).selection.depth ≤ max s.depth (child.depth + 1) := by
  unfold place
  split
  · rw [depth_eq { s with children := Keyed.insert s.children child.outputKey child }, depth_eq s]
    have := childrenDepth_insert_le s.children child.outputKey child
    simp only
    omega
  · rename_i there found
    split
    · simp only; omega
    · split
      · simp only; omega
      · have here := depth_lt_of_get? found
        have bound := merged there
        have inserted := childrenDepth_insert_le s.children child.outputKey (merge there).selection
        rw [depth_eq ⟨s.name, s.aliasName, s.arguments, _, s.fragments⟩, depth_eq s]
        simp only
        omega

mutual

/-- Taking over another selection does not make a selection deeper than both. -/
theorem depth_splice_le (s : Selection) :
    (other : Selection) → (splice s other).selection.depth ≤ max s.depth other.depth
  | ⟨_, _, _, children, fragments⟩ => by
    have spliced := depth_spliceChildren_le s children
    simp only [splice, depth]
    split
    · omega
    · have added := fragmentsDepth_addFragments_le (spliceChildren s children).selection.fragments
        fragments
      have whole := depth_eq (spliceChildren s children).selection
      rw [depth_eq { (spliceChildren s children).selection with fragments := _ }]
      simp only
      omega

/-- Taking over children does not make a selection deeper than it and them. -/
theorem depth_spliceChildren_le (s : Selection) :
    (children : List (String × Selection)) →
      (spliceChildren s children).selection.depth ≤ max s.depth (childrenDepth children)
  | [] => by simp only [spliceChildren, childrenDepth]; omega
  | (_, child) :: rest => by
    have placed := depth_place_le s child (fun there => splice there child)
      (fun there => depth_splice_le there child)
    simp only [spliceChildren, childrenDepth]
    split
    · omega
    · have later := depth_spliceChildren_le
        (place s child fun there => splice there child).selection rest
      omega

end

/-- Merging does not make a selection deeper than both. -/
theorem depth_merge_le (s other : Selection) :
    (merge s other).selection.depth ≤ max s.depth other.depth := by
  unfold merge
  split
  · exact depth_splice_le s other
  · simp only; omega

/-! ### Counting fragments -/

/-- The number of fragments in a queue of fragments with their conditions. -/
def queueCount : List (String × Selection) → Nat
  | [] => 0
  | (_, fragment) :: rest => fragment.fragmentCount + queueCount rest

theorem queueCount_append (front back : List (String × Selection)) :
    queueCount (front ++ back) = queueCount front + queueCount back := by
  induction front with
  | nil => simp [queueCount]
  | cons entry rest ih =>
    simp only [List.cons_append, queueCount, ih]
    omega

theorem queueCount_members (condition : String) (members : List Selection) :
    queueCount (members.map fun member => (condition, member)) = listCount members := by
  induction members with
  | nil => rfl
  | cons head tail ih => simp only [List.map_cons, queueCount, listCount, ih]

/-- The fragments of a selection are all that it counts, itself apart. -/
theorem queueCount_fragmentList (s : Selection) :
    queueCount s.fragmentList + 1 = s.fragmentCount := by
  obtain ⟨_, _, _, _, fragments⟩ := s
  simp only [fragmentList, fragmentCount]
  rw [Nat.add_comm]
  congr 1
  induction fragments with
  | nil => rfl
  | cons entry rest ih =>
    simp only [List.flatMap_cons, queueCount_append, queueCount_members, ih, fragmentsCount]

end GraphRead.Selection
