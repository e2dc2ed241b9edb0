import GraphRead.Proofs.Keyed
/-!
Joining keyed lists.

The entries of one list are stored into another one after the other, and what is filed under a key
already is joined with what is added (`Keyed.union`). If the keys of the added list are distinct,
the result has under every key what both lists have there (`get?_union`), and the keys of the first
list come first (`keys_union`). So joining is associative where joining the values is
(`union_assoc`).
-/

namespace GraphRead.Keyed

variable {α : Type} {left middle right : Keyed α} (join : α → α → α)

/-- One list with the entries of another one, joined with what is filed under their keys. -/
def union (left right : Keyed α) : Keyed α :=
  right.foldl (fun entries (key, added) => insert entries key
    (match get? entries key with
      | some there => join there added
      | none => added)) left

theorem union_cons (left : Keyed α) (key : String) (added : α) (rest : Keyed α) :
    union join left ((key, added) :: rest) =
      union join (insert left key (match get? left key with
        | some there => join there added
        | none => added)) rest := rfl

/-- Under every key there is what both lists have there. -/
theorem get?_union (distinct : (right.map Prod.fst).Nodup) (key : String) :
    get? (union join left right) key = Option.merge join (get? left key) (get? right key) := by
  induction right generalizing left with
  | nil =>
    show get? left key = Option.merge join (get? left key) none
    cases get? left key <;> rfl
  | cons entry rest ih =>
    obtain ⟨k, added⟩ := entry
    obtain ⟨fresh, later⟩ := List.nodup_cons.mp distinct
    rw [union_cons, ih later, get?_insert, get?]
    by_cases here : k = key
    · subst here
      rw [if_pos rfl, if_pos rfl, get?_eq_none_iff.mpr fresh]
      cases get? left k <;> rfl
    · rw [if_neg here, if_neg here]

theorem nodup_union (distinct : (left.map Prod.fst).Nodup) (right : Keyed α) :
    ((union join left right).map Prod.fst).Nodup := by
  induction right generalizing left with
  | nil => exact distinct
  | cons entry rest ih => exact ih (nodup_insert distinct)

theorem keys_insert_of_mem {entries : Keyed α} {key : String} (value : α)
    (known : key ∈ entries.map Prod.fst) :
    (insert entries key value).map Prod.fst = entries.map Prod.fst := by
  induction entries with
  | nil => cases known
  | cons entry rest ih =>
    obtain ⟨k, v⟩ := entry
    rw [insert]
    by_cases here : k = key
    · rw [if_pos here, List.map_cons, List.map_cons, here]
    · rw [if_neg here, List.map_cons, List.map_cons,
        ih ((List.mem_cons.mp known).resolve_left fun same => here same.symm)]

/-- The keys of the first list come first, in their order. -/
theorem keys_union (distinct : (right.map Prod.fst).Nodup) :
    (union join left right).map Prod.fst = left.map Prod.fst ++
      (right.map Prod.fst).filter fun key => key ∉ left.map Prod.fst := by
  induction right generalizing left with
  | nil => exact (List.append_nil _).symm
  | cons entry rest ih =>
    obtain ⟨k, added⟩ := entry
    obtain ⟨fresh, later⟩ := List.nodup_cons.mp distinct
    rw [union_cons, ih later, List.map_cons]
    by_cases here : k ∈ left.map Prod.fst
    · rw [keys_insert_of_mem _ here, List.filter_cons_of_neg (by simpa using here)]
    · rw [insert_of_not_mem here, List.map_append, List.filter_cons_of_pos (by simpa using here),
        List.append_assoc]
      refine congrArg (left.map Prod.fst ++ k :: ·) (List.filter_congr fun key known => ?_)
      have other : key ≠ k := fun same => fresh (same ▸ known)
      simp [other]

/-- Lists with distinct keys are told by the order of their keys and by what they have there. -/
theorem ext_get? (distinct : (left.map Prod.fst).Nodup)
    (keys : left.map Prod.fst = right.map Prod.fst)
    (same : ∀ key, get? left key = get? right key) : left = right := by
  induction left generalizing right with
  | nil => exact (List.map_eq_nil_iff.mp keys.symm).symm
  | cons entry rest ih =>
    obtain ⟨k, v⟩ := entry
    cases right with
    | nil => cases keys
    | cons entry' rest' =>
      obtain ⟨k', v'⟩ := entry'
      obtain ⟨rfl, others⟩ := List.cons.inj keys
      obtain ⟨fresh, later⟩ := List.nodup_cons.mp distinct
      have first := same k
      rw [get?, get?, if_pos rfl, if_pos rfl] at first
      cases first
      refine congrArg _ (ih later others fun key => ?_)
      by_cases here : k = key
      · subst here
        rw [get?_eq_none_iff.mpr fresh, get?_eq_none_iff.mpr (others ▸ fresh)]
      · have rest := same key
        rwa [get?, get?, if_neg here, if_neg here] at rest

/-- Joining is associative if joining what the three lists have under one key is. -/
theorem union_assoc (distinctLeft : (left.map Prod.fst).Nodup)
    (distinctMiddle : (middle.map Prod.fst).Nodup) (distinctRight : (right.map Prod.fst).Nodup)
    (assoc : ∀ key a b c, get? left key = some a → get? middle key = some b →
      get? right key = some c → join (join a b) c = join a (join b c)) :
    union join (union join left middle) right = union join left (union join middle right) := by
  have distinct := nodup_union join distinctMiddle right
  refine ext_get? (nodup_union join (nodup_union join distinctLeft middle) right) ?_ fun key => ?_
  · rw [keys_union join distinctRight, keys_union join distinctMiddle, keys_union join distinct,
      keys_union join distinctRight, List.filter_append, List.append_assoc, List.filter_filter]
    refine congrArg _ (congrArg _ (List.filter_congr fun key _ => ?_))
    by_cases first : key ∈ left.map Prod.fst <;>
      by_cases second : key ∈ middle.map Prod.fst <;> simp [first, second]
  · rw [get?_union join distinctRight, get?_union join distinctMiddle, get?_union join distinct,
      get?_union join distinctRight]
    cases first : get? left key <;> cases second : get? middle key <;>
      cases third : get? right key <;> try rfl
    exact congrArg some (assoc key _ _ _ first second third)

end GraphRead.Keyed
