import GraphRead.Keyed
import Mathlib.Data.List.Perm.Subperm
/-!
Keyed lists with distinct keys: storing a value keeps the keys distinct, and every entry of the
result is the stored one or an old one. What is found under a key after storing or taking out is
told by `get?_insert`, `get?_ofList` and `get?_erase`.
-/

namespace GraphRead.Keyed

variable {α : Type} {entries : Keyed α} {key : String} {value : α}

theorem mem_of_get? (found : get? entries key = some value) : (key, value) ∈ entries := by
  induction entries with
  | nil => cases found
  | cons entry rest ih =>
    obtain ⟨k, v⟩ := entry
    rw [get?] at found
    split at found
    · rename_i same
      cases found
      rw [same]
      exact List.mem_cons_self
    · exact List.mem_cons_of_mem _ (ih found)

theorem hasKey_iff : hasKey entries key = true ↔ key ∈ entries.map Prod.fst := by
  induction entries with
  | nil => simp [hasKey, get?]
  | cons entry rest ih =>
    obtain ⟨k, v⟩ := entry
    by_cases same : k = key
    · simp [hasKey, get?, same]
    · simp only [hasKey] at ih
      simp [hasKey, get?, same, Ne.symm same, ih]

theorem get?_eq_none_iff : get? entries key = none ↔ key ∉ entries.map Prod.fst := by
  rw [← hasKey_iff, hasKey, Option.not_isSome_iff_eq_none]

/-- If distinct keys are all found among as many others, the keys are the same. -/
theorem keys_perm {β : Type} {left : Keyed α} {right : Keyed β}
    (distinct : (left.map Prod.fst).Nodup) (length : left.length = right.length)
    (found : ∀ entry ∈ left, hasKey right entry.1 = true) :
    (left.map Prod.fst).Perm (right.map Prod.fst) := by
  have inside : left.map Prod.fst ⊆ right.map Prod.fst := by
    intro key present
    obtain ⟨entry, known, rfl⟩ := List.mem_map.mp present
    exact hasKey_iff.mp (found entry known)
  exact (List.subperm_of_subset distinct inside).perm_of_length_le (by simp [length])

theorem get?_append (left right : Keyed α) (key : String) :
    get? (left ++ right) key = (get? left key).or (get? right key) := by
  induction left with
  | nil => rfl
  | cons entry rest ih =>
    rw [List.cons_append, get?, get?]
    split
    · rfl
    · exact ih

/-- With distinct keys, every entry is found. -/
theorem get?_of_mem (distinct : (entries.map Prod.fst).Nodup) (present : (key, value) ∈ entries) :
    get? entries key = some value := by
  induction entries with
  | nil => cases present
  | cons entry rest ih =>
    obtain ⟨k, v⟩ := entry
    obtain ⟨fresh, later⟩ := List.nodup_cons.mp distinct
    rw [get?]
    rcases List.mem_cons.mp present with same | there
    · cases same
      exact if_pos rfl
    · rw [if_neg, ih later there]
      intro same
      exact fresh (List.mem_map.mpr ⟨(key, value), there, same.symm⟩)

theorem mem_insert {entry : String × α} (present : entry ∈ insert entries key value) :
    entry = (key, value) ∨ entry ∈ entries := by
  induction entries with
  | nil => exact .inl (List.mem_singleton.mp present)
  | cons first rest ih =>
    obtain ⟨k, v⟩ := first
    rw [insert] at present
    split at present
    · rename_i same
      rcases List.mem_cons.mp present with here | there
      · rw [here, same]
        exact .inl rfl
      · exact .inr (List.mem_cons_of_mem _ there)
    · rcases List.mem_cons.mp present with here | there
      · rw [here]
        exact .inr List.mem_cons_self
      · exact (ih there).imp_right (List.mem_cons_of_mem _)

/-- Whatever is stored from a list of pairs is one of the pairs. -/
theorem mem_of_mem_ofList {pairs : List (String × α)} {entry : String × α}
    (present : entry ∈ ofList pairs) : entry ∈ pairs := by
  suffices general : ∀ before : Keyed α,
      entry ∈ pairs.foldl (fun entries pair => insert entries pair.1 pair.2) before →
        entry ∈ before ∨ entry ∈ pairs by
    exact (general [] present).resolve_left List.not_mem_nil
  clear present
  induction pairs with
  | nil => exact fun before present => .inl present
  | cons pair rest ih =>
    intro before present
    rcases ih _ present with here | there
    · rcases mem_insert here with same | old
      · exact .inr (List.mem_cons.mpr (.inl same))
      · exact .inl old
    · exact .inr (List.mem_cons_of_mem _ there)

theorem nodup_insert (distinct : (entries.map Prod.fst).Nodup) :
    ((insert entries key value).map Prod.fst).Nodup := by
  induction entries with
  | nil => exact List.nodup_cons.mpr ⟨List.not_mem_nil, .nil⟩
  | cons first rest ih =>
    obtain ⟨k, v⟩ := first
    obtain ⟨fresh, later⟩ := List.nodup_cons.mp distinct
    rw [insert]
    split
    · exact distinct
    · rename_i other
      refine List.nodup_cons.mpr ⟨fun known => ?_, ih later⟩
      obtain ⟨entry, there, same⟩ := List.mem_map.mp known
      rcases mem_insert there with here | old
      · rw [here] at same
        exact other same.symm
      · exact fresh (List.mem_map.mpr ⟨entry, old, same⟩)

theorem insert_of_not_mem (fresh : key ∉ entries.map Prod.fst) :
    insert entries key value = entries ++ [(key, value)] := by
  induction entries with
  | nil => rfl
  | cons first rest ih =>
    obtain ⟨k, v⟩ := first
    obtain ⟨differ, later⟩ := not_or.mp (fun known => fresh (List.mem_cons.mpr known))
    rw [insert, if_neg fun same => differ same.symm, ih later, List.cons_append]

/-- Storing pairs with distinct keys keeps them as they are. -/
theorem ofList_of_nodup {pairs : List (String × α)} (distinct : (pairs.map Prod.fst).Nodup) :
    ofList pairs = pairs := by
  suffices general : ∀ before : Keyed α, ((before ++ pairs).map Prod.fst).Nodup →
      pairs.foldl (fun entries pair => insert entries pair.1 pair.2) before = before ++ pairs by
    exact general [] distinct
  clear distinct
  induction pairs with
  | nil => exact fun before _ => (List.append_nil before).symm
  | cons pair rest ih =>
    intro before distinct
    have fresh : pair.1 ∉ before.map Prod.fst := by
      rw [List.map_append] at distinct
      intro known
      exact (List.nodup_append.mp distinct).2.2 _ known _ List.mem_cons_self rfl
    have whole : before ++ pair :: rest = (before ++ [pair]) ++ rest := by
      rw [List.append_assoc, List.singleton_append]
    rw [List.foldl_cons, insert_of_not_mem fresh, whole]
    rw [whole] at distinct
    exact ih _ distinct

theorem nodup_ofList (pairs : List (String × α)) : ((ofList pairs).map Prod.fst).Nodup := by
  suffices general : ∀ before : Keyed α, (before.map Prod.fst).Nodup →
      ((pairs.foldl (fun entries pair => insert entries pair.1 pair.2) before).map
        Prod.fst).Nodup from general [] .nil
  induction pairs with
  | nil => exact fun _ distinct => distinct
  | cons pair rest ih => exact fun before distinct => ih _ (nodup_insert distinct)

theorem get?_insert (entries : Keyed α) (key other : String) (value : α) :
    get? (insert entries key value) other = if key = other then some value else
      get? entries other := by
  induction entries with
  | nil => rfl
  | cons entry rest ih =>
    obtain ⟨k, v⟩ := entry
    rw [insert]
    by_cases same : k = key
    · rw [if_pos same, get?, get?, same]
      split <;> rfl
    · rw [if_neg same, get?, get?, ih]
      by_cases here : k = other
      · rw [if_pos here, if_pos here, if_neg fun there => same (here.trans there.symm)]
      · rw [if_neg here, if_neg here]

/-- Of the pairs that are stored under one key the last one stays. -/
theorem get?_ofList (pairs : List (String × α)) (key : String) :
    get? (ofList pairs) key = (pairs.reverse.find? fun pair => pair.1 = key).map Prod.snd := by
  suffices general : ∀ before : Keyed α,
      get? (pairs.foldl (fun entries pair => insert entries pair.1 pair.2) before) key =
        ((pairs.reverse.find? fun pair => pair.1 = key).map Prod.snd).or (get? before key) by
    exact (general []).trans (Option.or_none ..)
  induction pairs with
  | nil => exact fun _ => rfl
  | cons pair rest ih =>
    intro before
    rw [List.foldl_cons, ih, get?_insert, List.reverse_cons, List.find?_append]
    by_cases same : pair.1 = key
    · cases rest.reverse.find? fun pair => pair.1 = key <;> simp [same]
    · cases rest.reverse.find? fun pair => pair.1 = key <;> simp [same]

theorem mem_of_mem_erase {entry : String × α} (present : entry ∈ erase entries key) :
    entry ∈ entries := by
  induction entries with
  | nil => exact present
  | cons first rest ih =>
    rw [erase] at present
    split at present
    · exact List.mem_cons_of_mem _ present
    · rcases List.mem_cons.mp present with here | there
      · exact List.mem_cons.mpr (.inl here)
      · exact List.mem_cons_of_mem _ (ih there)

theorem nodup_erase (distinct : (entries.map Prod.fst).Nodup) :
    ((erase entries key).map Prod.fst).Nodup := by
  induction entries with
  | nil => exact distinct
  | cons first rest ih =>
    obtain ⟨fresh, later⟩ := List.nodup_cons.mp distinct
    rw [erase]
    split
    · exact later
    · refine List.nodup_cons.mpr ⟨fun known => ?_, ih later⟩
      obtain ⟨entry, there, same⟩ := List.mem_map.mp known
      exact fresh (List.mem_map.mpr ⟨entry, mem_of_mem_erase there, same⟩)

/-- With distinct keys, what is taken out is gone, and all else is where it was. -/
theorem get?_erase (distinct : (entries.map Prod.fst).Nodup) (key other : String) :
    get? (erase entries key) other = if key = other then none else get? entries other := by
  induction entries with
  | nil => exact (ite_self none).symm
  | cons first rest ih =>
    obtain ⟨k, v⟩ := first
    obtain ⟨fresh, later⟩ := List.nodup_cons.mp distinct
    rw [erase]
    by_cases same : k = key
    · subst same
      rw [if_pos rfl, get?]
      by_cases here : k = other
      · subst here
        rw [if_pos rfl]
        cases found : get? rest k with
        | none => rfl
        | some v => exact absurd (List.mem_map.mpr ⟨_, mem_of_get? found, rfl⟩) fresh
      · rw [if_neg here, if_neg here]
    · rw [if_neg same, get?, get?, ih later]
      by_cases here : k = other
      · rw [if_pos here, if_pos here, if_neg fun there => same (here.trans there.symm)]
      · rw [if_neg here, if_neg here]

end GraphRead.Keyed
