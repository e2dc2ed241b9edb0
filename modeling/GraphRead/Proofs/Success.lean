import GraphRead.Fallible
import Mathlib.Data.List.Forall2
/-!
What a computation yields if it succeeds.

`Except.toOption` forgets why a computation fails. What is left of a sequence does not depend on
the order of its parts (`bind_in_turn`), so a whole that is made step by step for many items can be
rearranged into one that is made item by item (`mapM_bind_mapM`, `mapM_bind_zip`). A list of
computations succeeds exactly if each of them does (`mapM_eq_some`, `isSome_mapM`), and yields the
same in another order (`mapM_perm`).
-/

namespace GraphRead.Success

variable {ε φ α β γ δ : Type}

/-! ### Forgetting the reason of a failure -/

theorem toOption_eq_some {x : Except ε α} {a : α} : x.toOption = some a ↔ x = .ok a := by
  cases x with
  | error e => exact ⟨fun done => (nomatch done), fun done => (nomatch done)⟩
  | ok b =>
    refine ⟨fun done => ?_, fun done => ?_⟩
    · rw [Option.some.inj done]
    · rw [Except.ok.inj done]; rfl

@[simp] theorem toOption_ok (a : α) : (Except.ok a : Except ε α).toOption = some a := rfl

@[simp] theorem toOption_error (e : ε) : (Except.error e : Except ε α).toOption = none := rfl

@[simp] theorem toOption_pure (a : α) : (pure a : Except ε α).toOption = some a := rfl

@[simp] theorem toOption_bind (x : Except ε α) (f : α → Except ε β) :
    (x >>= f).toOption = x.toOption.bind fun a => (f a).toOption := by
  cases x <;> rfl

@[simp] theorem toOption_map (x : Except ε α) (f : α → β) :
    (x.map f).toOption = x.toOption.map f := by
  cases x <;> rfl

@[simp] theorem toOption_mapError (x : Except ε α) (f : ε → φ) :
    (x.mapError f).toOption = x.toOption := by
  cases x <;> rfl

theorem isSome_toOption (x : Except ε α) : x.toOption.isSome = x.isOk := by
  cases x <;> rfl

theorem exists_of_isOk_map {x : Except ε α} {f : α → β} (done : (x.map f).isOk) :
    ∃ a, x = .ok a := by
  cases x with
  | error e => cases done
  | ok a => exact ⟨a, rfl⟩

theorem bind_some_map (x : Option α) (f : α → β) : (x.bind fun a => some (f a)) = x.map f := by
  cases x <;> rfl

theorem toOption_mapM (f : α → Except ε β) (items : List α) :
    (items.mapM f).toOption = items.mapM fun a => (f a).toOption := by
  induction items with
  | nil => rfl
  | cons a rest ih =>
    rw [List.mapM_cons, List.mapM_cons, toOption_bind, ← ih]
    refine congrArg (Option.bind _) (funext fun b => ?_)
    rw [toOption_bind]
    rfl

theorem toOption_foldlM (f : β → α → Except ε β) (start : β) (items : List α) :
    (items.foldlM f start).toOption = items.foldlM (fun b a => (f b a).toOption) start := by
  induction items generalizing start with
  | nil => rfl
  | cons a rest ih => simp [List.foldlM_cons, ih]

/-! ### Steps that do not need each other -/

/-- Two computations of two steps each can be made in turn: the second steps need not wait for the
first step of the other computation. -/
theorem bind_in_turn (p : Option α) (q : Option β) (r : α → Option γ) (s : β → Option δ)
    (f : γ → Option ε) (g : ε → δ → Option φ) :
    (p.bind fun a => q.bind fun b => (r a).bind fun c => (s b).bind fun d =>
        (f c).bind fun e => g e d) =
      (p.bind fun a => (r a).bind f).bind fun e => q.bind fun b => (s b).bind (g e) := by
  rw [Option.bind_assoc]
  refine congrArg (Option.bind p) (funext fun a => ?_)
  rw [Option.bind_comm, Option.bind_assoc]
  refine congrArg (Option.bind (r a)) (funext fun c => ?_)
  calc (q.bind fun b => (s b).bind fun d => (f c).bind fun e => g e d)
    _ = q.bind fun b => (f c).bind fun e => (s b).bind (g e) :=
        congrArg (Option.bind q) (funext fun b => Option.bind_comm ..)
    _ = (f c).bind fun e => q.bind fun b => (s b).bind (g e) := Option.bind_comm ..

/-! ### Lists of computations -/

/-- A list of computations yields a list exactly if they yield its members. -/
theorem mapM_eq_some {f : α → Option β} {items : List α} {found : List β} :
    items.mapM f = some found ↔ items.map f = found.map some := by
  induction items generalizing found with
  | nil => cases found <;> simp
  | cons a rest ih =>
    rw [List.mapM_cons, List.map_cons]
    constructor
    · intro done
      obtain ⟨b, here, done⟩ := Option.bind_eq_some_iff.mp done
      obtain ⟨bs, later, done⟩ := Option.bind_eq_some_iff.mp done
      cases done
      rw [here, ih.mp later]; rfl
    · intro same
      cases found with
      | nil => cases same
      | cons b bs =>
        obtain ⟨here, later⟩ := List.cons.inj same
        rw [here, ih.mpr later]; rfl

theorem length_of_mapM {f : α → Option β} {items : List α} {found : List β}
    (done : items.mapM f = some found) : found.length = items.length := by
  have same := congrArg List.length (mapM_eq_some.mp done)
  rw [List.length_map, List.length_map] at same
  exact same.symm

/-- Whatever a list of computations yields, one of them does. -/
theorem exists_of_mem_mapM {f : α → Option β} {items : List α} {found : List β}
    (done : items.mapM f = some found) {b : β} (present : b ∈ found) :
    ∃ a ∈ items, f a = some b := by
  have made : some b ∈ items.map f := by
    rw [mapM_eq_some.mp done]
    exact List.mem_map_of_mem present
  exact List.mem_map.mp made

theorem exists_of_mem_mapM_ok {f : α → Except ε β} {items : List α} {found : List β}
    (done : items.mapM f = .ok found) {b : β} (present : b ∈ found) :
    ∃ a ∈ items, f a = .ok b := by
  have yielded := toOption_mapM f items
  rw [done] at yielded
  obtain ⟨a, known, same⟩ := exists_of_mem_mapM yielded.symm present
  exact ⟨a, known, toOption_eq_some.mp same⟩

/-- A list of computations succeeds exactly if each of them does. -/
theorem isSome_mapM {f : α → Option β} {items : List α} :
    (items.mapM f).isSome ↔ ∀ a ∈ items, (f a).isSome := by
  induction items with
  | nil => simp
  | cons a rest ih =>
    rw [List.forall_mem_cons, ← ih, List.mapM_cons]
    cases f a with
    | none => simp
    | some b => cases rest.mapM f <;> simp

theorem exists_mapM_ok {f : α → Except ε β} {items : List α}
    (each : ∀ a ∈ items, ∃ b, f a = .ok b) : ∃ found, items.mapM f = .ok found := by
  have all : (items.mapM fun a => (f a).toOption).isSome := isSome_mapM.mpr fun a present => by
    obtain ⟨b, done⟩ := each a present
    rw [done]
    rfl
  obtain ⟨found, yielded⟩ := Option.isSome_iff_exists.mp all
  exact ⟨found, toOption_eq_some.mp ((toOption_mapM f items).trans yielded)⟩

theorem forall_of_mapM_ok {f : α → Except ε β} {items : List α} {found : List β}
    (done : items.mapM f = .ok found) : ∀ a ∈ items, ∃ b, f a = .ok b := by
  have yielded := toOption_mapM f items
  rw [done, toOption_ok] at yielded
  intro a present
  obtain ⟨b, here⟩ := Option.isSome_iff_exists.mp
    (isSome_mapM.mp (Option.isSome_of_eq_some yielded.symm) a present)
  exact ⟨b, toOption_eq_some.mp here⟩

theorem exists_mem_of_mapM_ok {f : α → Except ε β} {items : List α} {found : List β}
    (done : items.mapM f = .ok found) : ∀ a ∈ items, ∃ b ∈ found, f a = .ok b := by
  have yielded := toOption_mapM f items
  rw [done, toOption_ok] at yielded
  intro a present
  have made : (f a).toOption ∈ found.map some := by
    rw [← mapM_eq_some.mp yielded.symm]
    exact List.mem_map_of_mem present
  obtain ⟨b, known, same⟩ := List.mem_map.mp made
  exact ⟨b, known, toOption_eq_some.mp same.symm⟩

/-- A list of computations fails exactly if one of them does. -/
theorem mapM_eq_none {f : α → Option β} {items : List α} :
    items.mapM f = none ↔ ∃ a ∈ items, f a = none := by
  rw [← Option.not_isSome_iff_eq_none, isSome_mapM]
  constructor
  · intro failed
    obtain ⟨a, failed⟩ := Classical.not_forall.mp failed
    obtain ⟨present, failed⟩ := Classical.not_forall.mp failed
    exact ⟨a, present, Option.not_isSome_iff_eq_none.mp failed⟩
  · rintro ⟨a, present, here⟩ all
    have found := all a present
    rw [here] at found
    cases found

theorem mapM_congr {m : Type → Type} [Monad m] [LawfulMonad m] {f g : α → m β} {items : List α}
    (same : ∀ a ∈ items, f a = g a) : items.mapM f = items.mapM g := by
  induction items with
  | nil => rfl
  | cons a rest ih =>
    rw [List.mapM_cons, List.mapM_cons, same a List.mem_cons_self,
      ih fun b present => same b (List.mem_cons_of_mem _ present)]

theorem mapM_map (f : β → Option γ) (g : α → β) (items : List α) :
    (items.map g).mapM f = items.mapM fun a => f (g a) := by
  induction items with
  | nil => rfl
  | cons a rest ih => rw [List.map_cons, List.mapM_cons, List.mapM_cons, ih]

/-- Lists of computations one after the other are one list of computations. -/
theorem mapM_flatMap (f : β → Option γ) (g : α → List β) (items : List α) :
    (items.mapM fun a => (g a).mapM f).map List.flatten = (items.flatMap g).mapM f := by
  induction items with
  | nil => rfl
  | cons a rest ih =>
    rw [List.flatMap_cons, List.mapM_append, ← ih, List.mapM_cons]
    cases (g a).mapM f with
    | none => rfl
    | some bs => cases rest.mapM fun a => (g a).mapM f <;> simp

/-- Computations that cannot fail. -/
theorem mapM_some (g : α → β) (items : List α) :
    items.mapM (fun a => some (g a)) = some (items.map g) :=
  mapM_eq_some.mpr (List.map_map ..).symm

/-- A first step for all items and then a second one is both steps for each item. -/
theorem mapM_bind_mapM (f : α → Option β) (g : β → Option γ) (items : List α) :
    ((items.mapM f).bind fun found => found.mapM g) = items.mapM fun a => (f a).bind g := by
  induction items with
  | nil => rfl
  | cons a rest ih =>
    rw [List.mapM_cons, List.mapM_cons, ← ih]
    cases f a with
    | none => rfl
    | some b =>
      cases rest.mapM f with
      | none => cases here : g b <;> simp [here]
      | some bs => simp [List.mapM_cons]

/-- A second step that looks at the item again. -/
theorem mapM_bind_zip (f : α → Option β) (g : α → β → Option γ) (items : List α) :
    ((items.mapM f).bind fun found => (items.zip found).mapM fun entry => g entry.1 entry.2) =
      items.mapM fun a => (f a).bind (g a) := by
  induction items with
  | nil => rfl
  | cons a rest ih =>
    rw [List.mapM_cons, List.mapM_cons, ← ih]
    cases f a with
    | none => rfl
    | some b =>
      cases rest.mapM f with
      | none => cases here : g a b <;> simp [here]
      | some bs => simp [List.mapM_cons]

/-- What is found, with the items that it is found for. -/
theorem mapM_zip (f : α → Option β) (items : List α) :
    ((items.mapM f).map fun found => items.zip found) = items.mapM fun a => (f a).map (a, ·) := by
  induction items with
  | nil => rfl
  | cons a rest ih =>
    rw [List.mapM_cons, List.mapM_cons, ← ih]
    cases f a with
    | none => rfl
    | some b => cases rest.mapM f <;> simp

theorem eq_some_of_mem_zip {f : α → Option β} {items : List α} {found : List β}
    (done : items.mapM f = some found) {a : α} {b : β} (present : (a, b) ∈ items.zip found) :
    f a = some b := by
  have paired := mapM_zip f items
  rw [done] at paired
  obtain ⟨a', -, same⟩ := exists_of_mem_mapM paired.symm present
  obtain ⟨b', yielded, same⟩ := Option.map_eq_some_iff.mp same
  cases same
  exact yielded

theorem mapM_map_result (f : α → Option β) (g : β → γ) (items : List α) :
    (items.mapM f).map (List.map g) = items.mapM fun a => (f a).map g := by
  have steps := mapM_bind_mapM f (fun b => some (g b)) items
  simp only [mapM_some] at steps
  have each : (fun a => (f a).map g) = fun a => (f a).bind fun b => some (g b) := by
    funext a
    rw [bind_some_map]
  rw [each, ← steps, bind_some_map]

/-- Each result of a list of computations may be changed along with its item. -/
theorem mapM_map_zipWith (f : α → Except ε β) (g : α → β → γ) (items : List α) :
    (items.mapM fun a => (f a).map (g a)) = (items.mapM f).map (List.zipWith g items) := by
  induction items with
  | nil => rfl
  | cons a rest ih =>
    rw [List.mapM_cons, List.mapM_cons, ih]
    cases f a with
    | error e => rfl
    | ok b => cases rest.mapM f <;> rfl

/-- Going through some items step by step for a whole list is doing so for each of its members. -/
theorem foldlM_mapM (step : β → α → Option β) (items : List α) (starts : List β) :
    items.foldlM (fun starts a => starts.mapM fun b => step b a) starts =
      starts.mapM fun b => items.foldlM step b := by
  induction items generalizing starts with
  | nil => exact (mapM_some (fun b => b) starts).symm ▸ congrArg some (List.map_id' starts).symm
  | cons a rest ih =>
    rw [List.foldlM_cons]
    show ((starts.mapM fun b => step b a).bind fun starts => _) = _
    simp only [ih, mapM_bind_mapM]
    rfl

/-- What is said of the items by what is said of what they yield. -/
theorem map_eq_of_mapM {f : α → Option β} {g : β → γ} {h : α → γ} {items : List α}
    {found : List β} (done : items.mapM f = some found)
    (each : ∀ a ∈ items, ∀ b, f a = some b → g b = h a) : found.map g = items.map h := by
  induction items generalizing found with
  | nil => cases done; rfl
  | cons a rest ih =>
    rw [List.mapM_cons] at done
    obtain ⟨b, here, done⟩ := Option.bind_eq_some_iff.mp done
    obtain ⟨bs, later, done⟩ := Option.bind_eq_some_iff.mp done
    cases done
    rw [List.map_cons, List.map_cons, each a List.mem_cons_self b here,
      ih later fun a present => each a (List.mem_cons_of_mem _ present)]

/-- What is said alike of what two computations yield for each item. -/
theorem map_eq_map_of_mapM {f : α → Option β} {f' : α → Option γ} {g : β → δ} {g' : γ → δ}
    {items : List α} {found : List β} {found' : List γ}
    (done : items.mapM f = some found) (done' : items.mapM f' = some found')
    (each : ∀ a ∈ items, ∀ b c, f a = some b → f' a = some c → g b = g' c) :
    found.map g = found'.map g' := by
  induction items generalizing found found' with
  | nil => cases done; cases done'; rfl
  | cons a rest ih =>
    rw [List.mapM_cons] at done done'
    obtain ⟨b, here, done⟩ := Option.bind_eq_some_iff.mp done
    obtain ⟨bs, later, done⟩ := Option.bind_eq_some_iff.mp done
    obtain ⟨c, here', done'⟩ := Option.bind_eq_some_iff.mp done'
    obtain ⟨cs, later', done'⟩ := Option.bind_eq_some_iff.mp done'
    cases done
    cases done'
    rw [List.map_cons, List.map_cons, each a List.mem_cons_self b c here here',
      ih later later' fun a present => each a (List.mem_cons_of_mem _ present)]

/-- Items can be left out before or after a computation that keeps what they are chosen by. -/
theorem filter_mapM {f : α → Option β} {keep : α → Bool} {keep' : β → Bool} {items : List α}
    {found : List β} (kept : ∀ a ∈ items, ∀ b, f a = some b → keep' b = keep a)
    (done : items.mapM f = some found) :
    (items.filter keep).mapM f = some (found.filter keep') := by
  induction items generalizing found with
  | nil => cases done; rfl
  | cons a rest ih =>
    rw [List.mapM_cons] at done
    obtain ⟨b, here, done⟩ := Option.bind_eq_some_iff.mp done
    obtain ⟨bs, later, done⟩ := Option.bind_eq_some_iff.mp done
    cases done
    have others := ih (fun a' present => kept a' (List.mem_cons_of_mem _ present)) later
    have same := kept a List.mem_cons_self b here
    by_cases chosen : keep a
    · rw [List.filter_cons_of_pos chosen, List.filter_cons_of_pos (by rw [same]; exact chosen),
        List.mapM_cons, here, others]
      rfl
    · rw [List.filter_cons_of_neg chosen, List.filter_cons_of_neg (by rw [same]; exact chosen),
        others]

/-! ### Lists of computations in another order -/

/-- Related lists of computations that yield the same one by one yield the same. -/
theorem mapM_matched {related : α → β → Prop} {f : α → Option γ} {g : β → Option γ}
    {items : List α} {others : List β} (matched : List.Forall₂ related items others)
    (same : ∀ a ∈ items, ∀ b, related a b → g b = f a) : others.mapM g = items.mapM f := by
  induction matched with
  | nil => rfl
  | cons first _ ih =>
    rw [List.mapM_cons, List.mapM_cons, same _ List.mem_cons_self _ first,
      ih fun a present => same a (List.mem_cons_of_mem _ present)]

/-- What a list of computations yields, one by one. -/
theorem mapM_eq_map {f : α → Option β} {items : List α} {found : List β}
    (done : items.mapM f = some found) (d : β) : found = items.map fun a => (f a).getD d := by
  have same := congrArg (List.map fun b => b.getD d) (mapM_eq_some.mp done)
  rw [List.map_map, List.map_map] at same
  exact (List.map_id found).symm.trans same.symm

/-- A list of computations that succeeds does so in every order. -/
theorem mapM_perm {f : α → Option β} {items others : List α} (perm : items.Perm others)
    {found : List β} (done : items.mapM f = some found) (d : β) :
    others.mapM f = some (others.map fun a => (f a).getD d) := by
  have all : (items.mapM f).isSome := by
    rw [done]
    rfl
  rw [← mapM_some]
  refine mapM_congr fun a present => ?_
  obtain ⟨b, there⟩ := Option.isSome_iff_exists.mp
    (isSome_mapM.mp all a (perm.mem_iff.mpr present))
  rw [there]
  rfl

theorem mapM_perm_none {f : α → Option β} {items others : List α} (perm : items.Perm others)
    (failed : items.mapM f = none) : others.mapM f = none := by
  obtain ⟨a, present, missing⟩ := mapM_eq_none.mp failed
  exact mapM_eq_none.mpr ⟨a, perm.mem_iff.mp present, missing⟩

/-- What follows related results is the same. -/
theorem bind_eq_of_rel {related : α → β → Prop} {x : Option α} {y : Option β}
    {f : α → Option γ} {g : β → Option γ} (both : Option.Rel related x y)
    (next : ∀ a b, related a b → g b = f a) : y.bind g = x.bind f := by
  cases both with
  | none => rfl
  | some own => exact next _ _ own

end GraphRead.Success
