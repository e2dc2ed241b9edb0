import GraphRead.Proofs.Document.Headed
import GraphRead.Proofs.InStep
/-!
Selections that hold some of their fragments again.

A list repeats another one if it has the same members in the same order, with members among them
that stood there before (`Repeating`). Fields that are repeated are merged, so of a selection with
repeated items only the lists of fragments under its conditions grow (`Selection.Repeats`), on
every level. Taking over such a selection goes as it goes without the repetitions
(`Selection.splice_inStep`): whether two selections fit depends on their names and arguments alone.
-/

namespace GraphRead

/-! ### Lists with repetitions -/

/-- The members of one list are those of the other in the same order, and behind them or between
them such that stood there before. The members in `seen` stood before both lists. -/
inductive Repeating {α β : Type} (again : α → β → Prop) : List α → List α → List β → Prop
  | done {seen : List α} : Repeating again seen [] []
  | next {seen rest : List α} {others : List β} {a : α} {b : β} (same : again a b)
    (later : Repeating again (a :: seen) rest others) :
    Repeating again seen (a :: rest) (b :: others)
  | more {seen rest : List α} {others : List β} {a : α} {b : β} (known : a ∈ seen)
    (same : again a b) (later : Repeating again seen rest others) :
    Repeating again seen rest (b :: others)

namespace Repeating

variable {α β : Type} {again : α → β → Prop} {seen items : List α} {others : List β}

theorem mono (repeating : Repeating again seen items others) {known : List α}
    (all : ∀ a ∈ seen, a ∈ known) : Repeating again known items others := by
  induction repeating generalizing known with
  | done => exact .done
  | next same later ih =>
    refine .next same (ih fun a present => ?_)
    rcases List.mem_cons.mp present with rfl | old
    · exact List.mem_cons_self
    · exact List.mem_cons_of_mem _ (all a old)
  | more old same later ih => exact .more (all _ old) same (ih all)

theorem refl {again : α → α → Prop} (each : ∀ a ∈ items, again a a) :
    Repeating again seen items items := by
  induction items generalizing seen with
  | nil => exact .done
  | cons a rest ih =>
    rw [List.forall_mem_cons] at each
    exact .next each.1 (ih each.2)

/-- Every member is a member of the list without repetitions, or one that stood there before. -/
theorem source (repeating : Repeating again seen items others) :
    ∀ b ∈ others, ∃ a ∈ seen ++ items, again a b := by
  induction repeating with
  | done => exact List.forall_mem_nil _
  | @next seen rest others a b same later ih =>
    rw [List.forall_mem_cons]
    refine ⟨⟨a, by simp, same⟩, fun b present => ?_⟩
    obtain ⟨a', known, same⟩ := ih b present
    exact ⟨a', List.perm_middle.mem_iff.mpr known, same⟩
  | @more seen rest others a b known same later ih =>
    rw [List.forall_mem_cons]
    exact ⟨⟨a, List.mem_append_left _ known, same⟩, ih⟩

/-- Every member of the list without repetitions is there. -/
theorem target (repeating : Repeating again seen items others) :
    ∀ a ∈ items, ∃ b ∈ others, again a b := by
  induction repeating with
  | done => exact List.forall_mem_nil _
  | @next seen rest others a b same later ih =>
    refine List.forall_mem_cons.mpr ⟨⟨b, List.mem_cons_self, same⟩, fun a' present => ?_⟩
    obtain ⟨b', there, same'⟩ := ih a' present
    exact ⟨b', List.mem_cons_of_mem _ there, same'⟩
  | more known same later ih =>
    intro a present
    obtain ⟨b', there, same'⟩ := ih a present
    exact ⟨b', List.mem_cons_of_mem _ there, same'⟩

/-- Behind a list what stands in it can be repeated. -/
theorem repeated (repeating : Repeating again seen items others) {copies : List β}
    (known : ∀ b ∈ copies, ∃ a ∈ seen ++ items, again a b) :
    Repeating again seen items (others ++ copies) := by
  induction repeating with
  | @done seen =>
    induction copies with
    | nil => exact .done
    | cons b rest ih =>
      rw [List.forall_mem_cons] at known
      obtain ⟨⟨a, present, same⟩, later⟩ := known
      rw [List.append_nil] at present
      exact .more present same (ih later)
  | @next seen rest others a b same later ih =>
    refine .next same (ih fun b present => ?_)
    obtain ⟨a', there, same⟩ := known b present
    exact ⟨a', List.perm_middle.mem_iff.mp there, same⟩
  | more old same later ih => exact .more old same (ih known)

theorem append (repeating : Repeating again seen items others) {items' : List α}
    {others' : List β} (later : Repeating again [] items' others') :
    Repeating again seen (items ++ items') (others ++ others') := by
  induction repeating with
  | done => exact later.mono (List.forall_mem_nil _)
  | next same _ ih => exact .next same ih
  | more known same _ ih => exact .more known same ih

theorem map {γ δ : Type} {f : α → γ} {g : β → δ} {again' : γ → δ → Prop}
    (repeating : Repeating again seen items others)
    (each : ∀ a b, again a b → again' (f a) (g b)) :
    Repeating again' (seen.map f) (items.map f) (others.map g) := by
  induction repeating with
  | done => exact .done
  | next same _ ih => exact .next (each _ _ same) ih
  | more known same _ ih => exact .more (List.mem_map_of_mem known) (each _ _ same) ih

end Repeating

namespace Selection

/-! ### Selections with repetitions -/

/-- A selection asks what another one asks, and holds some fragments again. In the one without
repetitions children stand under their output keys, and no key, no argument and no condition is
there twice. -/
inductive Repeats : Selection → Selection → Prop
  | intro {s t : Selection} (name : t.name = s.name) (aliasName : t.aliasName = s.aliasName)
    (arguments : t.arguments = s.arguments) (named : (s.arguments.map Prod.fst).Nodup)
    (keyed : ∀ entry ∈ s.children, entry.1 = entry.2.outputKey)
    (distinct : (s.children.map Prod.fst).Nodup)
    (conditions : (s.fragments.map Prod.fst).Nodup)
    (children : Keyed.Both Repeats s.children t.children)
    (fragments : Keyed.Both (Repeating Repeats []) s.fragments t.fragments) : Repeats s t

namespace Repeats

variable {s t : Selection}

theorem name (r : Repeats s t) : t.name = s.name := by cases r; assumption

theorem aliasName (r : Repeats s t) : t.aliasName = s.aliasName := by cases r; assumption

theorem arguments (r : Repeats s t) : t.arguments = s.arguments := by cases r; assumption

theorem named (r : Repeats s t) : (s.arguments.map Prod.fst).Nodup := by cases r; assumption

theorem keyed (r : Repeats s t) : ∀ entry ∈ s.children, entry.1 = entry.2.outputKey := by
  cases r; assumption

theorem distinct (r : Repeats s t) : (s.children.map Prod.fst).Nodup := by cases r; assumption

theorem conditions (r : Repeats s t) : (s.fragments.map Prod.fst).Nodup := by
  cases r; assumption

theorem children (r : Repeats s t) : Keyed.Both Repeats s.children t.children := by
  cases r; assumption

theorem fragments (r : Repeats s t) :
    Keyed.Both (Repeating Repeats []) s.fragments t.fragments := by cases r; assumption

theorem outputKey (r : Repeats s t) : t.outputKey = s.outputKey := by
  rw [Selection.outputKey, Selection.outputKey, r.name, r.aliasName]

end Repeats

/-! ### What changes come to -/

theorem place_result (s child : Selection) (merge : Selection → Change) :
    (place s child merge).result = match Keyed.get? s.children child.outputKey with
      | none => .ok { s with children := Keyed.insert s.children child.outputKey child }
      | some there =>
        if there.name ≠ child.name then .error child.outputKey
        else if !sameArguments there.arguments child.arguments then .error there.outputKey
        else (merge there).result.map fun merged =>
          { s with children := Keyed.insert s.children child.outputKey merged } := by
  unfold place
  cases Keyed.get? s.children child.outputKey with
  | none => rfl
  | some there =>
    dsimp only
    split
    · rfl
    · split
      · rfl
      · unfold Change.result
        cases (merge there).conflict <;> rfl

theorem spliceChildren_result (s : Selection) (entry : String × Selection)
    (rest : List (String × Selection)) :
    (spliceChildren s (entry :: rest)).result =
      (place s entry.2 fun there => splice there entry.2).result >>= fun next =>
        (spliceChildren next rest).result := by
  rw [spliceChildren]
  generalize place s entry.2 (fun there => splice there entry.2) = change
  obtain ⟨next, conflict⟩ := change
  cases conflict <;> rfl

theorem splice_result (s other : Selection) :
    (splice s other).result = (spliceChildren s other.children).result.map fun spliced =>
      { spliced with fragments := addFragments spliced.fragments other.fragments } := by
  obtain ⟨name, aliasName, arguments, children, fragments⟩ := other
  rw [splice]
  dsimp only
  generalize spliceChildren s children = change
  obtain ⟨next, conflict⟩ := change
  cases conflict <;> rfl

/-- A selection that takes over another one keeps its name, its alias and its arguments. -/
theorem head_of_splice {s other next : Selection} (done : (splice s other).result = .ok next) :
    next.name = s.name ∧ next.aliasName = s.aliasName ∧ next.arguments = s.arguments := by
  have own : s.headed ⟨s.name, s.aliasName, s.arguments⟩ = s := by cases s; rfl
  have same := splice_headed ⟨s.name, s.aliasName, s.arguments⟩ s other
  rw [own] at same
  rw [same, Change.result_headed] at done
  obtain ⟨inner, -, rfl⟩ := Fallible.map_eq_ok.mp done
  exact ⟨rfl, rfl, rfl⟩

theorem outputKey_of_splice {s other next : Selection}
    (done : (splice s other).result = .ok next) : next.outputKey = s.outputKey := by
  obtain ⟨name, aliasName, -⟩ := head_of_splice done
  rw [outputKey, outputKey, name, aliasName]

theorem merge_result (s other : Selection) :
    (merge s other).result =
      if sameArguments s.arguments other.arguments then (splice s other).result
      else .error s.outputKey := by
  unfold merge
  split <;> rfl

/-! ### Taking over what is repeated -/

open Fallible

namespace Repeats

variable {s s' child child' : Selection}

theorem withoutFragments (r : Repeats s s') :
    Repeats s.withoutFragments s'.withoutFragments :=
  .intro r.name r.aliasName r.arguments r.named r.keyed r.distinct .nil r.children .nil

/-- Children are stored alike under a key, which has to be the output key of what is stored. -/
theorem insertChild (r : Repeats s s') {key : String} (own : key = child.outputKey)
    (both : Repeats child child') :
    Repeats { s with children := Keyed.insert s.children key child }
      { s' with children := Keyed.insert s'.children key child' } := by
  refine .intro r.name r.aliasName r.arguments r.named (fun entry present => ?_)
    (Keyed.nodup_insert r.distinct) r.conditions (r.children.insert both) r.fragments
  rcases Keyed.mem_insert present with rfl | old
  · exact own
  · exact r.keyed entry old

theorem nodup_addFragments {there : List (String × List Selection)}
    (distinct : (there.map Prod.fst).Nodup) (more : List (String × List Selection)) :
    ((Selection.addFragments there more).map Prod.fst).Nodup := by
  unfold Selection.addFragments
  induction more generalizing there with
  | nil => exact distinct
  | cons entry rest ih => exact ih (Keyed.nodup_insert distinct)

theorem addFragments {left left' more more' : List (String × List Selection)}
    (both : Keyed.Both (Repeating Repeats []) left left')
    (added : Keyed.Both (Repeating Repeats []) more more') :
    Keyed.Both (Repeating Repeats []) (addFragments left more) (addFragments left' more') := by
  unfold Selection.addFragments
  induction added generalizing left left' with
  | nil => exact both
  | @cons condition members members' rest others first later ih =>
    refine ih (both.insert ?_)
    cases found : Keyed.get? left condition with
    | none =>
      rw [both.get?_none found]
      exact first
    | some old =>
      obtain ⟨old', found', repeating⟩ := both.get?_some found
      rw [found']
      exact repeating.append first

theorem withFragments (r : Repeats s s') {more more' : List (String × List Selection)}
    (added : Keyed.Both (Repeating Repeats []) more more') :
    Repeats { s with fragments := Selection.addFragments s.fragments more }
      { s' with fragments := Selection.addFragments s'.fragments more' } :=
  .intro r.name r.aliasName r.arguments r.named r.keyed r.distinct
    (nodup_addFragments r.conditions more) r.children (addFragments r.fragments added)

theorem pushFragment (r : Repeats s s') (condition : String) {fragment fragment' : Selection}
    (both : Repeats fragment fragment') :
    Repeats (s.pushFragment condition fragment) (s'.pushFragment condition fragment') :=
  r.withFragments (.cons (.next both .done) .nil)

end Repeats

/-- Filing a child goes as it goes without the repetitions, if taking it over does. -/
theorem place_inStep {s s' child child' : Selection} (r : Repeats s s')
    (own : Repeats child child')
    (merged : ∀ there there', Repeats there there' →
      InStep Repeats (splice there child).result (splice there' child').result) :
    InStep Repeats (place s child fun there => splice there child).result
      (place s' child' fun there => splice there child').result := by
  rw [place_result, place_result, own.outputKey]
  cases found : Keyed.get? s.children child.outputKey with
  | none =>
    rw [r.children.get?_none found]
    exact .ok (r.insertChild rfl own)
  | some there =>
    obtain ⟨there', found', both⟩ := r.children.get?_some found
    rw [found']
    dsimp only
    rw [both.name, both.arguments, own.name, own.arguments]
    split
    · exact .error _ _
    · split
      · exact .error _ _
      · have key := r.keyed _ (Keyed.mem_of_get? found)
        refine (merged there there' both).map fun next next' done repeats => ?_
        exact r.insertChild (key.trans (outputKey_of_splice done).symm) repeats

mutual

/-- **Taking over a selection goes as it goes without the repetitions.** -/
theorem splice_inStep : ∀ (other' : Selection) {other s s' : Selection}, Repeats s s' →
    Repeats other other' → InStep Repeats (splice s other).result (splice s' other').result
  | ⟨_, _, _, children', _⟩, other, s, s', r, own => by
    rw [splice_result, splice_result]
    exact (spliceChildren_inStep children' r own.children).map fun spliced spliced' _ both =>
      both.withFragments own.fragments

theorem spliceChildren_inStep : ∀ (children' : List (String × Selection))
    {children : List (String × Selection)} {s s' : Selection}, Repeats s s' →
    Keyed.Both Repeats children children' →
    InStep Repeats (spliceChildren s children).result (spliceChildren s' children').result
  | [], _, s, s', r, .nil => .ok r
  | (_, child') :: rest', _, s, s', r, .cons first later => by
    rw [spliceChildren_result, spliceChildren_result]
    exact (place_inStep r first fun there there' both => splice_inStep child' both first).bind
      fun next next' _ both => spliceChildren_inStep rest' both later

end

theorem push_inStep {s s' child child' : Selection} (r : Repeats s s')
    (own : Repeats child child') : InStep Repeats (push s child).result (push s' child').result :=
  place_inStep r own fun _ _ both => splice_inStep child' both own

theorem merge_inStep {s s' other other' : Selection} (r : Repeats s s')
    (own : Repeats other other') :
    InStep Repeats (merge s other).result (merge s' other').result := by
  rw [merge_result, merge_result, r.arguments, own.arguments]
  split
  · exact splice_inStep other' r own
  · exact .error _ _

end Selection

end GraphRead
