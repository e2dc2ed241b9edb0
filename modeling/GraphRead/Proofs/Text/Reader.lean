import GraphRead.Text.Reader
import GraphRead.Text.Digits
import Mathlib.Data.List.Basic
/-!
What readers take off the front of a text.

A reader that is asked for the text of an item, with something behind it, takes the text and leaves
what is behind (`bind_of_some`, `word_append`). A repetition takes one text after the other up to
the first place at which the repeated reader refuses (`many_append`). What holds of every item that
the parts of a reader take holds of what the reader makes of them (`Gives`).
-/

namespace GraphRead.Reader

variable {σ α β : Type}

theorem bind_of_some {item : Reader σ α} {f : α → Reader σ β} {input rest : List σ} {a : α}
    (taken : item input = some (a, rest)) : (item >>= f) input = f a rest := by
  show (item input).bind _ = _
  rw [taken]
  rfl

theorem bind_of_none {item : Reader σ α} {f : α → Reader σ β} {input : List σ}
    (refused : item input = none) : (item >>= f) input = none := by
  show (item input).bind _ = _
  rw [refused]
  rfl

theorem either_of_some {first second : Reader σ α} {input rest : List σ} {a : α}
    (taken : first input = some (a, rest)) : either first second input = some (a, rest) := by
  rw [either, taken]

theorem either_of_none {first second : Reader σ α} {input : List σ}
    (refused : first input = none) : either first second input = second input := by
  rw [either, refused]

theorem opt_of_some {item : Reader σ α} {input rest : List σ} {a : α}
    (taken : item input = some (a, rest)) : opt item input = some (some a, rest) := by
  rw [opt, taken]

theorem opt_of_none {item : Reader σ α} {input : List σ} (refused : item input = none) :
    opt item input = some (none, input) := by
  rw [opt, refused]

theorem whole_of_some {item : Reader σ α} {input : List σ} {a : α}
    (taken : item input = some (a, [])) : whole item input = some a := by
  rw [whole, taken]

section Words

variable [DecidableEq σ]

theorem word_append (symbols rest : List σ) :
    word symbols (symbols ++ rest) = some ((), rest) := by
  rw [word, if_pos (List.isPrefixOf_iff_prefix.mpr (List.prefix_append _ _)),
    List.drop_left]

theorem word_cons (c : σ) (rest : List σ) : word [c] (c :: rest) = some ((), rest) :=
  word_append [c] rest

/-- A word is refused where another symbol stands in the place of its first one. -/
theorem word_of_ne {c d : σ} (symbols : List σ) (differ : c ≠ d) (rest : List σ) :
    word (c :: symbols) (d :: rest) = none := by
  rw [word, if_neg]
  simp [List.isPrefixOf, differ]

end Words

theorem satisfy_cons {test : σ → Bool} {c : σ} (passes : test c = true) (rest : List σ) :
    satisfy test (c :: rest) = some (c, rest) := if_pos passes

theorem satisfy_of_head {test : σ → Bool} {input : List σ}
    (refused : ∀ c ∈ input.head?, test c = false) : satisfy test input = none := by
  cases input with
  | nil => rfl
  | cons c rest =>
    rw [satisfy, refused c rfl]
    rfl

/-- A repetition takes the text of one item after the other, provided that each of them can be told
from what is behind it, up to a place at which the repeated reader refuses. -/
theorem many_append {item : Reader σ α} {shown : α → List σ} (follows : List σ → Prop)
    {items : List α} {rest : List σ}
    (each : ∀ a ∈ items, shown a ≠ [] ∧ (∀ behind, follows (shown a ++ behind)) ∧
      ∀ behind, follows behind → item (shown a ++ behind) = some (a, behind))
    (ended : follows rest) (refused : item rest = none) :
    many item (items.flatMap shown ++ rest) = some (items, rest) := by
  suffices general : ∀ times, items.length ≤ times →
      repeated item times (items.flatMap shown ++ rest) = (items, rest) by
    refine congrArg some (general _ ?_)
    clear ended refused general
    rw [List.length_append]
    induction items with
    | nil => exact Nat.zero_le _
    | cons a items ih =>
      obtain ⟨here, later⟩ := List.forall_mem_cons.mp each
      have shorter := ih later
      have positive := List.length_pos_of_ne_nil here.1
      rw [List.flatMap_cons, List.length_append, List.length_cons]
      omega
  induction items with
  | nil =>
    intro times _
    cases times with
    | zero => rfl
    | succ n =>
      rw [repeated, List.flatMap_nil, List.nil_append, refused]
  | cons a items ih =>
    intro times enough
    obtain ⟨⟨_, _, reads⟩, later⟩ := List.forall_mem_cons.mp each
    cases times with
    | zero => exact absurd enough (by simp)
    | succ n =>
      have behind : follows (items.flatMap shown ++ rest) := by
        cases items with
        | nil => exact ended
        | cons next others =>
          rw [List.flatMap_cons, List.append_assoc]
          exact (later next List.mem_cons_self).2.1 _
      rw [List.flatMap_cons, List.append_assoc, repeated, reads _ behind]
      dsimp only
      rw [ih later n (Nat.le_of_succ_le_succ enough)]

/-- A run of symbols that pass a test, up to one that does not. -/
theorem many_satisfy {test : σ → Bool} {run rest : List σ} (passes : ∀ c ∈ run, test c = true)
    (ended : ∀ c ∈ rest.head?, test c = false) :
    many (satisfy test) (run ++ rest) = some (run, rest) := by
  have taken : many (satisfy test) ((run.flatMap fun c => [c]) ++ rest) = some (run, rest) :=
    many_append (fun _ => True) (fun c present => ⟨List.cons_ne_nil _ _, fun _ => trivial,
      fun behind _ => satisfy_cons (passes c present) behind⟩) trivial (satisfy_of_head ended)
  rwa [List.flatMap_singleton'] at taken

theorem many1_satisfy {test : σ → Bool} {run rest : List σ} (some_symbol : run ≠ [])
    (passes : ∀ c ∈ run, test c = true) (ended : ∀ c ∈ rest.head?, test c = false) :
    many1 (satisfy test) (run ++ rest) = some (run, rest) := by
  cases run with
  | nil => exact absurd rfl some_symbol
  | cons c run =>
    obtain ⟨here, later⟩ := List.forall_mem_cons.mp passes
    rw [many1, List.cons_append, bind_of_some (satisfy_cons here _),
      bind_of_some (many_satisfy later ended)]
    rfl

/-! ### What readers give -/

/-- Whatever a reader takes has a property. -/
def Gives (item : Reader σ α) (holds : α → Prop) : Prop :=
  ∀ input a rest, item input = some (a, rest) → holds a

theorem gives_any (item : Reader σ α) : Gives item fun _ => True :=
  fun _ _ _ _ => trivial

theorem gives_pure {holds : α → Prop} {a : α} (here : holds a) :
    Gives (pure a : Reader σ α) holds := by
  intro input b rest taken
  cases taken
  exact here

theorem Gives.bind {item : Reader σ α} {next : α → Reader σ β} {holds : α → Prop}
    {after : β → Prop} (first : Gives item holds) (second : ∀ a, holds a → Gives (next a) after) :
    Gives (item >>= next) after := by
  intro input b rest taken
  cases here : item input with
  | none =>
    rw [bind_of_none here] at taken
    cases taken
  | some result =>
    rw [bind_of_some here] at taken
    exact second result.1 (first _ _ _ here) _ _ _ taken

theorem Gives.either {first second : Reader σ α} {holds : α → Prop} (left : Gives first holds)
    (right : Gives second holds) : Gives (either first second) holds := by
  intro input a rest taken
  cases here : first input with
  | none =>
    rw [either_of_none here] at taken
    exact right _ _ _ taken
  | some result =>
    rw [either_of_some here] at taken
    cases taken
    exact left _ _ _ here

theorem Gives.many {item : Reader σ α} {holds : α → Prop} (each : Gives item holds) :
    Gives (many item) fun items => ∀ a ∈ items, holds a := by
  suffices general : ∀ times input, ∀ a ∈ (repeated item times input).1, holds a by
    intro input items rest taken
    have same : (repeated item input.length input).1 = items :=
      congrArg Prod.fst (Option.some.inj taken)
    rw [← same]
    exact general _ _
  intro times
  induction times with
  | zero => exact fun _ _ present => nomatch present
  | succ times ih =>
    intro input
    rw [repeated]
    cases here : item input with
    | none => exact fun _ present => nomatch present
    | some result => exact List.forall_mem_cons.mpr ⟨each _ _ _ here, ih result.2⟩

end GraphRead.Reader
