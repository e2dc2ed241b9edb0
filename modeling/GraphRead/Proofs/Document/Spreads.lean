import GraphRead.Document.Build
import GraphRead.Proofs.Keyed
/-!
The fragments that a selection set spreads.

A fragment is looked up only where it is spread, and the fragments inside it only if it is. So what
is built from a selection set depends on the fragments that it spreads and on those that these
spread in turn, and on no other: two documents that agree on a set of names which holds the names
that are spread, and with each fragment those that the fragment spreads, are built alike
(`fill_congr`).
-/

namespace GraphRead

namespace Item

variable {α : Type}

mutual

/-- The names of the fragments that an item spreads. -/
def spreads : Item α → List String
  | .field _ items => spreadsOf items
  | .spread fragment => [fragment]
  | .inline _ items => spreadsOf items

/-- The names of the fragments that the items of a selection set spread. -/
def spreadsOf : List (Item α) → List String
  | [] => []
  | first :: rest => first.spreads ++ spreadsOf rest

end

end Item

/-- Two lists of fragments are the same for some names, and these names are closed: a fragment of
one of them spreads only fragments of them. -/
structure AgreeOn (reached : String → Prop) (left right : Keyed Fragment) : Prop where
  same : ∀ name, reached name → Keyed.get? left name = Keyed.get? right name
  closed : ∀ name fragment, reached name → Keyed.get? left name = some fragment →
    ∀ other ∈ Item.spreadsOf fragment.items, reached other
  leftDistinct : (left.map Prod.fst).Nodup
  rightDistinct : (right.map Prod.fst).Nodup

namespace AgreeOn

variable {reached : String → Prop} {left right : Keyed Fragment}

theorem hasKey (agree : AgreeOn reached left right) {name : String} (known : reached name) :
    Keyed.hasKey left name = Keyed.hasKey right name := by
  rw [Keyed.hasKey, Keyed.hasKey, agree.same name known]

/-- Taking a fragment out of both keeps them the same. -/
theorem erase (agree : AgreeOn reached left right) (name : String) :
    AgreeOn reached (Keyed.erase left name) (Keyed.erase right name) where
  same other known := by
    rw [Keyed.get?_erase agree.leftDistinct, Keyed.get?_erase agree.rightDistinct,
      agree.same other known]
  closed other fragment known found := by
    rw [Keyed.get?_erase agree.leftDistinct] at found
    split at found
    · cases found
    · exact agree.closed other fragment known found
  leftDistinct := Keyed.nodup_erase agree.leftDistinct
  rightDistinct := Keyed.nodup_erase agree.rightDistinct

end AgreeOn

namespace Selection

/-- A selection is filled alike from fragments that agree on all names that are reached. -/
theorem fill_congr {reached : String → Prop} {fragments others : Keyed Fragment}
    (agree : AgreeOn reached fragments others) {available left : Keyed Fragment}
    (agreeLeft : AgreeOn reached available left) {path : Path} {target : Selection}
    {items : List (Item Value)} (spread : ∀ name ∈ Item.spreadsOf items, reached name) :
    fill fragments available path target items = fill others left path target items := by
  fun_induction fill fragments available path target items generalizing left with
  | case1 available path target =>
    rw [fill]
  | case2 available path target head items rest childPath ihChild =>
    rename_i ihRest
    obtain ⟨inside, after⟩ := List.forall_mem_append.mp spread
    rw [fill]
    refine congrArg (Except.bind _) (funext fun leaf => ?_)
    rw [ihChild leaf agreeLeft inside]
    refine congrArg (Except.bind _) (funext fun child => ?_)
    exact congrArg (Except.bind _) (funext fun next => ihRest next agreeLeft after)
  | case3 available path target name rest known missing =>
    have asked := spread name List.mem_cons_self
    rw [fill, if_pos (agree.hasKey asked ▸ known)]
    rw [agreeLeft.same name asked] at missing
    split
    · rfl
    · rename_i found
      rw [missing] at found
      cases found
  | case4 available path target name rest known fragment found ihFragment ihRest =>
    have asked := spread name List.mem_cons_self
    have inside := agreeLeft.closed name fragment asked found
    have after : ∀ other ∈ Item.spreadsOf rest, reached other := fun other present =>
      spread other (List.mem_cons_of_mem _ present)
    rw [fill, if_pos (agree.hasKey asked ▸ known)]
    rw [agreeLeft.same name asked] at found
    split
    · rename_i missing
      rw [missing] at found
      cases found
    · rename_i fragment' found'
      rw [found] at found'
      cases found'
      rw [ihFragment (agreeLeft.erase name) inside]
      exact congrArg (Except.bind _) (funext fun expanded => ihRest expanded agreeLeft after)
  | case5 available path target name rest unknown =>
    rw [fill, if_neg (agree.hasKey (spread name List.mem_cons_self) ▸ unknown)]
  | case6 available path target condition items rest ihFragment ihRest =>
    obtain ⟨inside, after⟩ := List.forall_mem_append.mp spread
    rw [fill, ihFragment agreeLeft inside]
    exact congrArg (Except.bind _) (funext fun expanded => ihRest expanded agreeLeft after)
  | case7 available path target items rest ihItems ihRest =>
    obtain ⟨inside, after⟩ := List.forall_mem_append.mp spread
    rw [fill, ihItems agreeLeft inside]
    exact congrArg (Except.bind _) (funext fun next => ihRest next agreeLeft after)

/-- Documents that ask the same of the query type, and agree on all fragments that are reached from
there, are built alike. -/
theorem ofDocument_congr {reached : String → Prop} {document other : Document}
    (root : document.root = other.root) (agree : AgreeOn reached document.fragments other.fragments)
    (spread : ∀ name ∈ Item.spreadsOf document.root.items, reached name) :
    ofDocument document = ofDocument other := by
  rw [ofDocument, ofDocument, ofField, ofField, ← root]
  exact congrArg (Except.bind _) (funext fun leaf => fill_congr agree agree spread)

end Selection

end GraphRead
