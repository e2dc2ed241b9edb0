import GraphRead.Proofs.Binding.Occurrences
import GraphRead.Proofs.Binding.Traced
/-!
Fragments apply to exactly the right types.

A record that is bound to a type has the fields that are asked of it directly and in the fragments
that are for its type, however deep these lie in one another, each bound from all its invocations
merged (`Selection.RecordOf`). It is bound like the selection in which these fragments have been
inlined level by level, and whatever is behind a condition that is for other types makes no
difference (`Selection.AlikeFor`). All this is put together in
`Selection.fragments_apply_exactly`.
-/

namespace GraphRead.Selection

open Fallible

variable {schema : Schema} {owner : ObjectType} {path : Path}

/-! ### What is for other types -/

mutual

/-- Two selections are the same but for what is in the fragments that are not for a type, here and
inside those that are. -/
inductive AlikeFor (schema : Schema) (type : String) : Selection → Selection → Prop
  | intro {s t : Selection} (same : s.withoutFragments = t.withoutFragments)
    (fragments : FragmentsAlike schema type s.fragmentList t.fragmentList) :
    AlikeFor schema type s t

/-- Two lists of fragments have the same conditions, and what is for a type is alike. -/
inductive FragmentsAlike (schema : Schema) (type : String) :
    List (String × Selection) → List (String × Selection) → Prop
  | nil : FragmentsAlike schema type [] []
  | taken {condition : String} {fragment fragment' : Selection}
    {rest rest' : List (String × Selection)} (inside : AlikeFor schema type fragment fragment')
    (later : FragmentsAlike schema type rest rest') :
    FragmentsAlike schema type ((condition, fragment) :: rest) ((condition, fragment') :: rest')
  | dropped {condition : String} {fragment fragment' : Selection}
    {rest rest' : List (String × Selection)} (other : ¬ schema.Suits type condition)
    (later : FragmentsAlike schema type rest rest') :
    FragmentsAlike schema type ((condition, fragment) :: rest) ((condition, fragment') :: rest')

end

theorem FragmentsAlike.append {type : String} {queue queue' more more' : List (String × Selection)}
    (first : FragmentsAlike schema type queue queue')
    (second : FragmentsAlike schema type more more') :
    FragmentsAlike schema type (queue ++ more) (queue' ++ more') := by
  induction queue generalizing queue' with
  | nil =>
    cases first
    exact second
  | cons entry rest ih =>
    cases first with
    | taken inside later => exact .taken inside (ih later)
    | dropped other later => exact .dropped other (ih later)

/-- A fragment that is accepted is for the type. -/
theorem suits_of_appliesTo (known : Keyed.hasKey schema.types owner.name = true)
    {condition : String} (accepted : appliesTo schema owner.name path condition = .ok true) :
    schema.Suits owner.name condition :=
  (applies_record known).mp (mapError_eq_ok.mp accepted)

theorem FragmentsAlike.spliceQueue (known : Keyed.hasKey schema.types owner.name = true)
    {queue queue' : List (String × Selection)}
    (alike : FragmentsAlike schema owner.name queue queue') (target : Selection) :
    spliceQueue (appliesTo schema owner.name path) path target queue' =
      spliceQueue (appliesTo schema owner.name path) path target queue := by
  fun_induction Selection.spliceQueue (appliesTo schema owner.name path) path target queue
    generalizing queue' with
  | case1 target =>
    cases alike
    rw [Selection.spliceQueue]
  | case2 target condition fragment rest ihTaken ihDropped =>
    have dropped {rest' : List (String × Selection)} {fragment' : Selection}
        (later : FragmentsAlike schema owner.name rest rest')
        (accepted : appliesTo schema owner.name path condition = .ok false) :
        Selection.spliceQueue (appliesTo schema owner.name path) path target
          ((condition, fragment') :: rest') =
            Selection.spliceQueue (appliesTo schema owner.name path) path target rest := by
      rw [Selection.spliceQueue, accepted]
      exact ihDropped later
    cases accepted : appliesTo schema owner.name path condition with
    | error e =>
      cases alike <;> rw [Selection.spliceQueue, accepted] <;> rfl
    | ok applies =>
      cases applies with
      | false => cases alike <;> exact dropped ‹_› accepted
      | true =>
        cases alike with
        | taken inside later =>
          obtain ⟨same, fragments⟩ := inside
          rw [Selection.spliceQueue, accepted, ← same]
          show Except.bind (spliceAt target fragment.withoutFragments path) _ =
            Except.bind (spliceAt target fragment.withoutFragments path) _
          exact congrArg (Except.bind _) (funext fun next => ihTaken next (later.append fragments))
        | dropped other later => exact absurd (suits_of_appliesTo known accepted) other

/-- What is in fragments for other types makes no difference. -/
theorem AlikeFor.bindField (known : Keyed.hasKey schema.types owner.name = true)
    {s t : Selection} (alike : AlikeFor schema owner.name s t) :
    bindField schema owner path t = bindField schema owner path s := by
  obtain ⟨same, fragments⟩ := alike
  rw [bindField_eq, bindField_eq, resolveFragments, resolveFragments,
    fragments.spliceQueue known, same]

/-! ### What is for the type -/

/-- A record of a type is what a selection and its fragments for the type ask: under the keys of
what is asked, but for the fields that are answered without the data, stands what is bound from all
invocations under the key, merged level by level. -/
structure RecordOf (schema : Schema) (owner : ObjectType) (path : Path) (s : Selection)
    (f : BoundField) : Prop where
  type : f.type = owner
  distinct : (f.items.map Prod.fst).Nodup
  keys : ∀ key, key ∈ f.items.map Prod.fst ↔ ∃ t child, Includes (schema.Suits owner.name) s t ∧
    (key, child) ∈ t.children ∧ elides owner child.name = false
  items : ∀ key item, (key, item) ∈ f.items → ∃ first rest merged,
    underKey key (s.asks schema owner.name) = first :: rest ∧
      rest.foldlM (fun there again => (merge there again).result) first = .ok merged ∧
        bindItem schema owner (path.add key) merged = .ok (some item)

/-- Binding a record is binding it with its fragments inlined. -/
theorem bindField_iff_inlined (known : Keyed.hasKey schema.types owner.name = true) (s : Selection)
    (f : BoundField) : bindField schema owner path s = .ok f ↔ Settled schema owner.name s ∧
      ∃ t, s.inlined schema owner.name = .ok t ∧ t.fragments = [] ∧
        bindField schema owner path t = .ok f := by
  constructor
  · intro done
    rw [bindField_eq] at done
    obtain ⟨resolved, isResolved, done⟩ := bind_eq_ok.mp done
    have settled := settled_of_resolveFragments known isResolved
    rw [resolveFragments_eq known settled] at isResolved
    have inlined := mapError_eq_ok.mp isResolved
    have bare := inlined_fragments inlined
    refine ⟨settled, resolved, inlined, bare, ?_⟩
    rw [bindField_eq, resolveFragments_self _ path bare]
    exact done
  · rintro ⟨settled, t, inlined, bare, done⟩
    rw [bindField_eq, resolveFragments_self _ path bare] at done
    rw [bindField_eq, resolveFragments_eq known settled, inlined]
    exact done

theorem recordOf_bindField (known : Keyed.hasKey schema.types owner.name = true) {s : Selection}
    (tidy : s.Tidy) {f : BoundField} (done : bindField schema owner path s = .ok f) :
    RecordOf schema owner path s f := by
  obtain ⟨-, t, inlined, bare, done⟩ := (bindField_iff_inlined known s f).mp done
  rw [bindField_eq, resolveFragments_self _ path bare] at done
  obtain ⟨_, same, done⟩ := bind_eq_ok.mp done
  cases same
  obtain ⟨items, isItems, done⟩ := bind_eq_ok.mp done
  cases pure_eq_ok.mp done
  obtain ⟨-, -, distinct, -⟩ := inlined_tidy tidy inlined
  refine ⟨rfl, distinct.sublist (keys_bindItems isItems), fun key => ?_, fun key item present => ?_⟩
  · constructor
    · intro present
      obtain ⟨⟨key, item⟩, listed, rfl⟩ := List.mem_map.mp present
      obtain ⟨child, stands, bound⟩ := (mem_bindItems isItems).mp listed
      have merged := MergedFrom.of_mem tidy inlined stands
      obtain ⟨first, invoked⟩ := merged.exists_mem
      obtain ⟨u, includes, asked⟩ := mem_asks.mp (mem_underKey.mp invoked)
      refine ⟨u, first, includes, asked, Bool.eq_false_iff.mpr fun elided => ?_⟩
      rw [merged.names first invoked] at elided
      cases (elided_of_bindItem bound).mpr elided
    · rintro ⟨u, child, includes, asked, notElided⟩
      obtain ⟨merged, stands, name⟩ :=
        exists_merged tidy inlined (mem_asks.mpr ⟨u, includes, asked⟩)
      obtain ⟨item, bound, filed⟩ := bindItem_of_mem isItems _ stands
      cases item with
      | none =>
        have elided := (elided_of_bindItem bound).mp rfl
        rw [← name, notElided] at elided
        cases elided
      | some item => exact List.mem_map.mpr ⟨_, filed item rfl, rfl⟩
  · obtain ⟨child, stands, bound⟩ := (mem_bindItems isItems).mp present
    have merged := MergedFrom.of_mem tidy inlined stands
    generalize underKey key (s.asks schema owner.name) = invocations at merged
    cases merged with
    | several named isMerged name => exact ⟨_, _, child, rfl, isMerged, bound⟩

/-- **Fragments apply to exactly the right types.** A record that is bound to a type is what the
selection and its fragments for the type ask; it is bound like the selection with these inlined,
however the others look; and if a type is not found below it, then a fragment is reached on a
condition that is neither a type nor an interface. -/
theorem fragments_apply_exactly {declared : Declarations}
    (built : Schema.build declared = .ok schema)
    (known : Keyed.get? schema.types owner.name = some owner) {s : Selection} (tidy : s.Tidy)
    (path : Path) :
    (∀ f, bindField schema owner path s = .ok f → RecordOf schema owner path s f) ∧
    (∀ f, bindField schema owner path s = .ok f ↔ Settled schema owner.name s ∧
      ∃ t, s.inlined schema owner.name = .ok t ∧ t.fragments = [] ∧
        bindField schema owner path t = .ok f) ∧
    (∀ t, AlikeFor schema owner.name s t →
      bindField schema owner path t = bindField schema owner path s) ∧
    ∀ condition place, bindField schema owner path s = .error (.typeNotFound condition place) →
      UnknownCondition schema (.record owner) s condition := by
  have shape := Schema.shape_of_build built
  have there : Keyed.hasKey schema.types owner.name = true := by
    rw [Keyed.hasKey, known]
    rfl
  refine ⟨fun f => recordOf_bindField there tidy, bindField_iff_inlined there s,
    fun t alike => alike.bindField there, fun condition place failed => ?_⟩
  have traced := fieldsTraced shape (s.depth + 1) s (Nat.lt_succ_self _) owner
    (shape.get?_types.mp known).1 _ (.top tidy) (.of_written tidy rfl) path
  exact (traced.failsOnly _ failed).unknownCondition

/-! ### Posts and photos -/

namespace Timeline

def url : Attribute := ⟨"url", .string, .column "url"⟩

def post : ObjectType := ⟨"Post", "posts", "id", .always, []⟩

def photo : ObjectType := ⟨"Photo", "photos", "id", .always, [("url", .scalar url)]⟩

def declared : Declarations := ⟨[post, photo], [⟨"Media", ["Post", "Photo"]⟩], []⟩

def timeline : Schema :=
  ⟨[("Post", post), ("Photo", photo)], [("Media", ⟨"Media", ["Post", "Photo"]⟩)], []⟩

/-- For media the id, and inside this for photos the address and for posts a title, which posts do
not have. -/
def asked : Document :=
  ⟨⟨⟨"node", none, []⟩, [.inline (some "Media") [.field ⟨"id", none, []⟩ [],
    .inline (some "Photo") [.field ⟨"url", none, []⟩ []],
    .inline (some "Post") [.field ⟨"title", none, []⟩ []]]]⟩, []⟩

def media : Selection :=
  ⟨"Media", none, [], [("id", named "id")],
    [("Photo", [⟨"Photo", none, [], [("url", named "url")], []⟩]),
      ("Post", [⟨"Post", none, [], [("title", named "title")], []⟩])]⟩

def node : Selection := ⟨"node", none, [], [], [("Media", [media])]⟩

/-- What photos are asked for is bound, two fragments deep, and what is asked of posts is not looked
at. -/
theorem fragments_apply_to_photos :
    Schema.build declared = .ok timeline ∧ ofDocument asked = .ok node ∧
      RecordOf timeline photo [] node ⟨photo, [("id", .id), ("url", .scalar url)]⟩ := by
  have built : Schema.build declared = .ok timeline := by cbv
  have written : ofDocument asked = .ok node := by cbv
  have bound : bindField timeline photo [] node =
      .ok ⟨photo, [("id", .id), ("url", .scalar url)]⟩ := by
    rw [bindField_eq]
    cbv
  exact ⟨built, written,
    (fragments_apply_exactly built rfl (ofDocument_tidy written) []).1 _ bound⟩

end Timeline

end GraphRead.Selection
