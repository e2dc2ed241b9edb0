import GraphRead.Binding.Bind
import GraphRead.Proofs.Document.Tidy
import GraphRead.Proofs.Repeat.Within
/-!
Fragments level by level.

The fragments of a selection that are for a type are those whose condition is the type or an
interface over it (`Schema.covers`), and those in these, and so on (`Selection.Includes`). The
queue in which they are taken over goes through them level by level (`Selection.levels`), and
whatever is not for the type is left out with all that it holds (`resolveFragments_eq`). So what
comes to stand under a key is what all of them ask under it, merged in this order
(`MergedFrom.inlined`).
-/

namespace GraphRead

namespace Schema

/-- Whether a fragment on a condition is for a type: the condition is the type, or an interface that
covers it. -/
def covers (schema : Schema) (condition type : String) : Bool :=
  condition == type ||
    (Keyed.get? schema.interfaces condition).any fun face => face.covered.contains type

/-- The conditions on which fragments are for a type. -/
abbrev Suits (schema : Schema) (type condition : String) : Prop :=
  schema.covers condition type = true

theorem isAssignable_eq {schema : Schema} {type : String}
    (known : Keyed.hasKey schema.types type = true) (condition : String) :
    schema.isAssignable condition type =
      if schema.declares condition then .ok (schema.covers condition type)
      else .error (.typeNotFound condition) := by
  unfold isAssignable declares covers
  by_cases same : condition = type
  · subst same
    simp [known]
  · have others : (condition == type) = false := beq_false_of_ne same
    have differ : (decide (condition = type) && Keyed.hasKey schema.types condition) = false := by
      simp [same]
    rw [if_neg (by simp [same]), others]
    cases found : Keyed.get? schema.interfaces condition with
    | some face => simp [Keyed.hasKey, found, Interface.covers]
    | none =>
      cases there : Keyed.hasKey schema.types condition <;> simp [Keyed.hasKey, found]

end Schema

namespace Selection

open Fallible

variable {schema : Schema} {type : String}

/-! ### The fragments for a type -/

/-- A selection has itself, and the fragments in it that apply, and those in these. -/
inductive Includes (applies : String → Prop) : Selection → Selection → Prop
  | self (s : Selection) : Includes applies s s
  | fragment {s fragment inner : Selection} {condition : String}
    (filed : (condition, fragment) ∈ s.fragmentList) (suits : applies condition)
    (inside : Includes applies fragment inner) : Includes applies s inner

theorem mem_fragmentList {s fragment : Selection} {condition : String} :
    (condition, fragment) ∈ s.fragmentList ↔
      ∃ members, (condition, members) ∈ s.fragments ∧ fragment ∈ members := by
  constructor
  · intro filed
    obtain ⟨⟨condition', members⟩, present, listed⟩ := List.mem_flatMap.mp filed
    obtain ⟨member, known, same⟩ := List.mem_map.mp listed
    cases same
    exact ⟨members, present, known⟩
  · rintro ⟨members, present, known⟩
    exact List.mem_flatMap.mpr ⟨_, present, List.mem_map.mpr ⟨fragment, known, rfl⟩⟩

theorem Tidy.fragment {s fragment : Selection} {condition : String} (tidy : s.Tidy)
    (filed : (condition, fragment) ∈ s.fragmentList) : fragment.Tidy := by
  obtain ⟨-, -, -, -, -, fragments⟩ := tidy
  obtain ⟨members, present, known⟩ := mem_fragmentList.mp filed
  exact fragments _ present _ known

theorem Includes.snoc {applies : String → Prop} {s inner fragment : Selection} {condition : String}
    (includes : Includes applies s inner) (filed : (condition, fragment) ∈ inner.fragmentList)
    (suits : applies condition) : Includes applies s fragment := by
  induction includes with
  | self => exact .fragment filed suits (.self _)
  | fragment filed' suits' _ ih => exact .fragment filed' suits' (ih filed)

theorem Includes.mono {applies applies' : String → Prop} {s inner : Selection}
    (includes : Includes applies s inner) (more : ∀ condition, applies condition →
      applies' condition) : Includes applies' s inner := by
  induction includes with
  | self => exact .self _
  | fragment filed suits _ ih => exact .fragment filed (more _ suits) ih

theorem Includes.tidy {applies : String → Prop} {s inner : Selection}
    (includes : Includes applies s inner) (tidy : s.Tidy) : inner.Tidy := by
  induction includes with
  | self => exact tidy
  | fragment filed _ _ ih => exact ih (tidy.fragment filed)

/-- Every condition that is looked up for a type is declared: those of the fragments in whatever a
selection has for it. -/
def Settled (schema : Schema) (type : String) (s : Selection) : Prop :=
  ∀ t, Includes (schema.Suits type) s t → ∀ entry ∈ t.fragmentList, schema.declares entry.1 = true

/-- The fragments of a queue that are for a type. -/
def suited (schema : Schema) (type : String) (queue : List (String × Selection)) :
    List Selection :=
  (queue.filter fun entry => schema.covers entry.1 type).map Prod.snd

theorem mem_suited {queue : List (String × Selection)} {fragment : Selection} :
    fragment ∈ suited schema type queue ↔
      ∃ condition, (condition, fragment) ∈ queue ∧ schema.covers condition type = true := by
  simp [suited]

theorem queueCount_suited (queue : List (String × Selection)) :
    queueCount ((suited schema type queue).flatMap fragmentList) +
      (suited schema type queue).length ≤ queueCount queue := by
  induction queue with
  | nil => simp [suited, queueCount]
  | cons entry rest ih =>
    obtain ⟨condition, fragment⟩ := entry
    have own := queueCount_fragmentList fragment
    unfold suited at ih ⊢
    rw [List.filter_cons, queueCount]
    split
    · simp only [List.map_cons, List.flatMap_cons, queueCount_append, List.length_cons]
      omega
    · omega

/-- The fragments for a type, level by level: those of a queue, then those in these, and so on. -/
def levels (schema : Schema) (type : String) (queue : List (String × Selection)) :
    List Selection :=
  match _level : suited schema type queue with
  | [] => []
  | first :: rest =>
    first :: rest ++ levels schema type ((first :: rest).flatMap fragmentList)
termination_by queueCount queue
decreasing_by
  have fewer : queueCount ((suited schema type queue).flatMap fragmentList) +
      (suited schema type queue).length ≤ queueCount queue := queueCount_suited queue
  rw [_level] at fewer
  rw [List.length_cons] at fewer
  omega

theorem mem_levels {queue : List (String × Selection)} {t : Selection} :
    t ∈ levels schema type queue ↔ ∃ condition fragment, (condition, fragment) ∈ queue ∧
      schema.covers condition type = true ∧ Includes (schema.Suits type) fragment t := by
  fun_induction levels schema type queue with
  | case1 queue none =>
    refine iff_of_false List.not_mem_nil ?_
    rintro ⟨condition, fragment, present, suits, -⟩
    exact List.not_mem_nil (none ▸ mem_suited.mpr ⟨condition, present, suits⟩)
  | case2 queue first rest level ih =>
    rw [← level] at ih ⊢
    rw [List.mem_append, ih, mem_suited]
    constructor
    · rintro (⟨condition, present, suits⟩ | ⟨condition, inner, present, suits, includes⟩)
      · exact ⟨condition, t, present, suits, .self t⟩
      · obtain ⟨fragment, known, filed⟩ := List.mem_flatMap.mp present
        obtain ⟨outer, present, suits'⟩ := mem_suited.mp known
        exact ⟨outer, fragment, present, suits', .fragment filed suits includes⟩
    · rintro ⟨condition, fragment, present, suits, includes⟩
      cases includes with
      | self => exact .inl ⟨condition, present, suits⟩
      | @fragment _ inner _ condition' filed suits' inside =>
        exact .inr ⟨condition', inner, List.mem_flatMap.mpr ⟨fragment,
          mem_suited.mpr ⟨condition, present, suits⟩, filed⟩, suits', inside⟩

/-- The selection and its fragments for a type, level by level, are all that it includes. -/
theorem mem_cons_levels {s t : Selection} :
    t ∈ s :: levels schema type s.fragmentList ↔ Includes (schema.Suits type) s t := by
  rw [List.mem_cons, mem_levels]
  constructor
  · rintro (rfl | ⟨condition, fragment, filed, suits, includes⟩)
    · exact .self t
    · exact .fragment filed suits includes
  · intro includes
    cases includes with
    | self => exact .inl rfl
    | fragment filed suits inside => exact .inr ⟨_, _, filed, suits, inside⟩

/-! ### The queue goes through the levels -/

/-- Whoever accepts fragments does so if they are for a type. -/
def Accepts (schema : Schema) (type : String) (accept : String → Except BindError Bool)
    (condition : String) : Prop :=
  accept condition = .ok (schema.covers condition type)

variable {accept : String → Except BindError Bool} {path : Path}

/-- The front of a queue is gone through before the fragments in it are. -/
theorem spliceQueue_append (path : Path) {front : List (String × Selection)}
    (accepts : ∀ entry ∈ front, Accepts schema type accept entry.1) (target : Selection)
    (back : List (String × Selection)) :
    spliceQueue accept path target (front ++ back) =
      (suited schema type front).foldlM (fun target fragment =>
        spliceAt target fragment.withoutFragments path) target >>= fun next =>
          spliceQueue accept path next
            (back ++ (suited schema type front).flatMap fragmentList) := by
  induction front generalizing target back with
  | nil => simp [suited]
  | cons entry rest ih =>
    obtain ⟨condition, fragment⟩ := entry
    obtain ⟨here, later⟩ := List.forall_mem_cons.mp accepts
    rw [List.cons_append, spliceQueue, here]
    show (if schema.covers condition type = true then _ else _) = _
    unfold suited at ih ⊢
    rw [List.filter_cons]
    dsimp only
    split
    · rw [List.map_cons, List.foldlM_cons, List.flatMap_cons, bind_assoc]
      refine congrArg (Except.bind _) (funext fun next => ?_)
      rw [List.append_assoc, ih later, List.append_assoc]
    · exact ih later target back

/-- Fragments are accepted if they are for a type, wherever they are looked up. -/
def AcceptsAll (schema : Schema) (type : String) (accept : String → Except BindError Bool)
    (queue : List (String × Selection)) : Prop :=
  ∀ entry ∈ queue, Accepts schema type accept entry.1 ∧
    (schema.covers entry.1 type = true → ∀ t, Includes (schema.Suits type) entry.2 t →
      ∀ inner ∈ t.fragmentList, Accepts schema type accept inner.1)

theorem AcceptsAll.next {queue : List (String × Selection)}
    (accepts : AcceptsAll schema type accept queue) :
    AcceptsAll schema type accept ((suited schema type queue).flatMap fragmentList) := by
  intro entry present
  obtain ⟨fragment, known, filed⟩ := List.mem_flatMap.mp present
  obtain ⟨condition, queued, suits⟩ := mem_suited.mp known
  have inside := (accepts _ queued).2 suits
  exact ⟨inside _ (.self _) entry filed, fun suits' t includes =>
    inside t (.fragment filed suits' includes)⟩

theorem spliceQueue_eq {queue : List (String × Selection)}
    (accepts : AcceptsAll schema type accept queue) (target : Selection) :
    spliceQueue accept path target queue = (levels schema type queue).foldlM
      (fun target fragment => spliceAt target fragment.withoutFragments path) target := by
  fun_induction levels schema type queue generalizing target with
  | case1 queue none =>
    have whole := spliceQueue_append path (fun entry present => (accepts entry present).1) target []
    rw [List.append_nil, none] at whole
    rw [whole]
    show spliceQueue accept path target [] = _
    rw [spliceQueue]
    rfl
  | case2 queue first rest level ih =>
    have whole := spliceQueue_append path (fun entry present => (accepts entry present).1) target []
    rw [List.append_nil, level] at whole
    rw [whole, List.foldlM_append]
    refine congrArg (Except.bind _) (funext fun next => ?_)
    rw [List.nil_append]
    exact ih (level ▸ accepts.next) next

/-- A queue that comes to its end has looked up only conditions that are declared. -/
theorem settled_of_spliceQueue {owner : ObjectType}
    (known : Keyed.hasKey schema.types owner.name = true) {target resolved : Selection}
    {queue : List (String × Selection)}
    (done : spliceQueue (appliesTo schema owner.name path) path target queue = .ok resolved) :
    ∀ entry ∈ queue, schema.declares entry.1 = true ∧
      (schema.covers entry.1 owner.name = true → Settled schema owner.name entry.2) := by
  fun_induction spliceQueue (appliesTo schema owner.name path) path target queue with
  | case1 => exact List.forall_mem_nil _
  | case2 target condition fragment rest ihTaken ihDropped =>
    obtain ⟨applies, accepted, done⟩ := bind_eq_ok.mp done
    have looked := mapError_eq_ok.mp accepted
    rw [Schema.isAssignable_eq known] at looked
    split at looked
    · rename_i declared
      cases looked
      split at done
      · obtain ⟨next, -, done⟩ := bind_eq_ok.mp done
        obtain ⟨others, inside⟩ := List.forall_mem_append.mp (ihTaken next done)
        refine List.forall_mem_cons.mpr ⟨⟨declared, fun _ t includes entry filed => ?_⟩, others⟩
        cases includes with
        | self => exact (inside entry filed).1
        | fragment filed' suits' includes => exact (inside _ filed').2 suits' t includes entry filed
      · rename_i suits
        exact List.forall_mem_cons.mpr
          ⟨⟨declared, fun suits' => absurd suits' suits⟩, ihDropped done⟩
    · cases looked

/-! ### Inlining -/

/-- A selection with its fragments for a type inlined level by level, and without the others. -/
def inlined (schema : Schema) (type : String) (s : Selection) : Except String Selection :=
  (levels schema type s.fragmentList).foldlM
    (fun target fragment => (splice target fragment.withoutFragments).result) s.withoutFragments

theorem foldlM_mapError {ε φ α β : Type} (f : ε → φ) (step : β → α → Except ε β) (items : List α)
    (start : β) : items.foldlM (fun before item => (step before item).mapError f) start =
      (items.foldlM step start).mapError f := by
  induction items generalizing start with
  | nil => rfl
  | cons item rest ih =>
    rw [List.foldlM_cons, List.foldlM_cons]
    cases step start item with
    | error e => rfl
    | ok next => exact ih next

/-- **Resolving fragments for a type is inlining those that are for it**, as far as all conditions
that are looked up are declared. -/
theorem resolveFragments_eq {owner : ObjectType}
    (known : Keyed.hasKey schema.types owner.name = true) {s : Selection}
    (settled : Settled schema owner.name s) :
    resolveFragments (appliesTo schema owner.name path) path s =
      (s.inlined schema owner.name).mapError fun field =>
        .query ⟨path.add field, .duplicateField field⟩ := by
  have accepts {t : Selection} (includes : Includes (schema.Suits owner.name) s t) :
      ∀ entry ∈ t.fragmentList,
        Accepts schema owner.name (appliesTo schema owner.name path) entry.1 := by
    intro entry filed
    rw [Accepts, appliesTo, Schema.isAssignable_eq known, if_pos (settled t includes entry filed)]
    rfl
  rw [inlined, ← foldlM_mapError]
  refine spliceQueue_eq
    (fun entry filed => ⟨accepts (.self s) entry filed, fun suits t inside => ?_⟩)
    s.withoutFragments
  exact accepts (.fragment filed suits inside)

theorem settled_of_resolveFragments {owner : ObjectType}
    (known : Keyed.hasKey schema.types owner.name = true) {s resolved : Selection}
    (done : resolveFragments (appliesTo schema owner.name path) path s = .ok resolved) :
    Settled schema owner.name s := by
  have looked := settled_of_spliceQueue known done
  intro t includes entry filed
  cases includes with
  | self => exact (looked entry filed).1
  | fragment filed' suits inside => exact (looked _ filed').2 suits t inside entry filed

end Selection

end GraphRead
