import GraphRead.Proofs.Document.Spreads
import GraphRead.Proofs.Repeat.Basic
import Mathlib.Data.List.Nodup
import Mathlib.Logic.Relation
/-!
Well-formed documents.

Whether a document can be read is a matter of what is reached from the query type, through fields,
inline fragments and spreads (`Document.Reaches`): every fragment that is spread there has to exist
and must not lead back to itself, no field has two arguments of one name, and fields that are
answered under one key have to be the same field with the same arguments, and so on below them
(`WrittenField.Agrees`). `Document.Faulty` says of each fault that a document really has it, and
whatever has one is not well-formed (`Document.Faulty.not_wellFormed`).
-/

namespace GraphRead

namespace Item

mutual

/-- The fields that an item stands for: an inline fragment without a condition for those in it. -/
def own : Item Value → List WrittenField
  | .field head items => [⟨head, items⟩]
  | .spread _ => []
  | .inline (some _) _ => []
  | .inline none items => fields items

/-- The fields of a selection set, with those of inline fragments that have no condition. -/
def fields : List (Item Value) → List WrittenField
  | [] => []
  | first :: rest => own first ++ fields rest

end

end Item

/-- Two fields can be answered as one: they are the same field with the same arguments, and so are
those below them that are answered under one key. -/
inductive WrittenField.Agrees : WrittenField → WrittenField → Prop
  | intro {f g : WrittenField} (name : f.head.name = g.head.name)
    (arguments : Selection.sameArguments f.head.arguments g.head.arguments = true)
    (inside : ∀ a ∈ Item.fields f.items, ∀ b ∈ Item.fields g.items,
      a.head.outputKey = b.head.outputKey → Agrees a b) : Agrees f g

/-- Two fields cannot be answered as one, because of what is asked under a key, by them or further
down. -/
inductive WrittenField.Disagree : String → WrittenField → WrittenField → Prop
  | here {f g : WrittenField} (same : f.head.outputKey = g.head.outputKey)
    (differ : f.head.name ≠ g.head.name ∨
      Selection.sameArguments f.head.arguments g.head.arguments = false) :
    Disagree f.head.outputKey f g
  | inside {f g a b : WrittenField} {key : String} (left : a ∈ Item.fields f.items)
    (right : b ∈ Item.fields g.items) (same : a.head.outputKey = b.head.outputKey)
    (disagree : Disagree key a b) : Disagree key f g

theorem WrittenField.Agrees.not_disagree {f g : WrittenField} {key : String} (agrees : f.Agrees g) :
    ¬ Disagree key f g := by
  intro disagree
  induction disagree with
  | here same differ =>
    obtain ⟨name, arguments, -⟩ := agrees
    rcases differ with other | other
    · exact other name
    · rw [arguments] at other
      cases other
  | inside left right same _ ih =>
    obtain ⟨-, -, inside⟩ := agrees
    exact ih (inside _ left _ right same)

namespace Document

/-- A fragment holds a spread of another one. -/
def Spreads (document : Document) (name other : String) : Prop :=
  ∃ fragment, Keyed.get? document.fragments name = some fragment ∧
    other ∈ Item.spreadsOf fragment.items

/-- The selection sets that are reached from the query type through fields, inline fragments and
spreads. -/
inductive Reaches (document : Document) : List (Item Value) → Prop
  | root : Reaches document document.root.items
  | field {items inner : List (Item Value)} {head : FieldHead Value}
    (above : Reaches document items) (present : .field head inner ∈ items) : Reaches document inner
  | inline {items inner : List (Item Value)} {condition : Option String}
    (above : Reaches document items) (present : .inline condition inner ∈ items) :
    Reaches document inner
  | spread {items : List (Item Value)} {name : String} {fragment : Fragment}
    (above : Reaches document items) (present : .spread name ∈ items)
    (defined : Keyed.get? document.fragments name = some fragment) :
    Reaches document fragment.items

/-- An item of a selection set that is reached. -/
def Holds (document : Document) (item : Item Value) : Prop :=
  ∃ items, document.Reaches items ∧ item ∈ items

/-- The head of the root, or of a field that is reached. -/
inductive Heads (document : Document) : FieldHead Value → Prop
  | root : Heads document document.root.head
  | field {head : FieldHead Value} {items : List (Item Value)}
    (held : document.Holds (.field head items)) : Heads document head

/-- Nothing is wrong in whatever is reached from the query type. -/
structure WellFormed (document : Document) : Prop where
  /-- Every spread names a fragment that there is. -/
  defined : ∀ name, document.Holds (.spread name) →
    ∃ fragment, Keyed.get? document.fragments name = some fragment
  /-- No fragment leads back to itself. -/
  acyclic : ∀ name, document.Holds (.spread name) →
    ¬ Relation.TransGen document.Spreads name name
  /-- No field has two arguments of one name. -/
  arguments : ∀ head, document.Heads head → (head.arguments.map Prod.fst).Nodup
  /-- Fields of one selection set that are answered under one key can be answered as one. -/
  fields : ∀ items, document.Reaches items → ∀ f ∈ Item.fields items, ∀ g ∈ Item.fields items,
    f.head.outputKey = g.head.outputKey → f.Agrees g

/-- A document has a fault, in what is reached from the query type. -/
inductive Faulty (document : Document) : QueryFault → Prop
  | unknownFragment {name : String} (held : document.Holds (.spread name))
    (undefined : Keyed.get? document.fragments name = none) :
    Faulty document (.unknownFragment name)
  | fragmentCycle {name : String} (held : document.Holds (.spread name))
    (cycle : Relation.TransGen document.Spreads name name) : Faulty document (.fragmentCycle name)
  | duplicateArgument {head : FieldHead Value} {argument : String} (asked : document.Heads head)
    (repeated : 1 < (head.arguments.map Prod.fst).count argument) :
    Faulty document (.duplicateArgument argument)
  | duplicateField {items : List (Item Value)} {f g : WrittenField} {key : String}
    (reached : document.Reaches items) (left : f ∈ Item.fields items)
    (right : g ∈ Item.fields items) (same : f.head.outputKey = g.head.outputKey)
    (disagree : WrittenField.Disagree key f g) : Faulty document (.duplicateField key)

theorem Faulty.not_wellFormed {document : Document} {fault : QueryFault}
    (faulty : document.Faulty fault) : ¬ document.WellFormed := by
  rintro ⟨defined, acyclic, arguments, fields⟩
  cases faulty with
  | unknownFragment held undefined =>
    obtain ⟨fragment, known⟩ := defined _ held
    rw [undefined] at known
    cases known
  | fragmentCycle held cycle => exact acyclic _ held cycle
  | @duplicateArgument head argument asked repeated =>
    exact absurd (List.nodup_iff_count_le_one.mp (arguments head asked) argument) (by omega)
  | duplicateField reached left right same disagree =>
    exact (fields _ reached _ left _ right same).not_disagree disagree

end Document

end GraphRead
