import GraphRead.Proofs.Binding.Formed
import GraphRead.Proofs.InStep
import GraphRead.Resolve.Plan
import Mathlib.Data.List.Forall2
/-!
Bound queries whose positions have their types in another order.

The targets of a position are bound in the order in which an interface lists its types. Two bound
queries are reordered if they only differ in that, on every level (`Target.Reordered`,
`RootRead.Reordered`). What is read for a target does not tell in which order the targets below it
are, so its plan is the same (`Target.Reordered.compile`).
-/

namespace GraphRead

/-! ### Another record in a target -/

/-- An edge with something else asked of its record, if anything is. -/
def BoundEdge.withNode (e : BoundEdge) (f : BoundField) : BoundEdge :=
  { e with node := e.node.map fun _ => f }

/-- A list with something else asked of its records, if anything is. -/
def BoundConnection.withNode (c : BoundConnection) (f : BoundField) : BoundConnection :=
  { c with edges := c.edges.map fun e => e.withNode f }

/-- A target with something else asked of its records, if anything is. -/
def Target.withRecord : Target → BoundField → Target
  | .field _, f => .field f
  | .connection c, f => .connection (c.withNode f)
  | .edge e, f => .edge (e.withNode f)

namespace BoundConnection

variable (c : BoundConnection) (f : BoundField)

@[simp] theorem shared_withNode : (c.withNode f).shared = c.shared := by
  obtain ⟨type, order, page, _ | e, info, count, typed⟩ := c <;> rfl

@[simp] theorem type_withNode : (c.withNode f).type = c.type := rfl

@[simp] theorem effectiveOrder_withNode : (c.withNode f).effectiveOrder = c.effectiveOrder := rfl

@[simp] theorem fetchLimit_withNode : (c.withNode f).fetchLimit = c.fetchLimit := rfl

@[simp] theorem listing_withNode :
    Listing.ofConnection (c.withNode f) = Listing.ofConnection c := by
  obtain ⟨type, order, page, _ | e, info, count, typed⟩ := c <;> rfl

end BoundConnection

namespace Target

variable {target : Target} {f : BoundField}

theorem connection?_withRecord (target : Target) (f : BoundField) :
    (target.withRecord f).connection? = target.connection?.map fun c => c.withNode f := by
  cases target <;> rfl

theorem record?_withRecord (asked : target.record? = some f) (f' : BoundField) :
    (target.withRecord f').record? = some f' := by
  rcases target with g | ⟨_, _, _, _ | ⟨_, _ | g, _⟩, _, _, _⟩ | ⟨_, _ | g, _⟩ <;>
    first | rfl | cases asked

theorem type_withRecord (asked : target.record? = some f) {f' : BoundField}
    (type : f'.type = f.type) : (target.withRecord f').type = target.type := by
  cases target with
  | field g =>
    cases asked
    exact type
  | connection c => rfl
  | edge e => rfl

end Target

/-! ### Positions in another order -/

/-- Some targets are lists, and they ask the same of their position. -/
def Target.AskAlike (targets : List Target) : Prop :=
  ∀ target ∈ targets, ∃ c, target = .connection c ∧
    ∀ other ∈ targets, ∀ c', other = .connection c' → c'.shared = c.shared

mutual

/-- The same target, with the targets of its associations in another order, and so on below. -/
inductive Target.Reordered : Target → Target → Prop
  | bare {target : Target} (none : target.record? = none) :
    Target.Reordered target target
  | record {target : Target} {f f' : BoundField} (asked : target.record? = some f)
    (type : f'.type = f.type) (items : Keyed.Both BoundItem.Reordered f.items f'.items) :
    Target.Reordered target (target.withRecord f')

/-- The same thing asked of a record. The targets of an association are of different types, and
they ask alike where it leads to many records. -/
inductive BoundItem.Reordered : BoundItem → BoundItem → Prop
  | id : BoundItem.Reordered .id .id
  | scalar (a : Attribute) : BoundItem.Reordered (.scalar a) (.scalar a)
  | link {association : Association} {filter : Filter} {targets middle others : List Target}
    (perm : targets.Perm middle) (each : List.Forall₂ Target.Reordered middle others)
    (apart : (targets.map fun target => target.type.name).Nodup)
    (alike : association.isMany → Target.AskAlike targets) :
    BoundItem.Reordered (.link ⟨association, filter, targets⟩)
      (.link ⟨association, filter, others⟩)

end

/-- The targets of one position in another order, each of them reordered. -/
structure Target.Shuffled (many : Prop) (targets others : List Target) : Prop where
  matched : ∃ middle, targets.Perm middle ∧ List.Forall₂ Target.Reordered middle others
  apart : (targets.map fun target => target.type.name).Nodup
  alike : many → Target.AskAlike targets

/-- The same association, with all targets below it in another order. -/
structure BoundLink.Reordered (l l' : BoundLink) : Prop where
  association : l'.association = l.association
  filter : l'.filter = l.filter
  targets : Target.Shuffled l.association.isMany l.targets l'.targets

theorem BoundItem.Reordered.ofLink {l l' : BoundLink} (r : l.Reordered l') :
    BoundItem.Reordered (.link l) (.link l') := by
  obtain ⟨association, filter, targets⟩ := l
  obtain ⟨association', filter', others⟩ := l'
  obtain ⟨rfl, rfl, ⟨middle, perm, each⟩, apart, alike⟩ := r
  exact .link perm each apart alike

/-- The same record, with all targets below it in another order. -/
structure BoundField.Reordered (f f' : BoundField) : Prop where
  type : f'.type = f.type
  items : Keyed.Both BoundItem.Reordered f.items f'.items

/-- The same edge, with all targets below it in another order. -/
inductive BoundEdge.Reordered : BoundEdge → BoundEdge → Prop
  | bare {e : BoundEdge} (none : e.node = none) : Reordered e e
  | node {e : BoundEdge} {f f' : BoundField} (asked : e.node = some f)
    (record : BoundField.Reordered f f') : Reordered e (e.withNode f')

/-- The same root field, with all its targets in another order. -/
structure RootRead.Reordered (read read' : RootRead) : Prop where
  key : read'.key = read.key
  filter : read'.filter = read.filter
  kind : read'.kind = read.kind
  targets : Target.Shuffled (read.kind = .many) read.targets read'.targets

namespace BoundField.Reordered

variable {f f' : BoundField} (r : BoundField.Reordered f f')

include r

theorem attributes : f'.attributes = f.attributes := by
  have items := r.items
  unfold BoundField.attributes
  generalize f.items = left, f'.items = right at items
  induction items with
  | nil => rfl
  | cons first _ ih =>
    cases first with
    | id => exact ih
    | scalar a => exact congrArg (a :: ·) ih
    | link => exact ih

/-- The associations are under the same keys. -/
theorem links : Keyed.Both BoundLink.Reordered f.links f'.links := by
  have items := r.items
  unfold BoundField.links
  generalize f.items = left, f'.items = right at items
  induction items with
  | nil => exact .nil
  | cons first _ ih =>
    cases first with
    | id => exact ih
    | scalar a => exact ih
    | link perm each apart alike => exact .cons ⟨rfl, rfl, ⟨_, perm, each⟩, apart, alike⟩ ih

theorem localColumns : (f'.links.map fun link => link.2.association.localColumn) =
    f.links.map fun link => link.2.association.localColumn := by
  have links := r.links
  generalize f.links = left, f'.links = right at links
  induction links with
  | nil => rfl
  | cons first _ ih => rw [List.map_cons, List.map_cons, ih, first.association]

end BoundField.Reordered

namespace Target.Reordered

variable {target target' : Target} (r : Reordered target target')

include r

/-- What is asked of the records is reordered, or nothing is asked of them. -/
theorem cases_record : (target.record? = none ∧ target' = target) ∨
    ∃ f f', target.record? = some f ∧ target'.record? = some f' ∧ BoundField.Reordered f f' := by
  cases r with
  | bare none => exact .inl ⟨none, rfl⟩
  | record asked type items =>
    exact .inr ⟨_, _, asked, record?_withRecord asked _, type, items⟩

theorem type : target'.type = target.type := by
  cases r with
  | bare => rfl
  | record asked type _ => exact type_withRecord asked type

/-- Lists ask the same of their position. -/
theorem connection? : (target.connection? = none ∧ target'.connection? = none) ∨
    ∃ c c', target = .connection c ∧ target' = .connection c' ∧ c'.shared = c.shared ∧
      c'.type = c.type ∧ c'.effectiveOrder = c.effectiveOrder := by
  cases target with
  | connection c =>
    cases r with
    | bare => exact .inr ⟨c, c, rfl, rfl, rfl, rfl, rfl⟩
    | record => exact .inr ⟨c, _, rfl, rfl, c.shared_withNode _, rfl, rfl⟩
  | field f => cases r <;> exact .inl ⟨rfl, rfl⟩
  | edge e => cases r <;> exact .inl ⟨rfl, rfl⟩

/-- A target is read as it is read in another order. -/
theorem compile (filter : Filter) (join : Option Join) (take : Option Nat) :
    Plan.compile target' filter join take = Plan.compile target filter join take := by
  have ofType := r.type
  cases r with
  | bare => rfl
  | @record _ f f' asked type items =>
    have own : BoundField.Reordered f f' := ⟨type, items⟩
    have columns (listing : Option Listing) :
        Plan.requiredColumns (target.withRecord f') join listing =
          Plan.requiredColumns target join listing := by
      simp only [Plan.requiredColumns, asked, record?_withRecord asked, Option.map_some,
        own.attributes, own.localColumns, ofType]
    simp only [Plan.compile, ofType, columns, connection?_withRecord]
    cases target.connection? with
    | none => rfl
    | some c => simp only [Option.map_some, BoundConnection.listing_withNode,
        BoundConnection.fetchLimit_withNode]

end Target.Reordered

end GraphRead
