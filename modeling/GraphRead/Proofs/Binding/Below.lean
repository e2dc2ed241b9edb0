import GraphRead.Proofs.Walk.Binding
/-!
The associations below a binding.

Every association that is asked of a record is bound in the same way as the one that leads to the
record (`Schema.Binds`), so whatever binding guarantees of one association it guarantees of all of
them, however deep they lie (`Schema.Binds.below`).
-/

namespace GraphRead

/-- An association as it is bound to a schema, from whatever selection. -/
def Schema.Binds (schema : Schema) (l : BoundLink) : Prop :=
  ∃ association path s, Selection.bindLink schema association path s = .ok l

namespace Target

/-- The associations that a target asks for, under their keys. -/
def links (target : Target) : List (String × BoundLink) :=
  (target.record?.map BoundField.links).getD []

theorem mem_links {target : Target} {link : String × BoundLink} :
    link ∈ target.links ↔ ∃ f, target.record? = some f ∧ link ∈ f.links := by
  rw [links]
  cases target.record? with
  | none => simp
  | some f => simp

end Target

namespace Selection

open Fallible

variable {schema : Schema}

/-- An association among bound items is that of the child under its key. -/
theorem child_of_mem_items {type : ObjectType} {path : Path}
    {children : List (String × Selection)} {items : List (String × BoundItem)}
    (done : bindItems schema type path children = .ok items) {key : String} {l : BoundLink}
    (present : (key, .link l) ∈ items) : ∃ child association, (key, child) ∈ children ∧
      type.field? child.name = some (.link association) ∧
        bindLink schema association (path.add key) child = .ok l := by
  induction children generalizing items with
  | nil =>
    rw [bindItems] at done
    cases done
    cases present
  | cons entry rest ih =>
    have later {more : List (String × BoundItem)}
        (others : bindItems schema type path rest = .ok more) (there : (key, .link l) ∈ more) :
        ∃ child association, (key, child) ∈ entry :: rest ∧
          type.field? child.name = some (.link association) ∧
            bindLink schema association (path.add key) child = .ok l := by
      obtain ⟨child, association, known, made⟩ := ih others there
      exact ⟨child, association, List.mem_cons_of_mem _ known, made⟩
    obtain ⟨more, others, rfl | ⟨item, rfl, made⟩⟩ := bindItems_cons schema done
    · exact later others present
    · rcases List.mem_cons.mp present with here | there
      · cases here
        obtain ⟨association, made⟩ := made l rfl
        exact ⟨entry.2, association, List.mem_cons_self, made⟩
      · exact later others there

/-- What a bound record asks for is bound from an association of its type. -/
theorem exists_bindLink {type : ObjectType} {path : Path} {s : Selection} {f : BoundField}
    (done : bindField schema type path s = .ok f) {key : String} {l : BoundLink}
    (linked : (key, l) ∈ f.links) :
    l.association ∈ type.associations ∧ ∃ path s, bindLink schema l.association path s = .ok l := by
  rw [bindField] at done
  split at done
  · cases done
  · obtain ⟨items, isItems, rfl⟩ := map_eq_ok.mp done
    obtain ⟨child, association, -, found, isBound⟩ := child_of_mem_items isItems (mem_items linked)
    rw [(bindLink_many isBound).1]
    exact ⟨List.mem_filterMap.mpr ⟨_, Keyed.mem_of_get? found, rfl⟩, _, child, isBound⟩

theorem binds_of_mem_links {type : ObjectType} {path : Path} {s : Selection} {f : BoundField}
    (done : bindField schema type path s = .ok f) {key : String} {l : BoundLink}
    (linked : (key, l) ∈ f.links) : schema.Binds l :=
  ⟨_, (exists_bindLink done linked).2⟩

/-- What is asked of the records of a bound target is bound to its type from some selection. -/
theorem exists_bindField {entry : EntryPoint} {name : String} {path : Path} {s : Selection}
    {targets : List Target} (done : bindTargets schema entry name path s = .ok targets)
    {target : Target} (reached : target ∈ targets) {f : BoundField}
    (asked : target.record? = some f) :
    ∃ path s, bindField schema target.type path s = .ok f := by
  have ofEdge {type : ObjectType} {path : Path} {s : Selection} {e : BoundEdge}
      (done : bindEdge schema type path s = .ok e) (asked : e.node = some f) :
      ∃ path s, bindField schema type path s = .ok f := by
    obtain ⟨resolved, parts, -, -, -, -, node⟩ := bindEdge_ok done
    obtain ⟨inner, -, isBound⟩ := node f asked
    exact ⟨_, inner, isBound⟩
  rw [bindTargets] at done
  obtain ⟨types, -, done⟩ := bind_eq_ok.mp done
  obtain ⟨type, -, bound⟩ := (bindEach_ok done).2 target reached
  rw [bindTarget_type bound]
  unfold bindTarget at bound
  split at bound
  · obtain ⟨own, isBound, rfl⟩ := map_eq_ok.mp bound
    cases asked
    exact ⟨_, _, isBound⟩
  · obtain ⟨c, isBound, rfl⟩ := map_eq_ok.mp bound
    obtain ⟨parts, made⟩ := bindConnection_ok isBound
    rcases made.edges with ⟨none, -⟩ | ⟨edges, e, -, isEdge, some⟩
    · rw [Target.record?, BoundConnection.node, none] at asked
      cases asked
    · rw [Target.record?, BoundConnection.node, some] at asked
      exact ofEdge isEdge asked
  · obtain ⟨e, isEdge, rfl⟩ := map_eq_ok.mp bound
    exact ofEdge isEdge asked

theorem binds_of_bindTargets {entry : EntryPoint} {name : String} {path : Path} {s : Selection}
    {targets : List Target} (done : bindTargets schema entry name path s = .ok targets) :
    ∀ target ∈ targets, ∀ link ∈ target.links, schema.Binds link.2 := by
  intro target reached link linked
  obtain ⟨f, asked, linked⟩ := Target.mem_links.mp linked
  obtain ⟨_, _, isBound⟩ := exists_bindField done reached asked
  exact binds_of_mem_links isBound linked

/-- A position is bound to the types behind a name, one after the other. -/
theorem types_of_bindTargets {entry : EntryPoint} {name : String} {path : Path} {s : Selection}
    {targets : List Target} (done : bindTargets schema entry name path s = .ok targets) :
    schema.coveredTypes name = .ok (targets.map Target.type) := by
  rw [bindTargets] at done
  obtain ⟨types, isTypes, done⟩ := bind_eq_ok.mp done
  rw [(bindEach_ok done).1]
  exact mapError_eq_ok.mp isTypes

/-- Every root field of a query is bound on its own. -/
theorem exists_bindRoot {root : Selection} {reads : List RootRead}
    (done : root.rootReads schema = .ok reads) {read : RootRead} (asked : read ∈ reads) :
    ∃ key s, bindRoot schema key s = .ok read := by
  unfold rootReads at done
  obtain ⟨resolved, -, isReads⟩ := bind_eq_ok.mp done
  obtain ⟨⟨key, s⟩, -, isRoot⟩ := Success.exists_of_mem_mapM_ok isReads asked
  exact ⟨key, s, isRoot⟩

end Selection

namespace Schema.Binds

variable {schema : Schema} {l : BoundLink} (bound : schema.Binds l)

include bound

theorem together : schema.Together l.targets := by
  obtain ⟨_, _, _, isBound⟩ := bound
  obtain ⟨_, isTargets⟩ := Selection.bindLink_ok schema isBound
  exact Selection.bindTargets_together isTargets

/-- An association is bound to the types behind its target. -/
theorem types : schema.coveredTypes l.association.target = .ok (l.targets.map Target.type) := by
  obtain ⟨association, path, s, isBound⟩ := bound
  rw [(Selection.bindLink_many isBound).1]
  obtain ⟨entry, isTargets⟩ := Selection.bindLink_ok schema isBound
  exact Selection.types_of_bindTargets isTargets

/-- An association that leads to lists leads to many records. -/
theorem many {c : BoundConnection} (asked : .connection c ∈ l.targets) : l.association.isMany := by
  obtain ⟨_, _, _, isBound⟩ := bound
  obtain ⟨rfl, many⟩ := Selection.bindLink_many isBound
  exact many asked

/-- The associations below are bound like the one above. -/
theorem below {target : Target} (reached : target ∈ l.targets) {link : String × BoundLink}
    (linked : link ∈ target.links) : schema.Binds link.2 := by
  obtain ⟨_, _, _, isBound⟩ := bound
  obtain ⟨_, isTargets⟩ := Selection.bindLink_ok schema isBound
  exact Selection.binds_of_bindTargets isTargets target reached link linked

end Schema.Binds

end GraphRead
