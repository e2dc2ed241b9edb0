import GraphRead.Binding.Bind
import GraphRead.Fallible
/-!
The fields of a record, one by one.

What is bound for a field of a record (`Selection.bindItem`) depends on the type of the record and
on the field alone, and the fields of a record are bound one after the other (`bindItems_cons_eq`).
-/

namespace GraphRead.Selection

/-- Binds one field of a record. Nothing is bound for what is answered without the data. -/
def bindItem (schema : Schema) (type : ObjectType) (path : Path) (s : Selection) :
    Except BindError (Option BoundItem) :=
  match type.field? s.name with
  | some (.scalar a) => do
    s.withoutArguments path
    return some (.scalar a)
  | some (.link association) =>
    (bindLink schema association path s).map fun bound => some (.link bound)
  | none =>
    if s.name = "id" then do
      s.withoutArguments path
      return some .id
    else if isElided s.name then return none
    else .error (.unsupportedField s.name type.name path)

/-- The bound fields of a record with one more in front, if anything is bound for it. -/
def consItem (key : String) (item : Option BoundItem) (more : List (String × BoundItem)) :
    List (String × BoundItem) :=
  match item with
  | some bound => (key, bound) :: more
  | none => more

theorem bindItems_cons_eq (schema : Schema) (type : ObjectType) (path : Path) (key : String)
    (child : Selection) (rest : List (String × Selection)) :
    bindItems schema type path ((key, child) :: rest) = (do
      let item ← bindItem schema type (path.add key) child
      let more ← bindItems schema type path rest
      return consItem key item more) := by
  rw [bindItems, bindItem]
  dsimp only
  cases type.field? child.name with
  | some kind =>
    cases kind with
    | scalar a => cases child.withoutArguments (path.add key) <;> rfl
    | link association => cases bindLink schema association (path.add key) child <;> rfl
  | none =>
    dsimp only
    split
    · cases child.withoutArguments (path.add key) <;> rfl
    · split <;> rfl

/-- Every field of a record that is bound was bound on its own. -/
theorem bindItem_of_mem {schema : Schema} {type : ObjectType} {path : Path}
    {children : List (String × Selection)} {items : List (String × BoundItem)}
    (done : bindItems schema type path children = .ok items) :
    ∀ entry ∈ children, ∃ item, bindItem schema type (path.add entry.1) entry.2 = .ok item ∧
      ∀ bound, item = some bound → (entry.1, bound) ∈ items := by
  induction children generalizing items with
  | nil => exact List.forall_mem_nil _
  | cons entry rest ih =>
    obtain ⟨key, child⟩ := entry
    rw [bindItems_cons_eq] at done
    obtain ⟨item, isItem, done⟩ := Fallible.bind_eq_ok.mp done
    obtain ⟨more, later, done⟩ := Fallible.bind_eq_ok.mp done
    cases Fallible.pure_eq_ok.mp done
    refine List.forall_mem_cons.mpr ⟨⟨item, isItem, fun bound same => ?_⟩, fun entry present => ?_⟩
    · rw [same]
      exact List.mem_cons_self
    · obtain ⟨other, isOther, listed⟩ := ih later entry present
      refine ⟨other, isOther, fun bound same => ?_⟩
      cases item with
      | none => exact listed bound same
      | some first => exact List.mem_cons_of_mem _ (listed bound same)

end GraphRead.Selection
