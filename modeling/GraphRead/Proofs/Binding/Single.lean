import GraphRead.Binding.Root
import GraphRead.Proofs.Success
/-!
Binding a single field.

Where a query asks for one field, and the field leads to one type, nothing has to be collected: the
query is bound exactly if the field is bound to the type.
-/

namespace GraphRead.Selection

variable {schema : Schema} {s : Selection} {key : String}

/-- A selection without fragments is resolved as it is. -/
theorem resolveFragments_self (accept : String → Except BindError Bool) (path : Path)
    (bare : s.fragments = []) : resolveFragments accept path s = .ok s := by
  obtain ⟨name, aliasName, arguments, children, fragments⟩ := s
  cases bare
  rw [resolveFragments]
  show spliceQueue accept path _ [] = _
  rw [spliceQueue]
  rfl

/-- Where there is one type to enter, there is one target. -/
theorem bindTargets_single {entry : EntryPoint} {name : String} {path : Path} {type : ObjectType}
    (alone : targetTypes schema name path = .ok [type]) :
    bindTargets schema entry name path s =
      (bindTarget schema entry false type path s).map fun target => [target] := by
  rw [bindTargets, alone]
  show bindEach schema entry false path s [type] = _
  rw [bindEach, bindEach]
  cases bindTarget schema entry false type path s <;> rfl

/-- A root field that lists one type is bound to the list of that type. -/
theorem bindRoot_list {root : RootField} {order : Order} {type : ObjectType} {filter : Filter}
    {c : BoundConnection} (known : Keyed.get? schema.roots s.name = some root)
    (listed : root.kind = .connection order)
    (alone : targetTypes schema root.target (rootPath.add key) = .ok [type])
    (filtered : s.declaredFilter root.filters paginationArguments (rootPath.add key) = .ok filter)
    (bound : bindConnection schema order false type (rootPath.add key) s = .ok c) :
    bindRoot schema key s = .ok ⟨key, filter, [.connection c], .many⟩ := by
  rw [bindRoot]
  simp only [known, listed]
  rw [filtered, bindTargets_single alone, bindTarget, bound]
  rfl

/-- A root field that looks up a record of one type is bound to the fields of that type. -/
theorem bindRoot_lookup {root : RootField} {type : ObjectType} {id : Value} {filter : Filter}
    {f : BoundField} (known : Keyed.get? schema.roots s.name = some root)
    (single : root.kind = .single) (keyed : s.lookupKey root (rootPath.add key) = .ok id)
    (alone : targetTypes schema root.target (rootPath.add key) = .ok [type])
    (filtered : s.declaredFilter root.filters ["id"] (rootPath.add key) = .ok filter)
    (bound : bindField schema type (rootPath.add key) s = .ok f) :
    bindRoot schema key s = .ok ⟨key, filter, [.field f], .single id⟩ := by
  rw [bindRoot]
  simp only [known, single]
  rw [keyed, filtered, bindTargets_single alone, bindTarget, bound]
  rfl

/-- A query with a single field reads this field alone. -/
theorem rootReads_single :
    rootReads schema ⟨rootName, none, [], [(key, s)], []⟩ =
      if s.name = typeName then .ok [] else (bindRoot schema key s).map fun r => [r] := by
  have resolved : resolveRoot ⟨rootName, none, [], [(key, s)], []⟩ =
      .ok ⟨rootName, none, [], [(key, s)], []⟩ := by
    rw [resolveRoot, spliceConditions]
  rw [rootReads, resolved]
  show ((([(key, s)] : List (String × Selection)).filter fun entry => entry.2.name ≠ typeName).mapM
    fun entry => bindRoot schema entry.1 entry.2) = _
  by_cases elided : s.name = typeName
  · rw [if_pos elided, List.filter_cons_of_neg (by simpa using elided)]
    rfl
  · rw [if_neg elided, List.filter_cons_of_pos (by simpa using elided), List.filter_nil,
      List.mapM_cons]
    cases bindRoot schema key s <;> rfl

end GraphRead.Selection
