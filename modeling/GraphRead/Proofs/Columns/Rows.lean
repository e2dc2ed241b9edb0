import GraphRead.Proofs.Columns.Mentioned
import GraphRead.Proofs.Page.Execute
/-!
The rows behind the records of a response.

Every record that a response holds, at any depth, is listed at a place of the response
(`exists_at`), and there it is made of a row of the table of its type (`Place.Answered.made`). If
the row has the columns that the schema mentions, then the record shows the values of the row: its
primary key, and the values of all attributes that are asked of it, as they are computed from the
whole row (`showsRow_of_bare`).
-/

namespace GraphRead

open PerParent Success

/-! ### Records and rows -/

/-- A record shows a row: the primary key of the row, and the values of all that is asked of the
record. -/
structure Record.ShowsRow (record : Record) (target : Target) (row : Row) : Prop where
  type : record.type = target.type
  id : ∃ v, Keyed.get? row target.type.primaryKey = some v ∧ record.id = some v
  attributes : ∀ f, target.record? = some f → ∀ a ∈ f.attributes, ∃ v,
    a.resolve target.type.name (Keyed.get? row) = .ok v ∧ record.fieldValue a.name = .ok v
  key : ∀ f, target.record? = some f → ∀ key, (key, .id) ∈ f.items → ∃ v,
    Keyed.get? row target.type.primaryKey = some v ∧ record.fieldValue "id" = .ok v

namespace Attribute

variable {a : Attribute} {type : String} {lookup lookup' : String → Option Value}

/-- Nothing but the columns of an attribute matters for its value. -/
theorem resolve_congr (same : ∀ c ∈ a.columns, lookup c = lookup' c) :
    a.resolve type lookup = a.resolve type lookup' := by
  unfold columns at same
  unfold resolve
  cases source : a.source with
  | column name =>
    rw [source] at same
    simp only [fetch, same name List.mem_cons_self]
  | computed names compute =>
    rw [source] at same
    refine congrArg (Except.map compute) (mapM_congr fun c present => ?_)
    rw [fetch, fetch, same c present]

/-- An attribute whose columns are there has a value. -/
theorem exists_resolve (there : ∀ c ∈ a.columns, (lookup c).isSome) :
    ∃ v, a.resolve type lookup = .ok v := by
  have each (c : String) (here : (lookup c).isSome) : ∃ v, fetch type lookup c = .ok v := by
    obtain ⟨v, found⟩ := Option.isSome_iff_exists.mp here
    exact ⟨v, by rw [fetch, found]⟩
  unfold columns at there
  unfold resolve
  cases source : a.source with
  | column name =>
    rw [source] at there
    exact each name (there name List.mem_cons_self)
  | computed names compute =>
    rw [source] at there
    obtain ⟨values, done⟩ := exists_mapM_ok fun c present => each c (there c present)
    dsimp only
    rw [done]
    exact ⟨compute values, rfl⟩

end Attribute

/-- A field of a type is found under its own name. -/
theorem ObjectType.name_of_field? {type : ObjectType} {fields : List FieldKind}
    (filed : type.fields = fieldsOf fields) {name : String} {kind : FieldKind}
    (found : type.field? name = some kind) : kind.name = name := by
  have present := Keyed.mem_of_get? found
  rw [filed] at present
  obtain ⟨own, -, same⟩ := List.mem_map.mp (Keyed.mem_of_mem_ofList present)
  cases same
  rfl

section ShowsRow

variable {schema : Schema} {store : Memory} {place : Place} {target : Target} {row : Row}
  {record : Record}

/-- A record that is made of a row shows the values of the row under the columns that are needed. -/
theorem get?_of_bare (fills : schema.Fills store) (present : row ∈ store.rowsOf target.type.table)
    (bare : record.bare = place.record ⟨target, row⟩) {column : String}
    (mentioned : schema.Mentions target.type.table column)
    (needs : Plan.Needs target (place.parent.map fun (column, v) => ⟨column, [v]⟩) column) :
    record.get? column = Keyed.get? row column := by
  have asked : column ∈ (place.plan target).columns := Plan.mem_columns_compile.mpr needs
  obtain ⟨v, there⟩ := Option.isSome_iff_exists.mp (fills _ _ mentioned row present)
  calc record.get? column
    _ = record.bare.get? column := rfl
    _ = (place.record ⟨target, row⟩).get? column := by rw [bare]
    _ = some (row.value column) := Plan.get?_recordFor asked row
    _ = Keyed.get? row column := by rw [Row.value, there, Option.getD_some]

/-- A record that is made of a row shows the row. -/
theorem showsRow_of_bare (fills : schema.Fills store) (bound : target.BoundTo schema)
    {fields : List FieldKind} (filed : target.type.fields = ObjectType.fieldsOf fields)
    (present : row ∈ store.rowsOf target.type.table)
    (bare : record.bare = place.record ⟨target, row⟩) : record.ShowsRow target row := by
  have type : record.type = target.type := congrArg (fun r : Record => r.type) bare
  have key : ∃ v, Keyed.get? row target.type.primaryKey = some v ∧
      record.get? target.type.primaryKey = some v := by
    obtain ⟨v, there⟩ := Option.isSome_iff_exists.mp (fills _ _ (.key bound.1) row present)
    exact ⟨v, there, (get?_of_bare fills present bare (.key bound.1) .key).trans there⟩
  refine ⟨type, ?_, fun f asked a known => ?_, fun f asked k item => ?_⟩
  · rw [Record.id, type]
    exact key
  · obtain ⟨_, _, isBound⟩ := bound.2 f asked
    obtain ⟨name, found⟩ := exists_field isBound known
    obtain rfl : a.name = name := ObjectType.name_of_field? filed found
    have values (c : String) (needs : c ∈ a.columns) : record.get? c = Keyed.get? row c :=
      get?_of_bare fills present bare (bound.mentions asked known needs) (.value asked known needs)
    obtain ⟨v, resolved⟩ : ∃ v, a.resolve target.type.name (Keyed.get? row) = .ok v :=
      Attribute.exists_resolve fun c needs =>
        fills _ _ (bound.mentions asked known needs) row present
    refine ⟨v, resolved, ?_⟩
    rw [Record.fieldValue, type, found]
    exact (Attribute.resolve_congr values).trans resolved
  · obtain ⟨_, _, isBound⟩ := bound.2 f asked
    obtain ⟨v, there, shown⟩ := key
    refine ⟨v, there, ?_⟩
    rw [Record.fieldValue, type, field?_id isBound item]
    dsimp only
    rw [if_pos rfl, Attribute.fetch, shown]

end ShowsRow

/-! ### The rows of a place -/

section Places

variable {schema : Schema} {store : Memory} {reads : List RootRead} {response : Response}

/-- What is asked at a place is bound to the schema, if what is asked of the root fields is. -/
theorem boundTo_of_at (bound : ∀ read ∈ reads, ∀ target ∈ read.targets, target.BoundTo schema)
    {place : Place} {answer : Answer Record} (here : response.At reads place answer) :
    ∀ target ∈ place.targets, target.BoundTo schema := by
  induction here with
  | root asked _ => exact bound _ asked
  | link _ _ reached _ asked linked _ ih =>
    exact fun child below =>
      (ih _ reached).child (Target.mem_links.mpr ⟨_, asked, linked⟩) below

/-! ### The records of a response -/

/-- A response holds a record, at whatever depth. -/
inductive Response.Holds (response : Response) : Record → Prop
  | root {key : String} {answer : Answer Record} {record : Record}
    (shown : (key, answer) ∈ response) (listed : record ∈ answer.records) : response.Holds record
  | link {above record : Record} {key : String} {answer : Answer Record}
    (upper : response.Holds above) (shown : (key, answer) ∈ above.links)
    (listed : record ∈ answer.records) : response.Holds record

/-- Every answer of a completed record is that of an association which is asked of it. -/
theorem Completed.exists_link {target : Target} {record : Record}
    (completed : Completed store target record) {key : String} {answer : Answer Record}
    (shown : (key, answer) ∈ record.links) :
    ∃ f l, target.record? = some f ∧ (key, l) ∈ f.links := by
  obtain ⟨-, position, r, r', fresh, rfl, done⟩ := completed
  cases asked : target.record? with
  | none =>
    rw [complete_of_none r asked] at done
    cases done
    rw [fresh] at shown
    cases shown
  | some f =>
    rw [complete_of_some r asked] at done
    rcases answer_of_attached done shown with before | ⟨l, linked, -⟩
    · rw [fresh] at before
      cases before
    · exact ⟨f, l, rfl, linked⟩

/-- Every record of a response is listed at a place of it. -/
theorem exists_at (found : ∀ {place answer}, response.At reads place answer →
      place.Found schema store answer)
    (done : PerParent.response store.connector reads = .ok response) {record : Record}
    (held : response.Holds record) :
    ∃ place answer, response.At reads place answer ∧ record ∈ answer.records := by
  induction held with
  | @root key answer record shown listed =>
    obtain ⟨answers, -, same⟩ := Fallible.bind_eq_ok.mp done
    cases Fallible.pure_eq_ok.mp same
    have keyed := (List.of_mem_zip (Keyed.mem_of_mem_ofList shown)).1
    obtain ⟨read, asked, rfl⟩ := List.mem_map.mp keyed
    exact ⟨_, answer, .root asked shown, listed⟩
  | link _ shown listed ih =>
    obtain ⟨place, above, here, among⟩ := ih
    obtain ⟨target, reached, completed, -⟩ := (found here).answered.made among
    obtain ⟨f, l, asked, linked⟩ := completed.exists_link shown
    exact ⟨_, _, .link here among reached completed.1.symm asked linked shown, listed⟩

end Places

end GraphRead
