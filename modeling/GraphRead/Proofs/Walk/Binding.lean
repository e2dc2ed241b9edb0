import GraphRead.Proofs.Binding.Single
import GraphRead.Proofs.Document.Headed
import GraphRead.Proofs.Walk.Turned
/-!
Binding a field that asks for another page.

The arguments of a page are read only for the page. So if one page of a connection can be bound, any
other page of it can be bound, provided that its cursor can be read and fits the order, and the
targets are the same but for the page.
-/

namespace GraphRead

open Selection Fallible

theorem Side.ofPage_arguments (side : Side) (size : Int64) (text : Option String) :
    ∀ entry ∈ side.arguments size text, entry.1 ∈ paginationArguments := by
  cases side <;> cases text <;> simp [arguments, paginationArguments]

namespace WrittenField

variable (field : WrittenField) (side : Side) (size : Int64) (text : Option String)

theorem not_mem_of_restricting {entry : String × Value} (kept : entry ∈ field.restricting) :
    entry.1 ∉ paginationArguments := by
  intro ofPage
  have passes := (List.mem_filter.mp kept).2
  rw [List.contains_iff_mem.mpr ofPage] at passes
  cases passes

/-- The arguments of the field apart from the page. -/
theorem filter_paged : (field.paged side size text).head.arguments.filter (fun entry =>
    !paginationArguments.contains entry.1) = field.restricting := by
  have page : (side.arguments size text).filter (fun entry =>
      !paginationArguments.contains entry.1) = [] := by
    refine List.filter_eq_nil_iff.mpr fun entry asked => ?_
    rw [List.contains_iff_mem.mpr (side.ofPage_arguments size text entry asked)]
    decide
  show (side.arguments size text ++ field.restricting).filter _ = _
  rw [List.filter_append, page, List.nil_append, restricting, List.filter_filter]
  simp only [Bool.and_self]

/-- No argument is repeated if none of the field apart from the page is. -/
theorem nodup_paged (distinct : (field.restricting.map Prod.fst).Nodup) :
    ((field.paged side size text).head.arguments.map Prod.fst).Nodup := by
  show ((side.arguments size text ++ field.restricting).map Prod.fst).Nodup
  rw [List.map_append, List.nodup_append]
  refine ⟨by cases side <;> cases text <;> simp [Side.arguments], distinct, ?_⟩
  intro name asked other known same
  obtain ⟨entry, own, rfl⟩ := List.mem_map.mp asked
  obtain ⟨entry', kept, rfl⟩ := List.mem_map.mp known
  exact field.not_mem_of_restricting kept (same ▸ side.ofPage_arguments size text entry own)

theorem nodup_restricting
    (distinct : ((field.paged side size text).head.arguments.map Prod.fst).Nodup) :
    (field.restricting.map Prod.fst).Nodup := by
  rw [← field.filter_paged side size text]
  exact distinct.sublist (List.filter_sublist.map _)

/-- An argument of a page has the value that the page gives to it. -/
theorem get?_paged {name : String} (ofPage : name ∈ paginationArguments) :
    Keyed.get? (field.paged side size text).head.arguments name =
      Keyed.get? (side.arguments size text) name := by
  have other : Keyed.get? field.restricting name = none := by
    cases found : Keyed.get? field.restricting name with
    | none => rfl
    | some v => exact absurd ofPage (field.not_mem_of_restricting (Keyed.mem_of_get? found))
  show Keyed.get? (side.arguments size text ++ field.restricting) name = _
  rw [Keyed.get?_append, other, Option.or_none]

end WrittenField

/-- A field that asks for another page has the same selection with the arguments of that page. -/
theorem Selection.ofItems_paged {fragments : Keyed Fragment} {path : Path} {field : WrittenField}
    {side : Side} {size : Int64} {s : Selection}
    (built : ofItems fragments path (field.paged side size none) = .ok s) (text : Option String) :
    s.headed (field.paged side size none).head = s ∧
      ofItems fragments path (field.paged side size text) =
        .ok (s.headed (field.paged side size text).head) := by
  have distinct := field.nodup_restricting side size none (nodup_of_ofItems built)
  obtain ⟨same, others⟩ := ofItems_headed (field.paged side size text).head built
  exact ⟨same, others (field.nodup_paged side size text distinct)⟩

/-- The page that a field asks for, whose cursor is what is read from the text. -/
theorem Selection.pagination_paged {field : WrittenField} {side : Side} {size : Int64}
    {text : Option String} {s : Selection}
    (asked : s.arguments = (field.paged side size text).head.arguments)
    (positive : 0 ≤ size.toInt) {cursor : Option Cursor}
    (read : text.mapM Cursor.decode = .ok cursor) (path : Path) :
    s.pagination path = .ok (side.page size.toInt.toNat cursor) := by
  have argument {name : String} (ofPage : name ∈ paginationArguments) :
      s.argument? name = Keyed.get? (side.arguments size text) name := by
    rw [argument?, asked, field.get?_paged side size text ofPage]
  have first : s.argument? "first" = _ := argument (by decide)
  have last : s.argument? "last" = _ := argument (by decide)
  have after : s.argument? "after" = _ := argument (by decide)
  have before : s.argument? "before" = _ := argument (by decide)
  cases text with
  | none =>
    cases pure_eq_ok.mp read
    cases side <;>
      simp [pagination, limit?, cursor?, first, last, after, before, Side.arguments, Side.page,
        Keyed.get?, positive, bind, Except.bind, pure, Except.pure]
  | some text =>
    obtain ⟨cursor, decoded, rfl⟩ := map_eq_ok.mp read
    cases side <;>
      simp [pagination, limit?, cursor?, first, last, after, before, Side.arguments, Side.page,
        Keyed.get?, positive, decoded, bind, Except.bind, pure, Except.pure]

namespace Selection

variable {schema : Schema} {path : Path} {s : Selection} {head other : FieldHead Value}

/-- Filters are made of the arguments that they are not allowed to pass over. -/
theorem declaredFilter_headed (declared : List DeclaredFilter) (named : other.name = head.name)
    (same : (other.arguments.filter fun entry => !paginationArguments.contains entry.1) =
      head.arguments.filter fun entry => !paginationArguments.contains entry.1) :
    (s.headed other).declaredFilter declared paginationArguments path =
      (s.headed head).declaredFilter declared paginationArguments path := by
  unfold declaredFilter argumentFilter headed
  dsimp only
  rw [same, named]

/-- A connection is bound to another page if the page is bound. -/
theorem bindConnection_turned {order : Order} {typed : Bool} {type : ObjectType}
    {c : BoundConnection}
    (bound : bindConnection schema order typed type path (s.headed head) = .ok c)
    {page : Pagination} (paged : (s.headed other).boundPagination
      (order.withTiebreaker type.primaryKey) typed path = .ok page) :
    bindConnection schema order typed type path (s.headed other) = .ok (c.turned page) := by
  rw [bindConnection_eq] at bound ⊢
  rw [resolveFragments_headed] at bound ⊢
  obtain ⟨_, -, bound⟩ := bind_eq_ok.mp bound
  obtain ⟨_, isResolved, bound⟩ := bind_eq_ok.mp bound
  obtain ⟨inner, resolves, rfl⟩ := map_eq_ok.mp isResolved
  obtain ⟨parts, isParts, bound⟩ := bind_eq_ok.mp bound
  obtain ⟨edges, isEdges, bound⟩ := bind_eq_ok.mp bound
  cases pure_eq_ok.mp bound
  have isParts : connectionParts type.name path (inner.headed other).children = .ok parts := isParts
  refine bind_eq_ok.mpr ⟨page, paged, ?_⟩
  rw [resolves]
  refine bind_eq_ok.mpr ⟨_, rfl, ?_⟩
  refine bind_eq_ok.mpr ⟨parts, isParts, ?_⟩
  exact bind_eq_ok.mpr ⟨edges, isEdges, rfl⟩

theorem bindEach_turned {order : Order} {typed : Bool} {types : List ObjectType}
    {targets : List Target} (bound : bindEach schema (.connection order) typed path (s.headed head)
      types = .ok targets) {page : Pagination}
    (paged : ∀ type ∈ types, (s.headed other).boundPagination
      (order.withTiebreaker type.primaryKey) typed path = .ok page) :
    bindEach schema (.connection order) typed path (s.headed other) types =
      .ok (targets.map (Target.turned page)) := by
  induction types generalizing targets with
  | nil =>
    rw [bindEach] at bound ⊢
    cases bound
    rfl
  | cons type rest ih =>
    rw [bindEach, bindTarget] at bound ⊢
    obtain ⟨first, here, bound⟩ := bind_eq_ok.mp bound
    obtain ⟨more, later, bound⟩ := bind_eq_ok.mp bound
    cases pure_eq_ok.mp bound
    obtain ⟨c, isConnection, rfl⟩ := map_eq_ok.mp here
    rw [bindConnection_turned isConnection (paged type List.mem_cons_self)]
    refine bind_eq_ok.mpr ⟨_, rfl, ?_⟩
    rw [ih later fun type known => paged type (List.mem_cons_of_mem _ known)]
    rfl

/-- The targets of a connection are bound to another page if the page can be read, and has a cursor
that fits the order of all of them. -/
theorem bindTargets_turned {order : Order} {name : String} {targets : List Target}
    (bound : bindTargets schema (.connection order) name path (s.headed head) = .ok targets)
    {page : Pagination} (paged : (s.headed other).pagination path = .ok page)
    (fits : ∀ c, .connection c ∈ targets → (c.turned page).Fits) :
    bindTargets schema (.connection order) name path (s.headed other) =
      .ok (targets.map (Target.turned page)) := by
  rw [bindTargets] at bound ⊢
  obtain ⟨types, isTypes, bound⟩ := bind_eq_ok.mp bound
  refine bind_eq_ok.mpr ⟨types, isTypes, bindEach_turned bound fun type known => ?_⟩
  obtain ⟨same, each⟩ := bindEach_ok bound
  rw [← same] at known
  obtain ⟨target, reached, rfl⟩ := List.mem_map.mp known
  obtain ⟨type, -, isTarget⟩ := each target reached
  rw [bindTarget] at isTarget
  obtain ⟨c, isConnection, rfl⟩ := map_eq_ok.mp isTarget
  obtain ⟨parts, made⟩ := bindConnection_ok isConnection
  have fault : page.cursor?.bind (cursorFault? (order.withTiebreaker c.type.primaryKey)
      (decide (1 < types.length))) = none := by
    refine Option.bind_eq_none_iff.mpr fun cursor given => ?_
    have fitting := fits c reached cursor given
    rw [BoundConnection.effectiveOrder, BoundConnection.turned] at fitting
    rw [made.inOrder, made.tagged] at fitting
    exact fitting
  rw [boundPagination, paged]
  refine bind_eq_ok.mpr ⟨page, rfl, ?_⟩
  rw [show (Target.connection c).type = c.type from rfl, fault]
  rfl

/-- What is not entered as a connection is no connection. -/
theorem not_connection_of_field {name : String} {targets : List Target}
    (bound : bindTargets schema .field name path s = .ok targets) {c : BoundConnection} :
    .connection c ∉ targets := by
  intro reached
  rw [bindTargets] at bound
  obtain ⟨types, -, bound⟩ := bind_eq_ok.mp bound
  obtain ⟨type, -, isTarget⟩ := (bindEach_ok bound).2 _ reached
  rw [bindTarget] at isTarget
  obtain ⟨f, -, same⟩ := map_eq_ok.mp isTarget
  cases same

/-- A root field with a connection among its targets answers with many records. -/
theorem bindRoot_many {key : String} {r : RootRead} (bound : bindRoot schema key s = .ok r)
    {c : BoundConnection} (asked : .connection c ∈ r.targets) : r.kind = .many := by
  unfold bindRoot at bound
  dsimp only at bound
  split at bound
  · cases bound
  · split at bound
    · obtain ⟨filter, -, bound⟩ := bind_eq_ok.mp bound
      obtain ⟨targets, -, bound⟩ := bind_eq_ok.mp bound
      cases pure_eq_ok.mp bound
      rfl
    · obtain ⟨id, -, bound⟩ := bind_eq_ok.mp bound
      obtain ⟨filter, -, bound⟩ := bind_eq_ok.mp bound
      obtain ⟨targets, isTargets, bound⟩ := bind_eq_ok.mp bound
      cases pure_eq_ok.mp bound
      exact absurd asked (not_connection_of_field isTargets)

/-- An association with a connection among its targets leads to many records. -/
theorem bindLink_many {association : Association} {l : BoundLink}
    (bound : bindLink schema association path s = .ok l) :
    l.association = association ∧
      ∀ {c : BoundConnection}, .connection c ∈ l.targets → association.isMany := by
  rw [bindLink] at bound
  split at bound
  · rename_i many
    split at bound
    · cases bound
    · obtain ⟨filter, -, bound⟩ := bind_eq_ok.mp bound
      obtain ⟨targets, -, bound⟩ := bind_eq_ok.mp bound
      cases pure_eq_ok.mp bound
      exact ⟨rfl, fun _ => many⟩
  · obtain ⟨filter, -, bound⟩ := bind_eq_ok.mp bound
    obtain ⟨targets, isTargets, bound⟩ := bind_eq_ok.mp bound
    cases pure_eq_ok.mp bound
    exact ⟨rfl, fun asked => absurd asked (not_connection_of_field isTargets)⟩

section Turned

variable {field : WrittenField} {side : Side} {size : Int64} {text : Option String}
  {cursor : Option Cursor} (positive : 0 ≤ size.toInt) (read : text.mapM Cursor.decode = .ok cursor)

include positive read

/-- An association is bound to another page if one of its pages is bound. -/
theorem bindLink_turned {association : Association} {l : BoundLink}
    (bound : bindLink schema association path (s.headed (field.paged side size none).head) = .ok l)
    {c : BoundConnection} (asked : .connection c ∈ l.targets)
    (fits : ∀ c, .connection c ∈ l.targets →
      (c.turned (side.page size.toInt.toNat cursor)).Fits) :
    bindLink schema association path (s.headed (field.paged side size text).head) =
      .ok (l.turned (side.page size.toInt.toNat cursor)) := by
  rw [bindLink] at bound ⊢
  split at bound
  · rename_i many
    rw [if_pos many]
    split at bound
    · cases bound
    · rename_i order ordered
      obtain ⟨filter, isFilter, bound⟩ := bind_eq_ok.mp bound
      obtain ⟨targets, isTargets, bound⟩ := bind_eq_ok.mp bound
      cases pure_eq_ok.mp bound
      refine bind_eq_ok.mpr ⟨filter, ?_, bind_eq_ok.mpr ⟨_, bindTargets_turned isTargets
        (pagination_paged rfl positive read path) fits, rfl⟩⟩
      rw [← isFilter]
      refine declaredFilter_headed association.filters rfl ?_
      rw [field.filter_paged, field.filter_paged]
  · obtain ⟨filter, -, bound⟩ := bind_eq_ok.mp bound
    obtain ⟨targets, isTargets, bound⟩ := bind_eq_ok.mp bound
    cases pure_eq_ok.mp bound
    exact absurd asked (not_connection_of_field isTargets)

/-- A root field is bound to another page if one of its pages is bound. -/
theorem bindRoot_turned {key : String} {r : RootRead}
    (bound : bindRoot schema key (s.headed (field.paged side size none).head) = .ok r)
    {c : BoundConnection} (asked : .connection c ∈ r.targets)
    (fits : ∀ c, .connection c ∈ r.targets →
      (c.turned (side.page size.toInt.toNat cursor)).Fits) :
    bindRoot schema key (s.headed (field.paged side size text).head) =
      .ok (r.turned (side.page size.toInt.toNat cursor)) := by
  unfold bindRoot at bound ⊢
  dsimp only at bound ⊢
  rw [show (s.headed (field.paged side size text).head).name =
    (s.headed (field.paged side size none).head).name from rfl]
  split at bound
  · cases bound
  · rename_i declared known
    split at bound
    · rename_i order _
      obtain ⟨filter, isFilter, bound⟩ := bind_eq_ok.mp bound
      obtain ⟨targets, isTargets, bound⟩ := bind_eq_ok.mp bound
      cases pure_eq_ok.mp bound
      refine bind_eq_ok.mpr ⟨filter, ?_, bind_eq_ok.mpr ⟨_, bindTargets_turned isTargets
        (pagination_paged rfl positive read _) fits, rfl⟩⟩
      rw [← isFilter]
      refine declaredFilter_headed declared.filters rfl ?_
      rw [field.filter_paged, field.filter_paged]
    · obtain ⟨id, -, bound⟩ := bind_eq_ok.mp bound
      obtain ⟨filter, -, bound⟩ := bind_eq_ok.mp bound
      obtain ⟨targets, isTargets, bound⟩ := bind_eq_ok.mp bound
      cases pure_eq_ok.mp bound
      exact absurd asked (not_connection_of_field isTargets)

end Turned

end Selection

end GraphRead
