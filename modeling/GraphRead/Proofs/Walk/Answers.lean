import GraphRead.Proofs.Page.Execute
import GraphRead.Proofs.Walk.Binding
/-!
Requests that are answered.

A request for a connection is answered with a page if it binds, the types of the place have one
order, and the records that are fetched for every type can be shown (`Site.exists_answer`). That is
all that can fail: the response is the one of the resolution per parent, which reads every type of
the place once.
-/

namespace GraphRead

open PerParent Success

/-! ### Orders -/

/-- The check of the orders of a position passes where all its lists have one order. -/
theorem checkOrders_of_ordered {position : Path} {targets : List Target} {order : Order}
    (ordered : ∀ c, .connection c ∈ targets → c.effectiveOrder = order) :
    checkOrders position targets = .ok () := by
  have same : ∀ entry ∈ targetOrders targets, entry.2 = order := by
    intro entry present
    obtain ⟨target, reached, found⟩ := List.mem_filterMap.mp present
    cases target with
    | connection c =>
      cases found
      exact ordered c reached
    | field f => cases found
    | edge e => cases found
  exact checkOrders_eq_ok.mpr fun entry here other there =>
    (same other there).trans (same entry here).symm

/-! ### What is listed and what is fetched -/

namespace Place

variable {place : Place} {store : Memory} {target : Target}

theorem mem_entries {order : Order} {e : Entry} : e ∈ place.entries store order ↔
    e.target ∈ place.targets ∧ e.row ∈ store.rowsOf e.target.type.table ∧
      place.admits e.target e.row = true := by
  rw [entries, (List.mergeSort_perm _ _).mem_iff, List.mem_flatMap]
  constructor
  · rintro ⟨target, reached, present⟩
    obtain ⟨row, kept, rfl⟩ := List.mem_map.mp present
    exact ⟨reached, List.mem_filter.mp kept⟩
  · rintro ⟨reached, kept⟩
    exact ⟨e.target, reached, List.mem_map.mpr ⟨e.row, List.mem_filter.mpr kept, rfl⟩⟩

end Place

/-! ### Answers -/

section Answers

variable {store : Memory}

/-- A root field that can be read answers with a page. -/
theorem exists_rootAnswer {r : RootRead} (many : r.kind = .many)
    (agreed : checkOrders r.position r.targets = .ok ())
    (reads : ∀ target ∈ r.targets, (r.place.reads store r.position target).isSome) :
    ∃ page, rootAnswer store.connector r = .ok (.many page) := by
  have each : ((r.targets.map r.task).mapM (finished store none)).isSome := by
    rw [isSome_mapM]
    refine List.forall_mem_map.mpr fun target reached => ?_
    rw [← Option.isSome_map, map_records_root many]
    exact reads target reached
  obtain ⟨outputs, made⟩ := Option.isSome_iff_exists.mp each
  obtain ⟨page, answered⟩ : ∃ page, r.answer outputs = .ok (.many page) := by
    rw [RootRead.answer, many]
    exact ⟨_, rfl⟩
  refine ⟨page, toOption_eq_some.mp ?_⟩
  rw [rootAnswer_toOption store none, agreed, made]
  exact toOption_eq_some.mpr answered

/-- An association that can be read for a value answers with a page. -/
theorem exists_linkAnswer {position : Path} {l : BoundLink} {v : Value}
    (many : l.association.isMany) (agreed : checkOrders position l.targets = .ok ())
    (reads : ∀ target ∈ l.targets, ((l.place v).reads store position target).isSome) :
    ∃ page, answer store.connector position l v = .ok (.many page) := by
  have paged (counts : ByValue Nat) (children : List Fetched) :
      ∃ page, linkAnswer position l counts v children = .ok (.many page) := by
    rw [linkAnswer, if_pos many]
    exact ⟨_, rfl⟩
  cases null : v.isNull with
  | true =>
    rw [answer_of_null _ _ _ null]
    exact paged [] []
  | false =>
    have each : (l.targets.mapM (childOutput store position l v)).isSome := by
      rw [isSome_mapM]
      intro target reached
      rw [← Option.isSome_map, map_records_childOutput]
      exact reads target reached
    obtain ⟨outputs, made⟩ := Option.isSome_iff_exists.mp each
    obtain ⟨page, answered⟩ := paged [(v, totalCount outputs)] (outputs.flatMap Output.records)
    refine ⟨page, toOption_eq_some.mp ?_⟩
    rw [answer_toOption store position l null, agreed, made]
    exact toOption_eq_some.mpr answered

/-- A record that is read for alone gets what the association answers to it. -/
theorem attachOne_eq {together : List Target → Prop} {size : Option Nat} {depth : Nat}
    {position : Path} {key : String} {l : BoundLink} {parent : Fetched} {found : Answer Record}
    (formed : ∀ target ∈ l.targets, target.Formed together)
    (known : (parent.record.get? l.association.localColumn).isSome)
    (answered : answer store.connector (position.add key) l
      (joinValue l.association.localColumn parent) = .ok found) :
    attachOne store.connector size depth position key l parent = .ok [parent.attach key found] := by
  have whole := attachLink_eq store size position l key
    (rfl : [parent].map bare = [parent].map bare) (List.forall_mem_singleton.mpr known)
  have alone : ([parent].mapM fun r =>
      (attachAnswer store.connector position r (key, l)).toOption) =
      some [parent.attach key found] := by
    rw [List.mapM_cons, attachAnswer, answered]
    rfl
  rw [alone] at whole
  rw [← toOption_eq_some, ← whole, attachOne, toOption_bind]
  cases planned : planLink position key l [parent] with
  | error e => rfl
  | ok tasks =>
    have each : ∀ task ∈ tasks, Planned task ∧ task.target.Formed together := fun task present => by
      obtain ⟨ready, reached, -⟩ := planLink_planned planned task present
      exact ⟨ready, formed task.target reached⟩
    rw [toOption_ok, Option.bind_some, Option.bind_some, toOption_bind,
      resolveLevel_toOption store size Completion.inOrder_complete depth each]

end Answers

/-! ### Requests -/

namespace Site

variable {schema : Schema} {store : Memory} {fragments : Keyed Fragment} {field : WrittenField}

/-- The targets that a request binds to belong together and are formed. -/
theorem Binds.formed {site : Site} {position : Path} {place : Place}
    (bound : site.Binds schema fragments field position place) :
    schema.Together place.targets ∧ ∀ target ∈ place.targets, target.Formed schema.Together := by
  cases bound with
  | root built bound =>
    exact Selection.rootReads_formed (Selection.ofDocument_wellKeyed built) bound _
      List.mem_cons_self
  | below built bound known =>
    obtain ⟨entry, isTargets⟩ := Selection.bindLink_ok schema bound
    exact ⟨Selection.bindTargets_together isTargets, Selection.bindTargets_formed
      (Selection.fieldsFormed schema _) (Nat.lt_succ_self _) (Selection.ofField_wellKeyed built)
      isTargets⟩

/-- A document with a single field that is bound is executed to the answer of the field. -/
theorem executeDocument_single {limit : Nat} {size : Option Nat} {latency : Nat} {query : Selection}
    {r : RootRead} (built : Selection.ofDocument (field.document fragments) = .ok query)
    (bound : query.rootReads schema = .ok [r]) {found : Answer Record}
    (answered : rootAnswer store.connector r = .ok found) :
    (executeDocument schema store.connector ⟨limit, size, none⟩ ⟨latency, none⟩
      (field.document fragments)).outcome = .ok [(r.key, found)] := by
  have whole : response store.connector [r] = .ok [(r.key, found)] := by
    rw [response, List.mapM_cons, answered]
    rfl
  have resolved := resolveReads_of_document store size Completion.inOrder_complete built bound
  rw [whole] at resolved
  rw [executeDocument, built]
  dsimp only
  rw [executeSelection, bound]
  dsimp only
  rw [observe_outcome, toOption_eq_some.mp resolved]
  rfl

/-- A request that binds to lists of one order, all of which can be read, is answered with the page
that the place has in a response. -/
theorem exists_answer {site : Site} {position : Path} {place : Place}
    (bound : site.Binds schema fragments field position place) {c : BoundConnection}
    (asked : .connection c ∈ place.targets)
    (ordered : ∀ own, .connection own ∈ place.targets → own.effectiveOrder = c.effectiveOrder)
    (reads : ∀ target ∈ place.targets, (place.reads store position target).isSome) :
    ∃ page, site.answer schema store fragments field = some (.many page) ∧
      place.Found schema store (.many page) := by
  have agreed : checkOrders position place.targets = .ok () := checkOrders_of_ordered ordered
  obtain ⟨together, formed⟩ := bound.formed
  cases bound with
  | @root limit size latency query r built bound =>
    have single := built
    rw [WrittenField.document, Selection.ofDocument_single] at single
    obtain ⟨s, -, rfl⟩ := Fallible.map_eq_ok.mp single
    have isRoot := bound
    rw [Selection.rootReads_single] at isRoot
    split at isRoot
    · cases isRoot
    obtain ⟨_, isRoot, same⟩ := Fallible.map_eq_ok.mp isRoot
    cases same
    obtain ⟨page, answered⟩ := exists_rootAnswer (Selection.bindRoot_many isRoot asked) agreed reads
    refine ⟨page, ?_, together, formed, .root answered⟩
    rw [answer, executeDocument_single built bound answered, Selection.bindRoot_key isRoot,
      toOption_ok, Option.bind_some, Keyed.get?, if_pos rfl]
  | @below association position parent depth size s l built bound known =>
    obtain ⟨rfl, many⟩ := Selection.bindLink_many bound
    obtain ⟨page, answered⟩ := exists_linkAnswer (many asked) agreed reads
    refine ⟨page, ?_, together, formed, .link answered⟩
    have attached : attachOne store.connector size depth position field.head.outputKey l parent =
        .ok [parent.attach field.head.outputKey (.many page)] := attachOne_eq formed known answered
    rw [answer, built, toOption_ok, Option.bind_eq_bind, Option.bind_some, bound, toOption_ok,
      Option.bind_eq_bind, Option.bind_some, attached]
    show ((parent.record.links ++ [(field.head.outputKey, Answer.many page)]).getLast?.map
      Prod.snd) = _
    rw [List.getLast?_concat]
    rfl

end Site

end GraphRead
