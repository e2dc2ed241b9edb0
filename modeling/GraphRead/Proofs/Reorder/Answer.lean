import GraphRead.Proofs.Page.Located
import GraphRead.Proofs.Page.Ties
import GraphRead.Proofs.Reorder.Basic
/-!
What positions answer that have their types in another order (`response_reordered`).

Per parent, each target of a position is read on its own, so a position in another order reads the
same, in another order. The counts add up to the same, a single record is the same, and a page is
the same because records of different types never tie (`Target.Merged`). This goes from the records
of the lowest targets up, by induction on the height of a target (`complete_reordered`).
-/

namespace GraphRead

open PerParent Success

/-! ### Counts and single records -/

theorem totalCount_perm {outputs others : List Output} (perm : outputs.Perm others) :
    totalCount others = totalCount outputs := by
  rw [totalCount_eq, totalCount_eq, (perm.map _).sum_nat]

theorem mergeOne_perm {fetched others : List Fetched} (perm : fetched.Perm others)
    (position : Path) (required : Option Value) :
    (mergeOne others position required).toOption =
      (mergeOne fetched position required).toOption := by
  have long := perm.length_eq
  match fetched, others with
  | [], [] => rfl
  | [one], [other] => rw [List.singleton_perm_singleton.mp perm]
  | _ :: _ :: _, _ :: _ :: _ => rfl

theorem mergeMany_nil {c c' : BoundConnection} (shared : c'.shared = c.shared) (total : Nat) :
    mergeMany [] (some c') total = mergeMany [] (some c) total := by
  have page : c'.pagination = c.pagination := congrArg Shared.pagination shared
  have info : c'.pageInfo = c.pageInfo := congrArg Shared.pageInfo shared
  have count : c'.count = c.count := congrArg Shared.count shared
  simp only [mergeMany, page, info, count, List.mergeSort_nil]

/-! ### The order of a position -/

/-- The targets of a position in another order have the orders of the targets. -/
theorem targetOrders_reordered {targets others : List Target}
    (each : List.Forall₂ Target.Reordered targets others) :
    targetOrders others = targetOrders targets := by
  unfold targetOrders
  induction each with
  | nil => rfl
  | cons first _ ih =>
    rw [List.filterMap_cons, List.filterMap_cons, ih]
    rcases first.connection? with ⟨none, none'⟩ | ⟨c, c', rfl, rfl, -, type, order⟩
    · rw [none, none']
    · simp only [Target.connection?, Option.map_some, type, order]

/-- A position agrees on its order in whatever order its types are. -/
theorem checkOrders_shuffled {many : Prop} {targets others : List Target}
    (shuffled : Target.Shuffled many targets others) (position : Path) :
    (checkOrders position others).toOption = (checkOrders position targets).toOption := by
  obtain ⟨middle, perm, each⟩ := shuffled.matched
  have members (entry : String × Order) :
      entry ∈ targetOrders others ↔ entry ∈ targetOrders targets := by
    rw [targetOrders_reordered each]
    exact ((perm.filterMap _).mem_iff).symm
  have alike : checkOrders position others = .ok () ↔ checkOrders position targets = .ok () := by
    simp only [checkOrders_eq_ok, members]
  cases agreed : checkOrders position targets with
  | ok _ => rw [alike.mpr agreed]
  | error e =>
    cases agreed' : checkOrders position others with
    | ok _ => rw [alike.mp agreed'] at agreed; cases agreed
    | error e' => rfl

/-! ### The outputs of a position, merged -/

/-- An output is of the type of a target, and can be sorted if the target is a list. -/
structure Target.Yields (target : Target) (output : Output) : Prop where
  type : ∀ r ∈ output.records, r.record.type = target.type
  sortable : ∀ c, target = .connection c → ∀ r ∈ output.records, r.Sortable c.effectiveOrder

theorem Place.Serves.yields {place : Place} {store : Memory} {target : Target} {output : Output}
    (serves : place.Serves store target output) : target.Yields output := by
  have shown : ∀ r ∈ output.records, ∃ row, PerParent.bare r = (place.plan target).recordFor row :=
    fun r present => by
      have there := List.mem_map_of_mem (f := PerParent.bare) present
      rw [serves.bare] at there
      obtain ⟨row, -, same⟩ := List.mem_map.mp there
      exact ⟨row, same.symm⟩
  refine ⟨fun r present => ?_, fun c same r present => ?_⟩
  · obtain ⟨row, same⟩ := shown r present
    exact congrArg (fun r => r.record.type) same
  · obtain ⟨row, shows⟩ := shown r present
    have keys : r.sortKey = (place.plan target).sortColumns.map row.value :=
      congrArg Fetched.sortKey shows
    rw [Fetched.Sortable, keys, List.length_map, same]
    exact List.length_map _

/-- What comes of the targets of a position is the same in another order: the same outputs, and
where it is a list the same pages. -/
structure Target.Merged (many : Prop) (targets others : List Target)
    (outputs outputs' : List Output) : Prop where
  perm : outputs.Perm outputs'
  pages : many → ∀ total,
    mergeMany (outputs'.flatMap Output.records) (others.head?.bind Target.connection?) total =
      mergeMany (outputs.flatMap Output.records) (targets.head?.bind Target.connection?) total

namespace Target.Shuffled

variable {many : Prop} {targets others : List Target} (shuffled : Shuffled many targets others)

include shuffled

/-- The lists that stand for a position ask the same, and have the order of one of the lists. -/
theorem heads (lists : many) : (targets = [] ∧ others = []) ∨
    ∃ c c' own, targets.head? = some (.connection c) ∧ others.head? = some (.connection c') ∧
      c'.shared = c.shared ∧ .connection own ∈ targets ∧
        c'.effectiveOrder = own.effectiveOrder := by
  obtain ⟨middle, perm, each⟩ := shuffled.matched
  cases each with
  | nil => exact .inl ⟨List.perm_nil.mp perm, rfl⟩
  | @cons target other rest more first later =>
    have known : target ∈ targets := perm.mem_iff.mpr List.mem_cons_self
    obtain ⟨first', before, rfl⟩ := List.exists_cons_of_ne_nil (List.ne_nil_of_mem known)
    obtain ⟨c, rfl, alike⟩ := shuffled.alike lists first' List.mem_cons_self
    obtain ⟨own, rfl, -⟩ := shuffled.alike lists target known
    rcases first.connection? with ⟨none, -⟩ | ⟨own', c', same, rfl, shared, -, order⟩
    · cases none
    · cases same
      exact .inr ⟨c, c', own, rfl, rfl, shared.trans (alike _ known own rfl), known, order⟩

/-- A page without records is the same. -/
theorem mergeMany_nil (lists : many) (total : Nat) :
    mergeMany [] (others.head?.bind Target.connection?) total =
      mergeMany [] (targets.head?.bind Target.connection?) total := by
  rcases shuffled.heads lists with ⟨rfl, rfl⟩ | ⟨c, c', -, head, head', shared, -, -⟩
  · rfl
  · rw [head, head']
    exact GraphRead.mergeMany_nil shared total

/-- Members of different outputs are of different types. -/
theorem pairwise_apart {found : Target → Output}
    (yields : ∀ target ∈ targets, target.Yields (found target)) :
    targets.Pairwise fun i j => ∀ a ∈ (found i).records, ∀ b ∈ (found j).records,
      a.record.type.name ≠ b.record.type.name := by
  refine (List.pairwise_map.mp shuffled.apart).imp_of_mem fun {i j} left right differ a here b there
    same => differ ?_
  rw [← (yields i left).type a here, ← (yields j right).type b there]
  exact same

/-- **What is read for a position is merged to the same in another order.** -/
theorem merged {read read' : Target → Option Output} {position : Path}
    (agreed : checkOrders position targets = .ok ())
    (same : ∀ target ∈ targets, ∀ other, target.Reordered other → read' other = read target)
    (yields : many → ∀ target ∈ targets, ∀ output, read target = some output →
      target.Yields output) :
    Option.Rel (Merged many targets others) (targets.mapM read) (others.mapM read') := by
  obtain ⟨middle, perm, each⟩ := shuffled.matched
  rw [mapM_matched each fun target known => same target (perm.mem_iff.mpr known)]
  cases done : targets.mapM read with
  | none =>
    rw [mapM_perm_none perm done]
    exact .none
  | some outputs =>
    rw [mapM_perm perm done .empty, mapM_eq_map done .empty]
    refine .some ⟨perm.map _, fun lists total => ?_⟩
    rw [List.flatMap_map, List.flatMap_map]
    have found : ∀ target ∈ targets, target.Yields ((read target).getD .empty) := by
      intro target known
      obtain ⟨output, there⟩ := Option.isSome_iff_exists.mp
        (isSome_mapM.mp (by rw [done]; rfl) target known)
      rw [there]
      exact yields lists target known output there
    rcases shuffled.heads lists with ⟨rfl, rfl⟩ | ⟨c, c', own, head, head', shared, known, order⟩
    · rw [List.nil_perm.mp perm]
    · rw [head, head']
      have first : .connection c ∈ targets := List.mem_of_head? head
      refine mergeMany_perm (fun target => ((read target).getD .empty).records) perm
        (shuffled.pairwise_apart found) shared ?_ (fun target reached r present => ?_) total
      · rw [order, effectiveOrder_of_checkOrders agreed first known]
      · obtain ⟨d, rfl, -⟩ := shuffled.alike lists target reached
        rw [← effectiveOrder_of_checkOrders agreed first reached]
        exact (found _ reached).sortable d rfl r present

end Target.Shuffled

/-! ### Answers -/

section Answers

variable (store : Memory)

/-- An association makes the same of its children in another order. -/
theorem linkAnswer_reordered {l l' : BoundLink} (same : l'.association = l.association)
    (position : Path) (counts : ByValue Nat) (v : Value) {children others : List Fetched}
    (perm : children.Perm others) (pages : l.association.isMany → ∀ total,
      mergeMany others (l'.targets.head?.bind Target.connection?) total =
        mergeMany children (l.targets.head?.bind Target.connection?) total) :
    (linkAnswer position l' counts v others).toOption =
      (linkAnswer position l counts v children).toOption := by
  rw [linkAnswer, linkAnswer, same]
  split
  · rename_i many
    rw [pages many]
  · rw [toOption_map, toOption_map, mergeOne_perm perm]

/-- An association answers the same in another order if its targets complete their records to the
same. -/
theorem answer_reordered {l l' : BoundLink} (r : l.Reordered l') (position : Path) (v : Value)
    (below : ∀ target ∈ l.targets, ∀ other, target.Reordered other → ∀ position row,
      (complete store.connector position other row).toOption =
        (complete store.connector position target row).toOption) :
    (answer store.connector position l' v).toOption =
      (answer store.connector position l v).toOption := by
  cases null : v.isNull with
  | true =>
    rw [answer_of_null _ _ _ null, answer_of_null _ _ _ null]
    exact linkAnswer_reordered r.association position [] v (.refl _)
      fun many total => r.targets.mergeMany_nil many total
  | false =>
    rw [answer_toOption store position l' null, answer_toOption store position l null,
      checkOrders_shuffled r.targets]
    cases agreed : checkOrders position l.targets with
    | error e => rfl
    | ok _ =>
      have same : ∀ target ∈ l.targets, ∀ other, target.Reordered other →
          childOutput store position l' v other = childOutput store position l v target := by
        intro target known other own
        have plan : childPlan l' other v = childPlan l target v := by
          rw [childPlan, childPlan, r.filter, r.association]
          exact own.compile _ _ _
        rw [childOutput, childOutput, childRead, childRead, plan, r.association]
        refine congrArg (Option.bind _) (funext fun output => ?_)
        rw [completeOutput_toOption, completeOutput_toOption]
        exact congrArg (Option.map _) (mapM_congr fun row _ => below target known other own _ row)
      rw [toOption_ok, Option.bind_some, Option.bind_some]
      refine bind_eq_of_rel (r.targets.merged agreed same fun _ target _ output done =>
        (serves_of_childOutput done).yields) fun outputs outputs' merged => ?_
      rw [totalCount_perm merged.perm]
      exact linkAnswer_reordered r.association position _ v (merged.perm.flatMap_right _)
        merged.pages

/-- **A record is completed to the same in another order.** -/
theorem complete_reordered (height : Nat) : ∀ target other : Target, target.height < height →
    target.Reordered other → ∀ position row,
      (complete store.connector position other row).toOption =
        (complete store.connector position target row).toOption := by
  induction height with
  | zero => exact fun target other lower => absurd lower (Nat.not_lt_zero _)
  | succ height ih =>
    intro target other lower r position row
    rcases r.cases_record with ⟨-, rfl⟩ | ⟨f, f', asked, asked', record⟩
    · rfl
    · rw [complete_of_some row asked, complete_of_some row asked', toOption_foldlM,
        toOption_foldlM]
      have each : ∀ link ∈ f.links, link.2.height ≤ height := fun link linked =>
        Nat.le_of_lt_succ (Nat.lt_of_le_of_lt (link_height_le asked linked) lower)
      have links := record.links
      generalize f.links = left, f'.links = right at links each
      induction links generalizing row with
      | nil => rfl
      | @cons key l l' rest others first later step =>
        rw [List.forall_mem_cons] at each
        have attached : (attachAnswer store.connector position row (key, l')).toOption =
            (attachAnswer store.connector position row (key, l)).toOption := by
          rw [attachAnswer, attachAnswer, toOption_bind, toOption_bind, first.association]
          rw [answer_reordered store first _ _ fun child reached other own position row =>
            ih child other (Nat.lt_of_lt_of_le (target_height_lt reached) each.1) own position row]
        rw [List.foldlM_cons, List.foldlM_cons, attached]
        exact congrArg (Option.bind _) (funext fun next => step next each.2)

/-- A root field answers the same in another order. -/
theorem rootAnswer_reordered {read read' : RootRead} (r : read.Reordered read') :
    (rootAnswer store.connector read').toOption = (rootAnswer store.connector read).toOption := by
  have position : read'.position = read.position := by
    rw [RootRead.position, RootRead.position, r.key]
  rw [rootAnswer_toOption store none, rootAnswer_toOption store none, mapM_map, mapM_map, position,
    checkOrders_shuffled r.targets]
  cases agreed : checkOrders read.position read.targets with
  | error e => rfl
  | ok _ =>
    have same : ∀ target ∈ read.targets, ∀ other, target.Reordered other →
        finished store none (read'.task other) = finished store none (read.task target) := by
      intro target known other own
      have plan : (read'.task other).plan = (read.task target).plan := by
        simp only [RootRead.task, r.kind, r.filter, own.type, own.compile]
      rw [finished, finished, plan]
      refine congrArg (Option.bind _) (funext fun output => ?_)
      rw [completeOutput_toOption, completeOutput_toOption]
      refine congrArg (Option.map _) (mapM_congr fun row _ => ?_)
      show (complete _ read'.position other row).toOption = _
      rw [position]
      exact complete_reordered store _ target other (Nat.lt_succ_self _) own _ row
    rw [toOption_ok, Option.bind_some, Option.bind_some]
    refine bind_eq_of_rel (r.targets.merged agreed same fun many target _ output done =>
      (serves_of_root many done).yields) fun outputs outputs' merged => ?_
    rw [RootRead.answer, RootRead.answer, r.kind, position]
    cases kind : read.kind with
    | single id =>
      dsimp only
      rw [toOption_map, toOption_map, mergeOne_perm (merged.perm.flatMap_right _)]
    | many =>
      dsimp only
      rw [merged.pages kind, totalCount_perm merged.perm]

/-- **Root fields answer the same in another order.** -/
theorem response_reordered {reads reads' : List RootRead}
    (both : List.Forall₂ RootRead.Reordered reads reads') :
    (response store.connector reads').toOption = (response store.connector reads).toOption := by
  have keys : reads'.map RootRead.key = reads.map RootRead.key := by
    induction both with
    | nil => rfl
    | cons first _ ih => rw [List.map_cons, List.map_cons, first.key, ih]
  rw [response, response, toOption_bind, toOption_bind, toOption_mapM, toOption_mapM, keys,
    mapM_matched both fun read _ read' own => rootAnswer_reordered store own]

end Answers

end GraphRead
