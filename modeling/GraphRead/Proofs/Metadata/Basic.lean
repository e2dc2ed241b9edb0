import GraphRead.Proofs.PerParent.Shares
import GraphRead.Resolve.Roots
import Mathlib.Data.List.Basic
/-!
Queries and responses without what is asked about pages.

A list may be asked for its records only, or also for its count, its page info and the cursors of
its edges. `BoundConnection.plain` leaves these out, at a list and at all lists below it; page
infos may be kept, as they are all that decides how many rows are fetched (`fetchLimit_plain_le`).
Nothing else of a query changes: the rows that qualify, the order in which they are fetched and the
columns that are read are the same. `Answer.plain` leaves the same out of an answer, so two answers
with the same plain form show the same records in the same order, with the same answers below them.
-/

namespace GraphRead

/-! ### Queries -/

section Queries

variable (infos : Bool)

mutual

/-- What is asked of a record, with the lists below asked for their records only. -/
def BoundField.plain : BoundField → BoundField
  | ⟨type, items⟩ => ⟨type, BoundItem.plainEach items⟩

/-- Things that are asked of a record, with the lists below asked for their records only. -/
def BoundItem.plainEach : List (String × BoundItem) → List (String × BoundItem)
  | [] => []
  | (key, item) :: rest => (key, item.plain) :: BoundItem.plainEach rest

/-- One thing that is asked of a record, with the lists below asked for their records only. -/
def BoundItem.plain : BoundItem → BoundItem
  | .id => .id
  | .scalar a => .scalar a
  | .link l => .link l.plain

/-- An association, with the lists that it leads to asked for their records only. -/
def BoundLink.plain : BoundLink → BoundLink
  | ⟨association, filter, targets⟩ => ⟨association, filter, Target.plainEach targets⟩

/-- Targets, with the lists among and below them asked for their records only. -/
def Target.plainEach : List Target → List Target
  | [] => []
  | target :: rest => target.plain :: Target.plainEach rest

/-- A target, with the lists at and below it asked for their records only. -/
def Target.plain : Target → Target
  | .field f => .field f.plain
  | .connection c => .connection c.plain
  | .edge e => .edge e.plain

/-- A list that is asked for its records only, and for its page info if infos are kept. -/
def BoundConnection.plain : BoundConnection → BoundConnection
  | ⟨type, order, page, none, info, _, typed⟩ =>
    ⟨type, order, page, none, if infos then info.map fun _ => .none else none, false, typed⟩
  | ⟨type, order, page, some ⟨_, none, _⟩, info, _, typed⟩ =>
    ⟨type, order, page, none, if infos then info.map fun _ => .none else none, false, typed⟩
  | ⟨type, order, page, some ⟨ofEdge, some node, _⟩, info, _, typed⟩ =>
    ⟨type, order, page, some ⟨ofEdge, some node.plain, false⟩,
      if infos then info.map fun _ => .none else none, false, typed⟩

/-- An edge without its cursor. -/
def BoundEdge.plain : BoundEdge → BoundEdge
  | ⟨type, none, _⟩ => ⟨type, none, false⟩
  | ⟨type, some node, _⟩ => ⟨type, some node.plain, false⟩

end

/-- A root field, with the lists at and below it asked for their records only. -/
def RootRead.plain (read : RootRead) : RootRead :=
  { read with targets := read.targets.map (Target.plain infos) }

theorem BoundItem.plainEach_eq (items : List (String × BoundItem)) :
    plainEach infos items = items.map fun (key, item) => (key, item.plain infos) := by
  induction items with
  | nil => rfl
  | cons item rest ih => rw [plainEach, ih, List.map_cons]

theorem Target.plainEach_eq (targets : List Target) :
    plainEach infos targets = targets.map (plain infos) := by
  induction targets with
  | nil => rfl
  | cons target rest ih => rw [plainEach, ih, List.map_cons]

namespace BoundLink

variable (l : BoundLink)

@[simp] theorem plain_association : (l.plain infos).association = l.association := by
  cases l; rfl

@[simp] theorem plain_filter : (l.plain infos).filter = l.filter := by
  cases l; rfl

@[simp] theorem plain_targets :
    (l.plain infos).targets = l.targets.map (Target.plain infos) := by
  cases l
  exact Target.plainEach_eq infos _

end BoundLink

namespace BoundField

variable (f : BoundField)

theorem plain_links : (f.plain infos).links = f.links.map fun (key, l) => (key, l.plain infos) := by
  obtain ⟨type, items⟩ := f
  show (BoundItem.plainEach infos items).filterMap _ = (items.filterMap _).map _
  rw [BoundItem.plainEach_eq, List.filterMap_map, List.map_filterMap]
  refine List.filterMap_congr fun (key, item) _ => ?_
  cases item <;> rfl

theorem plain_attributes : (f.plain infos).attributes = f.attributes := by
  obtain ⟨type, items⟩ := f
  show (BoundItem.plainEach infos items).filterMap _ = items.filterMap _
  rw [BoundItem.plainEach_eq, List.filterMap_map]
  refine List.filterMap_congr fun (key, item) _ => ?_
  cases item <;> rfl

end BoundField

namespace BoundConnection

variable (c : BoundConnection)

@[simp] theorem plain_type : (c.plain infos).type = c.type := by
  obtain ⟨_, _, _, _ | ⟨_, _ | _, _⟩, _, _, _⟩ := c <;> rfl

@[simp] theorem plain_order : (c.plain infos).order = c.order := by
  obtain ⟨_, _, _, _ | ⟨_, _ | _, _⟩, _, _, _⟩ := c <;> rfl

@[simp] theorem plain_pagination : (c.plain infos).pagination = c.pagination := by
  obtain ⟨_, _, _, _ | ⟨_, _ | _, _⟩, _, _, _⟩ := c <;> rfl

@[simp] theorem plain_typedCursors : (c.plain infos).typedCursors = c.typedCursors := by
  obtain ⟨_, _, _, _ | ⟨_, _ | _, _⟩, _, _, _⟩ := c <;> rfl

theorem plain_pageInfo :
    (c.plain infos).pageInfo = if infos then c.pageInfo.map fun _ => .none else none := by
  obtain ⟨_, _, _, _ | ⟨_, _ | _, _⟩, _, _, _⟩ := c <;> rfl

@[simp] theorem plain_node : (c.plain infos).node = c.node.map (BoundField.plain infos) := by
  obtain ⟨_, _, _, _ | ⟨_, _ | _, _⟩, _, _, _⟩ := c <;> rfl

@[simp] theorem plain_effectiveOrder : (c.plain infos).effectiveOrder = c.effectiveOrder := by
  rw [effectiveOrder, effectiveOrder, plain_order, plain_type]

/-- Without its metadata no list fetches more rows. -/
theorem fetchLimit_plain_le : (c.plain infos).fetchLimit ≤ c.fetchLimit := by
  rw [fetchLimit, fetchLimit, plain_pagination, plain_pageInfo]
  cases infos <;> cases c.pageInfo <;> simp

/-- Where page infos are kept, every list fetches the same rows. -/
theorem fetchLimit_plain_true : (c.plain true).fetchLimit = c.fetchLimit := by
  rw [fetchLimit, fetchLimit, plain_pagination, plain_pageInfo]
  cases c.pageInfo <;> rfl

/-- A list is always fetched up to the limit of its page. -/
theorem limit_le_fetchLimit_plain : c.pagination.limit ≤ (c.plain infos).fetchLimit := by
  rw [fetchLimit, plain_pagination]
  exact Nat.le_add_right _ _

/-- Without its metadata a list seeks the same rows. -/
theorem seek_plain :
    (Listing.ofConnection (c.plain infos)).seek = (Listing.ofConnection c).seek := by
  simp only [Listing.ofConnection, plain_pagination, plain_effectiveOrder, plain_typedCursors,
    plain_type]

/-- Without its metadata a list is fetched in the same order. -/
theorem fetchOrder_plain :
    (Listing.ofConnection (c.plain infos)).fetchOrder = (Listing.ofConnection c).fetchOrder := by
  rw [Listing.fetchOrder, Listing.fetchOrder, Listing.ofConnection, Listing.ofConnection]
  dsimp only
  rw [plain_pagination, plain_effectiveOrder]

end BoundConnection

namespace Target

variable (target : Target)

@[simp] theorem plain_type : (target.plain infos).type = target.type := by
  obtain ⟨_, _⟩ | c | ⟨_, _ | _, _⟩ := target
  · rfl
  · exact c.plain_type infos
  · rfl
  · rfl

@[simp] theorem plain_connection :
    (target.plain infos).connection? = target.connection?.map (BoundConnection.plain infos) := by
  obtain _ | _ | _ := target <;> rfl

@[simp] theorem plain_record :
    (target.plain infos).record? = target.record?.map (BoundField.plain infos) := by
  obtain _ | c | ⟨_, _ | _, _⟩ := target
  · rfl
  · exact c.plain_node infos
  · rfl
  · rfl

end Target

/-! ### Plans -/

/-- The lists of a position sort by the same columns. -/
theorem targetOrders_plain (targets : List Target) :
    targetOrders (targets.map (Target.plain infos)) = targetOrders targets := by
  rw [targetOrders, targetOrders, List.filterMap_map]
  refine List.filterMap_congr fun target _ => ?_
  rw [Function.comp_apply, Target.plain_connection, Option.map_map]
  refine congrArg (fun f => Option.map f _) (funext fun c => ?_)
  rw [Function.comp_apply, BoundConnection.plain_type, BoundConnection.plain_effectiveOrder]

@[simp] theorem checkOrders_plain (position : Path) (targets : List Target) :
    checkOrders position (targets.map (Target.plain infos)) = checkOrders position targets := by
  rw [checkOrders, checkOrders, targetOrders_plain]

namespace Plan

variable (target : Target) (filter : Filter) (join : Option Join) (take : Option Nat)

/-- The columns of a list do not depend on what is asked about it. -/
theorem sorted_plain : (((target.plain infos).connection?.map Listing.ofConnection).map
      fun listing => listing.order.columns) =
    (target.connection?.map Listing.ofConnection).map fun listing => listing.order.columns := by
  rw [Target.plain_connection]
  cases target.connection? with
  | none => rfl
  | some c =>
    exact congrArg (fun order => some (Order.columns order)) (c.plain_effectiveOrder infos)

theorem columns_plain : (compile (target.plain infos) filter join take).columns =
    (compile target filter join take).columns := by
  have attributes : ((target.plain infos).record?.map fun f => f.attributes.flatMap
      Attribute.columns) = target.record?.map fun f => f.attributes.flatMap Attribute.columns := by
    rw [Target.plain_record, Option.map_map]
    refine congrArg (fun g => Option.map g _) (funext fun f => ?_)
    rw [Function.comp_apply, BoundField.plain_attributes]
  have links : ((target.plain infos).record?.map fun f => f.links.map fun (_, l) =>
      l.association.localColumn) = target.record?.map fun f => f.links.map fun (_, l) =>
        l.association.localColumn := by
    rw [Target.plain_record, Option.map_map]
    refine congrArg (fun g => Option.map g _) (funext fun f => ?_)
    rw [Function.comp_apply, BoundField.plain_links, List.map_map]
    refine List.map_congr_left fun (key, l) _ => ?_
    exact congrArg Association.localColumn (l.plain_association infos)
  show requiredColumns _ _ _ = requiredColumns _ _ _
  rw [requiredColumns, requiredColumns, attributes, links, sorted_plain, Target.plain_type]

theorem fetchFilter_plain : (compile (target.plain infos) filter join take).fetchFilter =
    (compile target filter join take).fetchFilter := by
  have own : (compile (target.plain infos) filter join take).filter =
      (compile target filter join take).filter := by
    show Filter.allOf [_, filter] = Filter.allOf [_, filter]
    rw [Target.plain_type]
  have seek : (compile (target.plain infos) filter join take).listing.bind Listing.seek =
      (compile target filter join take).listing.bind Listing.seek := by
    show ((target.plain infos).connection?.map _).bind _ = (target.connection?.map _).bind _
    rw [Target.plain_connection]
    cases target.connection? with
    | none => rfl
    | some c => exact c.seek_plain infos
  rw [fetchFilter, fetchFilter, own, seek]

theorem order_plain : (compile (target.plain infos) filter join take).arguments.order =
    (compile target filter join take).arguments.order := by
  show Option.getD (((target.plain infos).connection?.map _).map _) [] =
    Option.getD ((target.connection?.map _).map _) []
  rw [Target.plain_connection]
  cases target.connection? with
  | none => rfl
  | some c => exact c.fetchOrder_plain infos

end Plan

end Queries

/-! ### Answers -/

mutual

/-- A record without its cursor, with plain answers. -/
def Record.plain : Record → Record
  | ⟨type, columns, values, _, links⟩ => ⟨type, columns, values, none, Answer.plainLinks links⟩

/-- Plain answers under their keys. -/
def Answer.plainLinks : List (String × Answer Record) → List (String × Answer Record)
  | [] => []
  | (key, answer) :: rest => (key, answer.plain) :: Answer.plainLinks rest

/-- An answer with its records only. -/
def Answer.plain : Answer Record → Answer Record
  | .many ⟨records, _, _⟩ => .many ⟨Record.plainEach records, 0, none⟩
  | .one none => .one none
  | .one (some record) => .one (some record.plain)

/-- Plain records. -/
def Record.plainEach : List Record → List Record
  | [] => []
  | record :: rest => record.plain :: Record.plainEach rest

end

theorem Answer.plainLinks_eq (links : List (String × Answer Record)) :
    plainLinks links = links.map fun (key, answer) => (key, answer.plain) := by
  induction links with
  | nil => rfl
  | cons link rest ih => rw [plainLinks, ih, List.map_cons]

theorem Record.plainEach_eq (records : List Record) : plainEach records = records.map plain := by
  induction records with
  | nil => rfl
  | cons record rest ih => rw [plainEach, ih, List.map_cons]

/-- A response with its records only. -/
def Response.plain (response : Response) : Response :=
  response.map fun (key, answer) => (key, answer.plain)

end GraphRead
