import GraphRead.Binding.Arguments
import GraphRead.Binding.Fragments
/-!
The fixed fields of connections, edges and page infos.

A connection has edges, a page info and a count, and an edge has a node and a cursor. Each of them
may be asked several times under different keys; what is asked is put together. The edges of a
connection and the node of an edge lie less deep than the selection that asks them
(`depth_connectionParts_lt`, `depth_edgeParts_lt`).
-/

namespace GraphRead.Selection

open Fallible

/-- The field that names the type of a record. -/
def typeName : String := "__typename"

/-- Merges an invocation of a fixed field into the earlier ones. -/
def mergeInto (there : Option Selection) (s : Selection) (path : Path) :
    Except BindError Selection :=
  match there with
  | none => .ok s
  | some old =>
    (old.merge s).result.mapError fun field => .query ⟨path, .duplicateField field⟩

/-- One field of a page info. -/
def pageInfoField (path : Path) (asked : PageInfoRequest) (key : String) (child : Selection) :
    Except BindError PageInfoRequest :=
  if child.name = "hasNextPage" then .ok { asked with hasNextPage := true }
  else if child.name = "hasPreviousPage" then .ok { asked with hasPreviousPage := true }
  else if child.name = "startCursor" then .ok { asked with startCursor := true }
  else if child.name = "endCursor" then .ok { asked with endCursor := true }
  else if child.name = typeName then .ok asked
  else .error (.unsupportedField child.name "PageInfo" (path.add key))

/-- What a page info asks. -/
def pageInfoRequest (path : Path) (s : Selection) : Except BindError PageInfoRequest := do
  let resolved ← resolveFragments always path s
  resolved.children.foldlM (fun asked (key, child) => pageInfoField path asked key child) .none

/-- What is asked of a connection. -/
structure ConnectionParts where
  edges : Option Selection
  pageInfo : Option PageInfoRequest
  count : Bool

/-- One field of a connection. -/
def connectionField (type : String) (path : Path) (parts : ConnectionParts) (key : String)
    (child : Selection) : Except BindError ConnectionParts := do
  let childPath := path.add key
  if child.name = "edges" then
    return { parts with edges := some (← mergeInto parts.edges child childPath) }
  else if child.name = "pageInfo" then
    let asked ← pageInfoRequest childPath child
    return { parts with pageInfo := some ((parts.pageInfo.getD .none).union asked) }
  else if child.name = "count" ∨ child.name = "totalCount" then
    return { parts with count := true }
  else if child.name = typeName then return parts
  else .error (.unsupportedField child.name (type ++ "Connection") childPath)

/-- The parts of a connection from its fields. -/
def connectionParts (type : String) (path : Path) (children : List (String × Selection)) :
    Except BindError ConnectionParts :=
  children.foldlM (fun parts (key, child) => connectionField type path parts key child)
    ⟨none, none, false⟩

/-- What is asked of an edge. -/
structure EdgeParts where
  node : Option Selection
  cursor : Bool

/-- One field of an edge. -/
def edgeField (type : String) (path : Path) (parts : EdgeParts) (key : String)
    (child : Selection) : Except BindError EdgeParts := do
  let childPath := path.add key
  if child.name = "node" then
    return { parts with node := some (← mergeInto parts.node child childPath) }
  else if child.name = "cursor" then return { parts with cursor := true }
  else if child.name = typeName then return parts
  else .error (.unsupportedField child.name (type ++ "Edge") childPath)

/-- The parts of an edge from its fields. -/
def edgeParts (type : String) (path : Path) (children : List (String × Selection)) :
    Except BindError EdgeParts :=
  children.foldlM (fun parts (key, child) => edgeField type path parts key child) ⟨none, false⟩

/-! ### The parts lie less deep -/

theorem depth_mergeInto_le {there : Option Selection} {s merged : Selection} {path : Path}
    {bound : Nat} (done : mergeInto there s path = .ok merged) (here : s.depth ≤ bound)
    (before : ∀ old, there = some old → old.depth ≤ bound) : merged.depth ≤ bound := by
  unfold mergeInto at done
  split at done
  · cases done; exact here
  · rename_i old
    rw [Change.eq_of_result (mapError_eq_ok.mp done)]
    have := depth_merge_le old s
    have := before old rfl
    omega

theorem depth_connectionField_le {type : String} {path : Path} {parts next : ConnectionParts}
    {key : String} {child : Selection} (bound : Nat)
    (done : connectionField type path parts key child = .ok next) (here : child.depth ≤ bound)
    (before : ∀ edges, parts.edges = some edges → edges.depth ≤ bound) :
    ∀ edges, next.edges = some edges → edges.depth ≤ bound := by
  unfold connectionField at done
  split at done
  · obtain ⟨merged, mergedOk, same⟩ := bind_eq_ok.mp done
    cases pure_eq_ok.mp same
    intro edges same
    cases same
    exact depth_mergeInto_le mergedOk here before
  · split at done
    · obtain ⟨asked, _, same⟩ := bind_eq_ok.mp done
      cases pure_eq_ok.mp same
      exact before
    · split at done
      · cases pure_eq_ok.mp done
        exact before
      · split at done
        · cases pure_eq_ok.mp done
          exact before
        · cases done

/-- The edges lie less deep than the connection that asks them. -/
theorem depth_connectionParts_lt {type : String} {path : Path}
    {children : List (String × Selection)} {parts : ConnectionParts} {edges : Selection}
    (done : connectionParts type path children = .ok parts) (asked : parts.edges = some edges) :
    edges.depth < childrenDepth children := by
  suffices general : ∀ (rest : List (String × Selection)) (start : ConnectionParts),
      rest.foldlM (fun parts entry => connectionField type path parts entry.1 entry.2) start =
        Except.ok parts →
      (∀ e, start.edges = some e → e.depth + 1 ≤ childrenDepth children) →
      childrenDepth rest ≤ childrenDepth children → edges.depth + 1 ≤ childrenDepth children by
    exact general children ⟨none, none, false⟩ done (by simp) (Nat.le_refl _)
  intro rest
  induction rest with
  | nil =>
    intro start same before _
    cases pure_eq_ok.mp same
    exact before edges asked
  | cons entry rest ih =>
    obtain ⟨key, child⟩ := entry
    intro start same before within
    rw [List.foldlM_cons] at same
    obtain ⟨next, step, same⟩ := bind_eq_ok.mp same
    simp only [childrenDepth] at within
    refine ih next same ?_ (by omega)
    intro e isSome
    have := depth_connectionField_le (childrenDepth children - 1) step (by simp only; omega)
      (fun old there => by have := before old there; omega) e isSome
    omega

theorem depth_edgeField_le {type : String} {path : Path} {parts next : EdgeParts}
    {key : String} {child : Selection} (bound : Nat)
    (done : edgeField type path parts key child = .ok next) (here : child.depth ≤ bound)
    (before : ∀ node, parts.node = some node → node.depth ≤ bound) :
    ∀ node, next.node = some node → node.depth ≤ bound := by
  unfold edgeField at done
  split at done
  · obtain ⟨merged, mergedOk, same⟩ := bind_eq_ok.mp done
    cases pure_eq_ok.mp same
    intro node same
    cases same
    exact depth_mergeInto_le mergedOk here before
  · split at done
    · cases pure_eq_ok.mp done
      exact before
    · split at done
      · cases pure_eq_ok.mp done
        exact before
      · cases done

/-- The node lies less deep than the edge that asks it. -/
theorem depth_edgeParts_lt {type : String} {path : Path} {children : List (String × Selection)}
    {parts : EdgeParts} {node : Selection} (done : edgeParts type path children = .ok parts)
    (asked : parts.node = some node) : node.depth < childrenDepth children := by
  suffices general : ∀ (rest : List (String × Selection)) (start : EdgeParts),
      rest.foldlM (fun parts entry => edgeField type path parts entry.1 entry.2) start =
        Except.ok parts →
      (∀ n, start.node = some n → n.depth + 1 ≤ childrenDepth children) →
      childrenDepth rest ≤ childrenDepth children → node.depth + 1 ≤ childrenDepth children by
    exact general children ⟨none, false⟩ done (by simp) (Nat.le_refl _)
  intro rest
  induction rest with
  | nil =>
    intro start same before _
    cases pure_eq_ok.mp same
    exact before node asked
  | cons entry rest ih =>
    obtain ⟨key, child⟩ := entry
    intro start same before within
    rw [List.foldlM_cons] at same
    obtain ⟨next, step, same⟩ := bind_eq_ok.mp same
    simp only [childrenDepth] at within
    refine ih next same ?_ (by omega)
    intro n isSome
    have := depth_edgeField_le (childrenDepth children - 1) step (by simp only; omega)
      (fun old there => by have := before old there; omega) n isSome
    omega

end GraphRead.Selection
