import GraphRead.Proofs.PerParent.Read
import GraphRead.Resolve.Schedule
/-!
How many reads a plan makes.

The keys of a joined plan are cut into batches of as many as one read may hold
(`length_chunks`, `length_le_of_mem_chunks`). A plan makes one request for rows per batch, and one
for counts if it counts (`Plan.length_reads`); a plan without a join has a single batch.
-/

namespace GraphRead

/-! ### Chunks -/

section Chunks

variable {α : Type}

/-- No chunk is longer than the size, which counts as one if it is zero. -/
theorem length_le_of_mem_chunks {size : Nat} {items chunk : List α}
    (cut : chunk ∈ chunks size items) : chunk.length ≤ max 1 size := by
  fun_induction chunks size items with
  | case1 => cases cut
  | case2 first rest ih =>
    rcases List.mem_cons.mp cut with rfl | later
    · have taken := List.length_take_le (size - 1) rest
      rw [List.length_cons]
      omega
    · exact ih later

theorem ne_nil_of_mem_chunks {size : Nat} {items chunk : List α}
    (cut : chunk ∈ chunks size items) : chunk ≠ [] := by
  fun_induction chunks size items with
  | case1 => cases cut
  | case2 first rest ih =>
    rcases List.mem_cons.mp cut with rfl | later
    · exact List.cons_ne_nil _ _
    · exact ih later

/-- There are as many chunks as the size goes into the length, rounded up. -/
theorem length_chunks (size : Nat) (items : List α) :
    (chunks size items).length = (items.length + (max 1 size - 1)) / max 1 size := by
  fun_induction chunks size items with
  | case1 => exact (Nat.div_eq_of_lt (by rw [List.length_nil]; omega)).symm
  | case2 first rest ih =>
    have whole : rest.length + 1 + (max 1 size - 1) = rest.length + max 1 size := by omega
    rw [List.length_cons, List.length_cons, ih, List.length_drop, whole,
      Nat.add_div_right _ (by omega)]
    by_cases short : rest.length < max 1 size
    · rw [Nat.div_eq_of_lt short, Nat.div_eq_of_lt (by omega)]
    · have same : rest.length - (size - 1) + (max 1 size - 1) = rest.length := by omega
      rw [same]

end Chunks

namespace Plan

/-- Over how many reads the keys of a plan are spread: one if there is no limit, and else as many
as the limit goes into their number, rounded up. -/
def batches (plan : Plan) (size : Option Nat) : Nat :=
  match plan.join with
  | none => 1
  | some join =>
    match size with
    | none => 1
    | some limit => (join.keys.length + (max 1 limit - 1)) / max 1 limit

variable {plan : Plan}

theorem length_keyChunks {join : Join} (joined : plan.join = some join) (keyed : join.keys ≠ [])
    (size : Option Nat) : (keyChunks join size).length = plan.batches size := by
  have some_key := List.length_pos_iff.mpr keyed
  rw [keyChunks, length_chunks, batches, joined]
  cases size with
  | some limit => rfl
  | none =>
    have own : max 1 (chunkSize join none) = join.keys.length := by
      show max 1 join.keys.length = _
      omega
    show (join.keys.length + (max 1 (chunkSize join none) - 1)) / max 1 (chunkSize join none) = 1
    rw [own]
    exact Nat.div_eq_of_lt_le (by omega) (by omega)

/-- A plan makes one request for rows per batch, and one for counts where it counts. -/
theorem length_reads (keyed : ∀ join, plan.join = some join → join.keys ≠ [])
    (size : Option Nat) :
    (plan.reads size).length = plan.batches size * (1 + if plan.counts then 1 else 0) := by
  rw [reads, List.length_append, List.length_map]
  cases joined : plan.join with
  | none =>
    have single : (plan.fetches size).length = 1 := by rw [fetches, joined]; rfl
    have whole : plan.batches size = 1 := by rw [batches, joined]
    rw [single, whole]
    split
    · rfl
    · rfl
  | some join =>
    have cut := length_keyChunks joined (keyed join joined) size
    have groups : (plan.groupFilters join size).length = plan.batches size := by
      rw [← cut, groupFilters, List.length_map]
      rfl
    rw [fetches_eq joined, List.length_map, cut]
    split
    · rw [List.length_map, groups]
      omega
    · rw [List.length_nil]
      omega

end Plan

end GraphRead
