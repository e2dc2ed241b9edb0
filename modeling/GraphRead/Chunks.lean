/-!
Cutting lists into chunks of a size.
-/

namespace GraphRead

variable {α : Type}

/-- Cuts a list into chunks of the given size, the last of which may be shorter. The size counts
as one if it is zero. -/
def chunks (size : Nat) (items : List α) : List (List α) :=
  match items with
  | [] => []
  | first :: rest => (first :: rest.take (size - 1)) :: chunks size (rest.drop (size - 1))
termination_by items.length
decreasing_by simp only [List.length_drop, List.length_cons]; omega

/-- The chunks together are the whole. -/
theorem flatten_chunks (size : Nat) (items : List α) : (chunks size items).flatten = items := by
  fun_induction chunks size items with
  | case1 => rfl
  | case2 first rest ih =>
    rw [List.flatten_cons, ih, List.cons_append, List.take_append_drop]

end GraphRead
