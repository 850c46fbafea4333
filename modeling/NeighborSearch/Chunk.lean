/-!
# Lists cut into pieces

A list is cut from its front into pieces of one length. What is left at the end,
shorter than a piece, is either dropped (`wholeChunks`) or kept as a last, shorter
piece (`chunks`). Pieces of length zero are never cut: there are none of them.
-/

namespace NeighborSearch

variable {α : Type _}

/-- The pieces of exactly `n` elements that `xs` consists of, without the shorter
    rest at its end. -/
def wholeChunks (n : Nat) (xs : List α) : List (List α) :=
  if _h : 0 < n ∧ (xs.take n).length = n then
    xs.take n :: wholeChunks n (xs.drop n)
  else
    []
termination_by xs.length
decreasing_by
  simp only [List.length_take, List.length_drop] at *
  omega

/-- The pieces of `n` elements that `xs` consists of, the last one possibly shorter. -/
def chunks (n : Nat) (xs : List α) : List (List α) :=
  if _h : 0 < n ∧ xs ≠ [] then
    xs.take n :: chunks n (xs.drop n)
  else
    []
termination_by xs.length
decreasing_by
  have := List.length_pos_iff.2 _h.2
  simp only [List.length_drop]
  omega

/-- What `wholeChunks n xs` leaves at the end of `xs`. -/
def leftover (n : Nat) (xs : List α) : List α :=
  xs.drop (n * (xs.length / n))

/-- Every whole piece has the length asked for. -/
theorem length_of_mem_wholeChunks {n : Nat} {xs piece : List α}
    (h : piece ∈ wholeChunks n xs) : piece.length = n := by
  fun_induction wholeChunks n xs with
  | case1 xs hn ih =>
    rcases List.mem_cons.1 h with rfl | h
    · exact hn.2
    · exact ih h
  | case2 => simp at h

end NeighborSearch
