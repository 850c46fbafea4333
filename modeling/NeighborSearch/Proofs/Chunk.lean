import Mathlib.Algebra.BigOperators.Group.List.Basic
import Mathlib.Algebra.Ring.Nat
import NeighborSearch.Chunk

/-!
# Lists cut alike

The pieces of a list are found by their number, and make up the list again. Two lists
of one length are cut at the same places, so what is computed from both of them element
by element may be computed piece by piece.
-/

namespace NeighborSearch

variable {α β γ : Type*} {n : ℕ}

/-! ## Pieces by their numbers -/

/-- The first `m` pieces, one after the other. -/
theorem flatMap_range_take_drop (n m : ℕ) (xs : List α) :
    (List.range m).flatMap (fun i => (xs.drop (n * i)).take n) = xs.take (n * m) := by
  induction m with
  | zero => simp
  | succ m ih =>
    rw [List.range_succ, List.flatMap_append, ih, List.flatMap_singleton, Nat.mul_succ,
      List.take_add]

theorem length_flatMap_range {f : ℕ → List α} {k m : ℕ} (hlen : ∀ q < m, (f q).length = k) :
    ((List.range m).flatMap f).length = k * m := by
  have hall : ∀ q ∈ List.range m, (f q).length = k := fun q hq => hlen q (List.mem_range.1 hq)
  rw [List.length_flatMap, List.map_congr_left hall, List.map_const', List.sum_replicate_nat,
    List.length_range, Nat.mul_comm]

theorem wholeChunks_of_le {xs : List α} (hn : 0 < n) (h : n ≤ xs.length) :
    wholeChunks n xs = xs.take n :: wholeChunks n (xs.drop n) := by
  rw [wholeChunks, dif_pos ⟨hn, by simp [h]⟩]

theorem wholeChunks_of_lt {xs : List α} (h : xs.length < n) : wholeChunks n xs = [] := by
  rw [wholeChunks, dif_neg]
  rintro ⟨-, hlen⟩
  rw [List.length_take] at hlen
  omega

/-- Whole pieces by their numbers. -/
theorem wholeChunks_eq_map_range (hn : 0 < n) (xs : List α) :
    wholeChunks n xs = (List.range (xs.length / n)).map fun i => (xs.drop (n * i)).take n := by
  induction hm : xs.length / n generalizing xs with
  | zero =>
    rw [wholeChunks_of_lt ((Nat.div_eq_zero_iff_lt hn).1 hm), List.range_zero, List.map_nil]
  | succ m ih =>
    have hle : n ≤ xs.length := by
      rcases Nat.lt_or_ge xs.length n with h | h
      · rw [Nat.div_eq_of_lt h] at hm
        exact absurd hm (Nat.succ_ne_zero m).symm
      · exact h
    have hrest : (xs.drop n).length / n = m := by
      rw [Nat.div_eq_sub_div hn hle] at hm
      rw [List.length_drop]
      exact Nat.succ.inj hm
    rw [wholeChunks_of_le hn hle, ih _ hrest, List.range_succ_eq_map, List.map_cons, List.map_map]
    simp only [Nat.mul_zero, List.drop_zero, Function.comp_def, List.drop_drop, Nat.mul_succ,
      Nat.add_comm]

/-- The pieces of a list of equal elements are equal. -/
theorem wholeChunks_replicate (hn : 0 < n) (m : ℕ) (x : α) :
    wholeChunks n (List.replicate (n * m) x) = List.replicate m (List.replicate n x) := by
  have hpiece : ∀ i ∈ List.range m,
      ((List.replicate (n * m) x).drop (n * i)).take n = List.replicate n x := by
    intro i hi
    have hle : n ≤ n * m - n * i := by
      rw [← Nat.mul_sub]
      exact Nat.le_mul_of_pos_right n (Nat.sub_pos_of_lt (List.mem_range.1 hi))
    rw [List.drop_replicate, List.take_replicate, Nat.min_eq_left hle]
  rw [wholeChunks_eq_map_range hn, List.length_replicate, Nat.mul_div_cancel_left _ hn,
    List.map_congr_left hpiece, List.map_const', List.length_range]

/-! ## What is left after the whole pieces -/

theorem leftover_of_lt {xs : List α} (h : xs.length < n) : leftover n xs = xs := by
  rw [leftover, Nat.div_eq_of_lt h, Nat.mul_zero, List.drop_zero]

theorem leftover_of_le {xs : List α} (hn : 0 < n) (h : n ≤ xs.length) :
    leftover n xs = leftover n (xs.drop n) := by
  rw [leftover, leftover, List.drop_drop, List.length_drop, Nat.div_eq_sub_div hn h, Nat.mul_succ,
    Nat.add_comm]

theorem length_leftover (n : ℕ) (xs : List α) : (leftover n xs).length = xs.length % n := by
  rw [leftover, List.length_drop, Nat.mod_eq_sub]

theorem leftover_of_dvd {xs : List α} (h : n ∣ xs.length) : leftover n xs = [] := by
  rw [← List.length_eq_zero_iff, length_leftover, Nat.mod_eq_zero_of_dvd h]

/-- What is computed element by element is computed from the whole pieces and the rest. -/
theorem flatten_zipWith_wholeChunks (f : α → β → γ) (hn : 0 < n) {xs : List α} {ys : List β}
    (hlen : xs.length = ys.length) :
    (List.zipWith (List.zipWith f) (wholeChunks n xs) (wholeChunks n ys)).flatten ++
      List.zipWith f (leftover n xs) (leftover n ys) = List.zipWith f xs ys := by
  fun_induction wholeChunks n xs generalizing ys with
  | case1 xs h ih =>
    have hxs : n ≤ xs.length := by
      have := h.2
      rw [List.length_take] at this
      omega
    have hys : n ≤ ys.length := hlen ▸ hxs
    -- A piece off the front of both lists leaves the same rest at their ends.
    rw [wholeChunks_of_le hn hys, leftover_of_le hn hxs, leftover_of_le hn hys,
      List.zipWith_cons_cons, List.flatten_cons, List.append_assoc,
      ih (by rw [List.length_drop, List.length_drop, hlen]),
      ← List.zipWith_append (by rw [List.length_take, List.length_take, hlen]),
      List.take_append_drop, List.take_append_drop]
  | case2 xs h =>
    have hxs : xs.length < n := by
      apply Nat.lt_of_not_le
      intro hle
      exact h ⟨hn, by rw [List.length_take, Nat.min_eq_left hle]⟩
    rw [leftover_of_lt hxs, leftover_of_lt (hlen ▸ hxs)]
    rfl

/-- What is added up element by element is added up from the whole pieces and the rest. -/
theorem sum_zipWith_wholeChunks (f : α → β → ℕ) (hn : 0 < n) {xs : List α} {ys : List β}
    (hlen : xs.length = ys.length) :
    (List.zipWith (fun x y => (List.zipWith f x y).sum) (wholeChunks n xs) (wholeChunks n ys)).sum +
      (List.zipWith f (leftover n xs) (leftover n ys)).sum = (List.zipWith f xs ys).sum := by
  rw [← flatten_zipWith_wholeChunks f hn hlen, List.sum_append, List.sum_flatten, List.map_zipWith]

/-! ## Shorter last pieces -/

theorem chunks_of_ne_nil {xs : List α} (hn : 0 < n) (h : xs ≠ []) :
    chunks n xs = xs.take n :: chunks n (xs.drop n) := by
  rw [chunks, dif_pos ⟨hn, h⟩]

/-- Pieces of lists of one length agree in length, and none is longer than asked for. -/
theorem length_of_mem_zip_chunks {xs : List α} {ys : List β} (hlen : xs.length = ys.length)
    {p : List α × List β} (hp : p ∈ (chunks n xs).zip (chunks n ys)) :
    p.1.length = p.2.length ∧ p.1.length ≤ n := by
  fun_induction chunks n xs generalizing ys with
  | case1 xs h ih =>
    have hys : ys ≠ [] := by
      rintro rfl
      exact h.2 (List.length_eq_zero_iff.1 hlen)
    rw [chunks_of_ne_nil h.1 hys, List.zip_cons_cons] at hp
    rcases List.mem_cons.1 hp with rfl | hp
    · rw [List.length_take, List.length_take, hlen]
      exact ⟨rfl, Nat.min_le_left _ _⟩
    · exact ih (by rw [List.length_drop, List.length_drop, hlen]) hp
  | case2 xs h => simp at hp

/-- What is computed element by element is computed piece by piece. -/
theorem flatMap_zipWith_chunks (f : α → β → γ) (hn : 0 < n) {xs : List α} {ys : List β}
    (hlen : xs.length = ys.length) :
    ((chunks n xs).zip (chunks n ys)).flatMap (fun p => List.zipWith f p.1 p.2) =
      List.zipWith f xs ys := by
  fun_induction chunks n xs generalizing ys with
  | case1 xs h ih =>
    have hys : ys ≠ [] := by
      rintro rfl
      exact h.2 (List.length_eq_zero_iff.1 hlen)
    rw [chunks_of_ne_nil hn hys, List.zip_cons_cons, List.flatMap_cons,
      ih (by rw [List.length_drop, List.length_drop, hlen]),
      ← List.zipWith_append (by rw [List.length_take, List.length_take, hlen]),
      List.take_append_drop, List.take_append_drop]
  | case2 xs h =>
    have hxs : xs = [] := Classical.byContradiction fun hne => h ⟨hn, hne⟩
    simp [hxs]

end NeighborSearch
