import Mathlib.Data.List.Sort

/-!
# The smallest elements of a list

The `k` smallest elements of a list, in ascending order, are what its sorted form
begins with. Here they are characterised without sorting (`eq_smallest`), which gives
the laws by which they are found piece by piece: an element that at least `k` others
do not exceed does not matter (`smallest_cons_of_le_countP`), so all but the `k`
smallest elements of a part may be dropped (`smallest_smallest_append`).
-/

namespace NeighborSearch

variable {α : Type*} [LinearOrder α]

/-- The `k` smallest elements of a list, in ascending order. -/
def smallest (k : ℕ) (xs : List α) : List α :=
  (xs.mergeSort fun a b => decide (a ≤ b)).take k

variable {k m : ℕ} {xs ys zs : List α}

@[simp] theorem length_smallest : (smallest k xs).length = min k xs.length := by
  simp [smallest]

theorem pairwise_smallest : (smallest k xs).Pairwise (· ≤ ·) :=
  (List.sortedLE_mergeSort.pairwise).sublist (List.take_sublist _ _)

/-- The smallest elements are taken out of the list, and exceed none of those left. -/
theorem exists_smallest_append (k : ℕ) (xs : List α) :
    ∃ rest, (smallest k xs ++ rest).Perm xs ∧ ∀ y ∈ smallest k xs, ∀ z ∈ rest, y ≤ z := by
  refine ⟨(xs.mergeSort fun a b => decide (a ≤ b)).drop k, ?_, ?_⟩
  · rw [smallest, List.take_append_drop]
    exact List.mergeSort_perm _ _
  · have hsorted : (xs.mergeSort fun a b => decide (a ≤ b)).Pairwise (· ≤ ·) :=
      List.sortedLE_mergeSort.pairwise
    rw [← List.take_append_drop k (xs.mergeSort _), List.pairwise_append] at hsorted
    exact hsorted.2.2

/-- With an element, all smaller ones are among the smallest. -/
theorem mem_smallest_of_lt {x y : α} (hy : y ∈ smallest k xs) (hx : x ∈ xs) (hxy : x < y) :
    x ∈ smallest k xs := by
  obtain ⟨rest, hperm, hle⟩ := exists_smallest_append k xs
  rcases List.mem_append.1 (hperm.mem_iff.2 hx) with hmem | hrest
  · exact hmem
  · exact absurd hxy (hle y hy x hrest).not_gt

/-- An ascending list with nothing smaller left beside it is made of the smallest
    elements. -/
theorem eq_smallest (hys : ys.Pairwise (· ≤ ·)) (hperm : (ys ++ zs).Perm xs)
    (hle : ∀ y ∈ ys, ∀ z ∈ zs, y ≤ z) : smallest ys.length xs = ys := by
  have hsorted : (ys ++ zs.mergeSort fun a b => decide (a ≤ b)).Pairwise (· ≤ ·) := by
    refine List.pairwise_append.2 ⟨hys, List.sortedLE_mergeSort.pairwise, ?_⟩
    intro y hy z hz
    exact hle y hy z (List.mem_mergeSort.1 hz)
  have heq : (xs.mergeSort fun a b => decide (a ≤ b)) =
      ys ++ zs.mergeSort fun a b => decide (a ≤ b) := by
    refine List.Perm.eq_of_pairwise' List.sortedLE_mergeSort.pairwise hsorted ?_
    refine (List.mergeSort_perm _ _).trans (hperm.symm.trans ?_)
    exact (List.mergeSort_perm _ _).symm.append_left ys
  rw [smallest, heq, List.take_left]

theorem smallest_perm (h : xs.Perm ys) (k : ℕ) : smallest k xs = smallest k ys := by
  have heq : (xs.mergeSort fun a b => decide (a ≤ b)) = ys.mergeSort fun a b => decide (a ≤ b) :=
    List.Perm.eq_of_pairwise' List.sortedLE_mergeSort.pairwise
      List.sortedLE_mergeSort.pairwise
      ((List.mergeSort_perm _ _).trans (h.trans (List.mergeSort_perm _ _).symm))
  rw [smallest, heq, smallest]

/-- An element that exceeds none of the others is the first one. -/
theorem smallest_succ_cons {x : α} (h : ∀ y ∈ xs, x ≤ y) (k : ℕ) :
    smallest (k + 1) (x :: xs) = x :: smallest k xs := by
  have heq : ((x :: xs).mergeSort fun a b => decide (a ≤ b)) =
      x :: xs.mergeSort fun a b => decide (a ≤ b) := by
    refine List.Perm.eq_of_pairwise' List.sortedLE_mergeSort.pairwise ?_
      ((List.mergeSort_perm _ _).trans ((List.mergeSort_perm _ _).symm.cons x))
    refine List.pairwise_cons.2 ⟨?_, List.sortedLE_mergeSort.pairwise⟩
    intro y hy
    exact h y (List.mem_mergeSort.1 hy)
  rw [smallest, heq, List.take_succ_cons, smallest]

/-- As many as the list has, and more, are all of them. -/
theorem smallest_perm_self (h : xs.length ≤ k) : (smallest k xs).Perm xs := by
  rw [smallest, List.take_of_length_le (by simpa using h)]
  exact List.mergeSort_perm _ _

theorem smallest_of_length_le (h : xs.length ≤ k) (hm : xs.length ≤ m) :
    smallest k xs = smallest m xs := by
  rw [smallest, smallest, List.take_of_length_le (by simpa using h),
    List.take_of_length_le (by simpa using hm)]

/-- All of an ascending list are the smallest, in the order that they have. -/
theorem smallest_of_pairwise (hxs : xs.Pairwise (· ≤ ·)) (h : xs.length ≤ k) :
    smallest k xs = xs := by
  have hperm : (xs ++ []).Perm xs := by rw [List.append_nil]
  rw [smallest_of_length_le h (Nat.le_refl _)]
  exact eq_smallest hxs hperm fun _ _ _ hz => absurd hz List.not_mem_nil

/-- With `k` elements that do not exceed `b`, none of the `k` smallest does. -/
theorem le_of_mem_smallest {b : α} (hb : k ≤ xs.countP (· ≤ b)) :
    ∀ y ∈ smallest k xs, y ≤ b := by
  intro y hy
  by_contra hlt
  obtain ⟨rest, hperm, hle⟩ := exists_smallest_append k xs
  have hrest : rest.countP (· ≤ b) = 0 := by
    rw [List.countP_eq_zero]
    intro z hz hzb
    exact hlt ((hle y hy z hz).trans (of_decide_eq_true hzb))
  have hfew : (smallest k xs).countP (· ≤ b) < (smallest k xs).length := by
    refine lt_of_le_of_ne List.countP_le_length fun heq => hlt ?_
    exact of_decide_eq_true (List.countP_eq_length.1 heq y hy)
  have hcount := hperm.countP_eq (· ≤ b)
  rw [List.countP_append, hrest] at hcount
  have hlen : (smallest k xs).length = min k xs.length := length_smallest
  omega

/-- An element that at least `k` others do not exceed is not among the `k` smallest. -/
theorem smallest_cons_of_le_countP {b : α} (hb : k ≤ xs.countP (· ≤ b)) :
    smallest k (b :: xs) = smallest k xs := by
  obtain ⟨rest, hperm, hle⟩ := exists_smallest_append k xs
  have hlen : (smallest k xs).length = k := by
    have hle : xs.countP (· ≤ b) ≤ xs.length := List.countP_le_length
    rw [length_smallest]
    omega
  have hmiddle : (smallest k xs ++ b :: rest).Perm (b :: xs) :=
    List.perm_middle.trans (hperm.cons b)
  have heq := eq_smallest pairwise_smallest hmiddle (by
    intro y hy z hz
    rcases List.mem_cons.1 hz with rfl | hz
    · exact le_of_mem_smallest hb y hy
    · exact hle y hy z hz)
  rwa [hlen] at heq

/-- The same for any number of elements. -/
theorem smallest_append_of_le_countP (h : ∀ z ∈ zs, k ≤ xs.countP (· ≤ z)) :
    smallest k (zs ++ xs) = smallest k xs := by
  induction zs with
  | nil => rfl
  | cons z zs ih =>
    have htail := ih fun z hz => h z (List.mem_cons_of_mem _ hz)
    have hz := h z List.mem_cons_self
    have hcount : k ≤ (zs ++ xs).countP (· ≤ z) := by
      rw [List.countP_append]
      omega
    rw [List.cons_append, smallest_cons_of_le_countP hcount, htail]

/-- To find the `k` smallest of two parts together, at least `k` of the smallest of
    either suffice. -/
theorem smallest_smallest_append (h : k ≤ m) (xs ys : List α) :
    smallest k (smallest m xs ++ ys) = smallest k (xs ++ ys) := by
  obtain ⟨rest, hperm, hle⟩ := exists_smallest_append m xs
  have hsplit : (xs ++ ys).Perm (rest ++ (smallest m xs ++ ys)) := by
    rw [← List.append_assoc]
    exact (hperm.symm.trans List.perm_append_comm).append_right ys
  rw [smallest_perm hsplit]
  refine (smallest_append_of_le_countP ?_).symm
  intro z hz
  have hall : (smallest m xs).countP (· ≤ z) = (smallest m xs).length :=
    List.countP_eq_length.2 fun y hy => decide_eq_true (hle y hy z hz)
  have hlen := hperm.length_eq
  have hpos := List.length_pos_of_mem hz
  rw [List.countP_append, hall]
  rw [List.length_append, length_smallest] at hlen
  rw [length_smallest]
  omega

theorem smallest_append_smallest (h : k ≤ m) (xs ys : List α) :
    smallest k (xs ++ smallest m ys) = smallest k (xs ++ ys) := by
  rw [smallest_perm List.perm_append_comm, smallest_smallest_append h,
    smallest_perm List.perm_append_comm]

end NeighborSearch
