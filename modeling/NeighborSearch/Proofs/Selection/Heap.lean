import NeighborSearch.Proofs.Selection.Order
import NeighborSearch.Selection.BoundedHeap

/-!
# What a bounded heap keeps

The used slots of a bounded heap are ordered as a tree (`IsHeap`), so its first slot
holds the greatest candidate kept. A sift starts from slots that are ordered but for
one *hole*, and moves the hole until nothing is left to repair: up, as long as the
candidate in it exceeds the one above (`IsHeapAbove`), or down, as long as one below
exceeds it (`IsHeapBelow`). It exchanges candidates, so none is lost.

Hence a heap of `n` slots keeps the `n` smallest of the candidates pushed
(`Keeps.foldl_push`).
-/

namespace NeighborSearch.BoundedHeap

variable {n : ℕ} {slots : Vector Candidate n} {size : ℕ}

/-- No candidate among the first `size` exceeds the one above it. -/
def IsHeap (slots : Vector Candidate n) (size : ℕ) : Prop :=
  ∀ i (_ : i < n), 0 < i → i < size → slots[i] ≤ slots[(i - 1) / 2]

theorem IsHeap.le_first (h : IsHeap slots size) {i : ℕ} (hi : i < n) (his : i < size) :
    slots[i] ≤ slots[0] := by
  induction i using Nat.strong_induction_on with
  | _ i ih =>
    rcases Nat.eq_zero_or_pos i with rfl | hpos
    · exact le_rfl
    · exact (h i hi hpos his).trans (ih ((i - 1) / 2) (by omega) (by omega) (by omega))

/-! ## Sifting up -/

/-- The slots are ordered, but the candidate in the hole may exceed the one above it. Those
    below the hole do not. -/
structure IsHeapAbove (slots : Vector Candidate n) (size hole : ℕ) (hhole : hole < n) :
    Prop where
  others : ∀ i (_ : i < n), 0 < i → i < size → i ≠ hole → slots[i] ≤ slots[(i - 1) / 2]
  below : 0 < hole → ∀ i (_ : i < n), 0 < i → i < size → (i - 1) / 2 = hole →
    slots[i] ≤ slots[(hole - 1) / 2]

theorem IsHeapAbove.swap {hole : ℕ} {hhole : hole < n} (h : IsHeapAbove slots size hole hhole)
    (hpos : 0 < hole) (hlt : ¬slots[hole] ≤ slots[(hole - 1) / 2]) :
    IsHeapAbove (slots.swap ((hole - 1) / 2) hole) size ((hole - 1) / 2) (by omega) := by
  have hgt : slots[(hole - 1) / 2] ≤ slots[hole] := (lt_of_not_ge hlt).le
  constructor
  · intro i hi hi0 his hne
    rw [Vector.getElem_swap, Vector.getElem_swap, if_neg hne]
    by_cases hih : i = hole
    · rw [if_pos hih, if_pos (by omega)]
      exact hgt
    · rw [if_neg hih]
      by_cases hup : (i - 1) / 2 = (hole - 1) / 2
      · -- The other one below the place that the hole moves to.
        rw [if_pos hup]
        have := h.others i hi hi0 his hih
        simp only [hup] at this
        exact this.trans hgt
      · rw [if_neg hup]
        by_cases hdown : (i - 1) / 2 = hole
        · rw [if_pos hdown]
          exact h.below hpos i hi hi0 his hdown
        · rw [if_neg hdown]
          exact h.others i hi hi0 his hih
  · intro hup i hi hi0 his hdown
    have habove := h.others ((hole - 1) / 2) (by omega) hup (by omega) (by omega)
    rw [Vector.getElem_swap_of_ne (k := ((hole - 1) / 2 - 1) / 2) (by omega) (by omega),
      Vector.getElem_swap, if_neg (by omega)]
    by_cases hih : i = hole
    · rw [if_pos hih]
      exact habove
    · rw [if_neg hih]
      have := h.others i hi hi0 his hih
      simp only [hdown] at this
      exact this.trans habove

theorem isHeap_siftUp {hole : ℕ} {hhole : hole < n} (h : IsHeapAbove slots size hole hhole) :
    IsHeap (siftUp slots hole hhole) size := by
  fun_induction siftUp slots hole hhole with
  | case1 slots hole hhole hpos hup hle =>
    intro i hi hi0 his
    by_cases hih : i = hole
    · subst hih
      exact hle
    · exact h.others i hi hi0 his hih
  | case2 slots hole hhole hpos hup hle ih => exact ih (h.swap hpos hle)
  | case3 slots hole hhole hpos =>
    intro i hi hi0 his
    exact h.others i hi hi0 his (by omega)

theorem siftUp_perm {hole : ℕ} (hhole : hole < n) : (siftUp slots hole hhole).Perm slots := by
  fun_induction siftUp slots hole hhole with
  | case1 | case3 => exact .rfl
  | case2 slots hole hhole hpos hup hle ih => exact ih.trans (Vector.swap_perm _ _)

/-- What lies after the hole stays where it is. -/
theorem getElem?_siftUp {hole : ℕ} (hhole : hole < n) {i : ℕ} (hi : hole < i) :
    (siftUp slots hole hhole)[i]? = slots[i]? := by
  fun_induction siftUp slots hole hhole with
  | case1 | case3 => rfl
  | case2 slots hole hhole hpos hup hle ih =>
    rw [ih (by omega), Vector.getElem?_swap, if_neg (by omega), if_neg (by omega)]

/-! ## Sifting down -/

/-- The slots are ordered, but the candidates below the hole may exceed the one in it.
    They do not exceed the one above it. -/
structure IsHeapBelow (slots : Vector Candidate n) (size hole : ℕ) : Prop where
  others : ∀ i (_ : i < n), 0 < i → i < size → (i - 1) / 2 ≠ hole →
    slots[i] ≤ slots[(i - 1) / 2]
  below : 0 < hole → ∀ i (_ : i < n), 0 < i → i < size → (h : (i - 1) / 2 = hole) →
    slots[i] ≤ slots[(hole - 1) / 2]

/-- Of the two candidates below a slot, none exceeds the greater one. -/
theorem le_greaterChild_of_parent (hsize : size ≤ n) {pos i : ℕ} (h : 2 * pos + 1 < size)
    (hi : i < n) (hi0 : 0 < i) (his : i < size) (hpos : (i - 1) / 2 = pos)
    (hc : greaterChild slots size hsize (2 * pos + 1) < n) :
    slots[i] ≤ slots[greaterChild slots size hsize (2 * pos + 1)] := by
  have hi2 : i = 2 * pos + 1 ∨ i = 2 * pos + 2 := by omega
  revert hc
  unfold greaterChild
  split
  · rename_i hsecond
    split
    · rename_i hlt
      intro hc
      rcases hi2 with rfl | rfl
      · exact hlt.le
      · exact le_rfl
    · rename_i hlt
      intro hc
      rcases hi2 with rfl | rfl
      · exact le_rfl
      · exact le_of_not_gt hlt
  · rename_i hsecond
    intro hc
    obtain rfl : i = 2 * pos + 1 := by omega
    exact le_rfl

theorem greaterChild_parent (hsize : size ≤ n) (pos : ℕ) :
    (greaterChild slots size hsize (2 * pos + 1) - 1) / 2 = pos := by
  unfold greaterChild
  repeat' split
  all_goals omega

theorem IsHeapBelow.swap {hole child : ℕ} (h : IsHeapBelow slots size hole) (hhole : hole < n)
    (hchild : child < n) (hcs : child < size) (hc0 : 0 < child) (hparent : (child - 1) / 2 = hole)
    (hmax : ∀ i (_ : i < n), 0 < i → i < size → (i - 1) / 2 = hole → slots[i] ≤ slots[child])
    (hgt : slots[hole] ≤ slots[child]) :
    IsHeapBelow (slots.swap hole child) size child := by
  constructor
  · intro i hi hi0 his hne
    rw [Vector.getElem_swap, Vector.getElem_swap, if_neg hne]
    by_cases hic : i = child
    · rw [if_neg (by omega), if_pos hic, if_pos (by omega)]
      exact hgt
    · rw [if_neg hic]
      by_cases hup : (i - 1) / 2 = hole
      · rw [if_neg (by omega), if_pos hup]
        exact hmax i hi hi0 his hup
      · rw [if_neg hup]
        by_cases hih : i = hole
        · -- The greatest one below the hole takes its place.
          subst hih
          rw [if_pos rfl]
          exact h.below hi0 child hchild hc0 hcs hparent
        · rw [if_neg hih]
          exact h.others i hi hi0 his hup
  · intro _ i hi hi0 his hdown
    have := h.others i hi hi0 his (by omega)
    rw [Vector.getElem_swap, Vector.getElem_swap, if_neg (by omega), if_neg (by omega),
      if_pos hparent]
    simp only [hdown] at this
    exact this

theorem isHeap_siftDown (hsize : size ≤ n) {hole : ℕ} (h : IsHeapBelow slots size hole) :
    IsHeap (siftDown slots size hsize hole) size := by
  fun_induction siftDown slots size hsize hole with
  | case1 slots hole hdown hlt hle child hstop =>
    intro i hi hi0 his
    by_cases hup : (i - 1) / 2 = hole
    · have hle : slots[i] ≤ slots[child] :=
        le_greaterChild_of_parent hsize hdown hi hi0 his hup (by omega)
      simp only [hup]
      exact hle.trans hstop
    · exact h.others i hi hi0 his hup
  | case2 slots hole hdown hlt hle child hstop ih =>
    refine ih (h.swap (by omega) (by omega) hlt (by omega) (greaterChild_parent hsize hole) ?_ ?_)
    · intro i hi hi0 his hup
      exact le_greaterChild_of_parent hsize hdown hi hi0 his hup (by omega)
    · exact (lt_of_not_ge hstop).le
  | case3 slots hole hdown =>
    intro i hi hi0 his
    exact h.others i hi hi0 his (by omega)

theorem siftDown_perm (hsize : size ≤ n) {hole : ℕ} :
    (siftDown slots size hsize hole).Perm slots := by
  fun_induction siftDown slots size hsize hole with
  | case1 | case3 => exact .rfl
  | case2 slots hole hdown hlt hle child hstop ih => exact ih.trans (Vector.swap_perm _ _)

/-- The slots not used stay as they are. -/
theorem getElem?_siftDown (hsize : size ≤ n) {hole i : ℕ} (hi : size ≤ i) :
    (siftDown slots size hsize hole)[i]? = slots[i]? := by
  fun_induction siftDown slots size hsize hole with
  | case1 | case3 => rfl
  | case2 slots hole hdown hlt hle child hstop ih =>
    rw [ih, Vector.getElem?_swap, if_neg (by omega), if_neg (by omega)]

/-! ## Pushing -/

theorem take_perm_take {slots slots' : Vector Candidate n} (hperm : slots'.Perm slots)
    (hrest : ∀ i, size ≤ i → slots'[i]? = slots[i]?) :
    (slots'.toList.take size).Perm (slots.toList.take size) := by
  have hdrop : slots'.toList.drop size = slots.toList.drop size := by
    apply List.ext_getElem?
    intro i
    rw [List.getElem?_drop, List.getElem?_drop, Vector.getElem?_toList, Vector.getElem?_toList]
    exact hrest (size + i) (Nat.le_add_right _ _)
  have hall := hperm.toList
  rw [← List.take_append_drop size slots'.toList, ← List.take_append_drop size slots.toList,
    hdrop] at hall
  exact (List.perm_append_right_iff _).1 hall

/-- The heap is in order, and what it keeps are the smallest of the candidates pushed. -/
structure Keeps (h : BoundedHeap n) (pushed : List Candidate) : Prop where
  isHeap : IsHeap h.slots h.size
  perm : h.toList.Perm (smallest n pushed)

variable {h : BoundedHeap n} {pushed : List Candidate} {c : Candidate}

theorem keeps_empty (slots : Vector Candidate n) : Keeps (empty slots) [] where
  isHeap _ _ _ his := absurd his (Nat.not_lt_zero _)
  perm := by simp [empty, toList, smallest]

theorem Keeps.size_eq (hk : h.Keeps pushed) : h.size = min n pushed.length := by
  rw [← h.length_toList, hk.perm.length_eq, length_smallest]

theorem Keeps.sorted_eq (hk : h.Keeps pushed) : h.sorted = smallest n pushed := by
  have hperm : (Candidate.sort h.toList).Perm (smallest n pushed) :=
    (List.mergeSort_perm _ _).trans hk.perm
  exact hperm.eq_of_pairwise' List.sortedLE_mergeSort.pairwise pairwise_smallest

/-- With a free slot, the candidate is put there and sifted up. -/
theorem Keeps.push_of_lt (hk : h.Keeps pushed) (hfree : h.size < n) :
    (h.push c).Keeps (pushed ++ [c]) := by
  have hsize := hk.size_eq
  have hpush : h.push c =
      ⟨siftUp (h.slots.set h.size c) h.size hfree, h.size + 1, hfree⟩ := by
    rw [push, dif_pos hfree]
  rw [hpush]
  constructor
  · change IsHeap (siftUp _ h.size hfree) (h.size + 1)
    refine isHeap_siftUp ?_
    constructor
    · intro i hi hi0 his hne
      have hlt : i < h.size := by omega
      rw [Vector.getElem_set_ne _ _ (by omega), Vector.getElem_set_ne _ _ (by omega)]
      exact hk.isHeap i hi hi0 hlt
    · intro _ i _ _ his hdown
      omega
  · have hperm : (siftUp (h.slots.set h.size c) h.size hfree).toList.take (h.size + 1) |>.Perm
        ((h.slots.set h.size c).toList.take (h.size + 1)) :=
      take_perm_take (siftUp_perm hfree) fun i hi => getElem?_siftUp hfree (by omega)
    refine hperm.trans ?_
    have hset : (h.slots.set h.size c).toList.take (h.size + 1) = h.toList ++ [c] := by
      rw [Vector.toList_set, List.take_add_one, List.take_set_of_le le_rfl,
        List.getElem?_set_self (by simpa using hfree)]
      rfl
    rw [hset]
    -- All that was pushed is kept, as there was room for it.
    refine (hk.perm.append_right [c]).trans ?_
    have hall : pushed.length + 1 ≤ n := by omega
    refine ((smallest_perm_self (by omega)).append_right [c]).trans ?_
    exact (smallest_perm_self (by simpa using hall)).symm

/-- In a full heap, the first candidate is the greatest of those kept. -/
theorem Keeps.toList_eq_cons (hk : h.Keeps pushed) (hfull : h.size = n) (hn : 0 < n) :
    ∃ rest, h.toList = h.slots[0] :: rest ∧ rest.length + 1 = n ∧
      ∀ x ∈ h.toList, x ≤ h.slots[0] := by
  refine ⟨h.toList.tail, ?_, ?_, ?_⟩
  · rw [toList, List.take_of_length_le (by simp [hfull])]
    rw [← List.cons_head_tail (l := h.slots.toList) (by simp; omega)]
    simp [List.head_eq_getElem]
  · simp [hfull]
    omega
  · intro x hx
    obtain ⟨i, hi, rfl⟩ := List.getElem_of_mem hx
    rw [h.length_toList] at hi
    have := hk.isHeap.le_first (i := i) (by omega) hi
    simpa [toList] using this

/-- What has been dropped before does not matter for the next candidate. -/
theorem Keeps.smallest_append (hk : h.Keeps pushed) :
    smallest n (pushed ++ [c]) = smallest n (c :: h.toList) := by
  rw [← smallest_smallest_append le_rfl, smallest_perm List.perm_append_comm]
  exact smallest_perm (hk.perm.symm.cons c) n

/-- A smaller candidate takes the place of the greatest one and is sifted down. -/
theorem Keeps.push_of_lt_first (hk : h.Keeps pushed) (hfull : h.size = n) (hn : 0 < n)
    (hlt : c < h.slots[0]) : (h.push c).Keeps (pushed ++ [c]) := by
  have hpush : h.push c =
      ⟨siftDown (h.slots.set 0 c) h.size h.size_le 0, h.size, h.size_le⟩ := by
    rw [BoundedHeap.push, dif_neg (by omega), dif_pos hn, if_pos hlt]
  rw [hpush]
  constructor
  · refine isHeap_siftDown h.size_le ?_
    constructor
    · intro i hi hi0 his hne
      rw [Vector.getElem_set_ne _ _ (by omega), Vector.getElem_set_ne _ _ (by omega)]
      exact hk.isHeap i hi hi0 his
    · intro h0
      exact absurd h0 (Nat.lt_irrefl 0)
  · obtain ⟨rest, heq, hlen, hmax⟩ := hk.toList_eq_cons hfull hn
    have hperm : (siftDown (h.slots.set 0 c) h.size h.size_le 0).toList.take h.size |>.Perm
        ((h.slots.set 0 c).toList.take h.size) :=
      take_perm_take (siftDown_perm h.size_le) fun i hi => getElem?_siftDown h.size_le hi
    have hset : (h.slots.set 0 c).toList.take h.size = c :: rest := by
      rw [Vector.toList_set, List.take_set, ← toList, heq, List.set_cons_zero]
    -- The first candidate is exceeded by none of the `n` others.
    have hsmallest : smallest n (c :: h.slots[0] :: rest) = smallest n (c :: rest) := by
      rw [smallest_perm (List.Perm.swap _ _ _)]
      apply smallest_cons_of_le_countP
      rw [List.countP_eq_length.2, List.length_cons, hlen]
      intro x hx
      rcases List.mem_cons.1 hx with rfl | hx
      · exact decide_eq_true hlt.le
      · exact decide_eq_true (hmax x (heq ▸ List.mem_cons_of_mem _ hx))
    rw [hk.smallest_append, heq, hsmallest]
    refine hperm.trans ?_
    rw [hset]
    exact (smallest_perm_self (by simp [hlen])).symm

/-- With no free slot, a candidate that is not below the first one changes nothing. -/
theorem push_eq_self (hfull : h.size = n) (hge : ∀ _ : 0 < n, ¬c < h.slots[0]) :
    h.push c = h := by
  rw [BoundedHeap.push, dif_neg (by omega)]
  split
  case isTrue hn => exact if_neg (hge hn)
  case isFalse => rfl

/-- One that is not smaller is dropped. -/
theorem Keeps.push_of_not_lt_first (hk : h.Keeps pushed) (hfull : h.size = n) (hn : 0 < n)
    (hge : ¬c < h.slots[0]) : (h.push c).Keeps (pushed ++ [c]) := by
  obtain ⟨rest, heq, hlen, hmax⟩ := hk.toList_eq_cons hfull hn
  have hcount : n ≤ h.toList.countP (· ≤ c) := by
    rw [List.countP_eq_length.2, h.length_toList, hfull]
    intro x hx
    exact decide_eq_true ((hmax x hx).trans (le_of_not_gt hge))
  rw [push_eq_self hfull fun _ => hge]
  refine ⟨hk.isHeap, ?_⟩
  rw [hk.smallest_append, smallest_cons_of_le_countP hcount]
  exact (smallest_perm_self (by simp [hfull])).symm

theorem Keeps.push (hk : h.Keeps pushed) : (h.push c).Keeps (pushed ++ [c]) := by
  rcases Nat.lt_or_eq_of_le h.size_le with hfree | hfull
  · exact hk.push_of_lt hfree
  · rcases Nat.eq_zero_or_pos n with rfl | hn
    · rw [push_eq_self hfull fun hn => absurd hn (Nat.lt_irrefl 0)]
      exact ⟨hk.isHeap, by simpa [smallest] using hk.perm⟩
    · by_cases hlt : c < h.slots[0]
      · exact hk.push_of_lt_first hfull hn hlt
      · exact hk.push_of_not_lt_first hfull hn hlt

theorem Keeps.foldl_push (hk : h.Keeps pushed) (cs : List Candidate) :
    (cs.foldl BoundedHeap.push h).Keeps (pushed ++ cs) := by
  induction cs generalizing h pushed with
  | nil => rwa [List.append_nil]
  | cons c cs ih =>
    rw [List.append_cons]
    exact ih hk.push

end NeighborSearch.BoundedHeap
