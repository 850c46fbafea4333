import NeighborSearch.Proofs.Scan.Buffer
import NeighborSearch.Proofs.Smallest
import NeighborSearch.Scan.Nearest

/-!
# The nearest codes are the first ones

Neighbors are in a linear order (`Neighbor.instLinearOrder`), so those of a buffer have one
ascending arrangement. Its first `k` are found without sorting all of them: after a
rearrangement around the rank `k - 1`, they stand in front, and only they are sorted
(`sort_take_rearrange`).

Nothing else is used of the rearrangement and of the sort than that they are a *partition*
(`IsPartition`) and a *sort* (`IsSort`); the ones that are taken are (`isPartition_partAt`,
`isSort_sort`).
-/

namespace NeighborSearch

namespace Neighbor

variable {a b c : Neighbor}

/-! ## The order of neighbors -/

theorem le_iff : a ≤ b ↔ a.distance.toNat < b.distance.toNat ∨
    a.distance.toNat = b.distance.toNat ∧ a.id ≤ b.id := by
  rw [← UInt32.lt_iff_toNat_lt, UInt32.toNat_inj]
  rfl

theorem lt_iff : a < b ↔ a.distance.toNat < b.distance.toNat ∨
    a.distance.toNat = b.distance.toNat ∧ a.id < b.id := by
  rw [← UInt32.lt_iff_toNat_lt, UInt32.toNat_inj]
  rfl

theorem ext_toNat (hdistance : a.distance.toNat = b.distance.toNat) (hid : a.id = b.id) :
    a = b := by
  cases a
  cases b
  rw [mk.injEq]
  exact ⟨UInt32.toNat_inj.1 hdistance, hid⟩

instance instLinearOrder : LinearOrder Neighbor where
  le_refl a := le_iff.2 (.inr ⟨rfl, Nat.le_refl _⟩)
  le_trans a b c hab hbc := by
    rw [le_iff] at *
    omega
  le_antisymm a b hab hba := by
    rw [le_iff] at *
    exact ext_toNat (by omega) (by omega)
  le_total a b := by
    rw [le_iff, le_iff]
    omega
  lt_iff_le_not_ge a b := by
    rw [le_iff, le_iff, lt_iff]
    omega
  toDecidableLE := inferInstance
  toDecidableLT := inferInstance
  toDecidableEq := inferInstance

/-! ## Rearrangements and sorts -/

/-- A rearrangement around a rank: the same neighbors, with none greater before the one at
    the place of that rank and none smaller after it, so that it is the one of that rank. -/
def IsPartition (rearrange : (rank : ℕ) → List Neighbor → List Neighbor) : Prop :=
  ∀ rank xs, rank < xs.length → ∃ front x back, rearrange rank xs = front ++ x :: back ∧
    front.length = rank ∧ (front ++ x :: back).Perm xs ∧ (∀ y ∈ front, y ≤ x) ∧ ∀ z ∈ back, x ≤ z

/-- The same neighbors in ascending order. -/
def IsSort (sort : List Neighbor → List Neighbor) : Prop :=
  ∀ xs, (sort xs).Perm xs ∧ (sort xs).Pairwise (· ≤ ·)

theorem sort_take (xs : List Neighbor) (k : ℕ) : (sort xs).take k = smallest k xs := rfl

theorem isSort_sort : IsSort sort :=
  fun xs => ⟨List.mergeSort_perm xs _, List.sortedLE_mergeSort.pairwise⟩

/-- Sorting leaves one arrangement only. -/
theorem IsSort.eq_sort {sort' : List Neighbor → List Neighbor} (h : IsSort sort')
    (xs : List Neighbor) : sort' xs = sort xs :=
  List.Perm.eq_of_pairwise' (h xs).2 (isSort_sort xs).2 ((h xs).1.trans (isSort_sort xs).1.symm)

/-- The first neighbors of a partition, sorted, are the smallest ones. -/
theorem sort_take_rearrange {rearrange : ℕ → List Neighbor → List Neighbor}
    (hrearrange : IsPartition rearrange) {sort' : List Neighbor → List Neighbor}
    (hsort : IsSort sort') {xs : List Neighbor} {rank : ℕ} (hrank : rank < xs.length) :
    sort' ((rearrange rank xs).take (rank + 1)) = (sort xs).take (rank + 1) := by
  obtain ⟨front, x, back, heq, hlength, hperm, hfront, hback⟩ := hrearrange rank xs hrank
  have htake : (rearrange rank xs).take (rank + 1) = front ++ [x] := by
    rw [heq, List.append_cons, List.take_left']
    rw [List.length_append, hlength, List.length_singleton]
  obtain ⟨hfound, hsorted⟩ := hsort (front ++ [x])
  have hcount : (sort' (front ++ [x])).length = rank + 1 := by
    rw [hfound.length_eq, List.length_append, hlength, List.length_singleton]
  have hall : (sort' (front ++ [x]) ++ back).Perm xs := by
    refine (hfound.append_right back).trans ?_
    rwa [← List.append_cons]
  have hle : ∀ y ∈ sort' (front ++ [x]), ∀ z ∈ back, y ≤ z := by
    intro y hy z hz
    rcases List.mem_append.1 (hfound.mem_iff.1 hy) with hy | hy
    · exact (hfront y hy).trans (hback z hz)
    · exact List.mem_singleton.1 hy ▸ hback z hz
  rw [htake, sort_take, ← hcount, eq_smallest hsorted hall hle]

/-! ## The rearrangement that is taken -/

theorem below_append_notBelow_perm (pivot : Neighbor) (xs : List Neighbor) :
    (below pivot xs ++ notBelow pivot xs).Perm xs :=
  List.filter_append_perm _ xs

theorem lt_of_mem_below {pivot y : Neighbor} {xs : List Neighbor} (h : y ∈ below pivot xs) :
    y < pivot :=
  of_decide_eq_true (List.mem_filter.1 h).2

theorem le_of_mem_notBelow {pivot z : Neighbor} {xs : List Neighbor}
    (h : z ∈ notBelow pivot xs) : pivot ≤ z := by
  have hnot := (List.mem_filter.1 h).2
  rw [Bool.not_eq_true', decide_eq_false_iff_not] at hnot
  exact not_lt.1 hnot

/-- What a list is parted into, around its pivot. -/
theorem below_append_pivot_perm {xs : List Neighbor} (h : xs ≠ []) :
    (below (pivot xs h) (xs.erase (pivot xs h)) ++
      pivot xs h :: notBelow (pivot xs h) (xs.erase (pivot xs h))).Perm xs := by
  refine List.perm_middle.trans ?_
  refine ((below_append_notBelow_perm _ _).cons _).trans ?_
  exact (List.perm_cons_erase (pivot_mem xs h)).symm

theorem partAt_perm (rank : ℕ) (xs : List Neighbor) : (partAt rank xs).Perm xs := by
  fun_induction partAt rank xs with
  | case1 rank xs h middle smaller greater hrank ih =>
    exact (ih.append_right _).trans (below_append_pivot_perm h)
  | case2 rank xs h middle smaller greater hrank ih =>
    exact ((ih.cons _).append_left _).trans (below_append_pivot_perm h)
  | case3 rank xs h =>
    rw [not_not.1 h]

/-- The neighbor at the place of the rank exceeds none after it and is exceeded by none
    before it: it is the pivot, or else the part that the rank falls into has it. -/
theorem exists_partAt_eq {rank : ℕ} {xs : List Neighbor} (hrank : rank < xs.length) :
    ∃ front x back, partAt rank xs = front ++ x :: back ∧ front.length = rank ∧
      (∀ y ∈ front, y ≤ x) ∧ ∀ z ∈ back, x ≤ z := by
  fun_induction partAt rank xs with
  | case1 rank xs h middle smaller greater hsmaller ih =>
    obtain ⟨front, x, back, heq, hlength, hfront, hback⟩ := ih hsmaller
    refine ⟨front, x, back ++ middle :: greater, ?_, hlength, hfront, ?_⟩
    · rw [heq, List.append_assoc, List.cons_append]
    · have hx : x ≤ middle := by
        have hmem : x ∈ partAt rank smaller := heq ▸ List.mem_append_right _ List.mem_cons_self
        exact (lt_of_mem_below ((partAt_perm rank smaller).mem_iff.1 hmem)).le
      intro z hz
      rcases List.mem_append.1 hz with hz | hz
      · exact hback z hz
      · rcases List.mem_cons.1 hz with rfl | hz
        · exact hx
        · exact hx.trans (le_of_mem_notBelow hz)
  | case2 rank xs h middle smaller greater hsmaller ih =>
    rcases Nat.eq_or_lt_of_not_lt hsmaller with heq | hlt
    · refine ⟨smaller, middle, _, rfl, heq.symm, fun y hy => (lt_of_mem_below hy).le, ?_⟩
      intro z hz
      exact le_of_mem_notBelow ((partAt_perm _ greater).mem_iff.1 hz)
    · have hlength : smaller.length + (greater.length + 1) = xs.length := by
        rw [← (below_append_pivot_perm h).length_eq, List.length_append, List.length_cons]
      obtain ⟨front, x, back, heq, hfound, hfront, hback⟩ := ih (by omega)
      have hx : middle ≤ x := by
        have hmem : x ∈ partAt (rank - smaller.length - 1) greater :=
          heq ▸ List.mem_append_right _ List.mem_cons_self
        exact le_of_mem_notBelow ((partAt_perm _ greater).mem_iff.1 hmem)
      refine ⟨smaller ++ middle :: front, x, back, ?_, ?_, ?_, hback⟩
      · rw [heq, List.append_assoc, List.cons_append]
      · rw [List.length_append, List.length_cons, hfound]
        omega
      · intro y hy
        rcases List.mem_append.1 hy with hy | hy
        · exact (lt_of_mem_below hy).le.trans hx
        · rcases List.mem_cons.1 hy with rfl | hy
          · exact hx
          · exact hfront y hy
  | case3 rank xs h =>
    rw [not_not.1 h] at hrank
    exact absurd hrank (Nat.not_lt_zero _)

theorem isPartition_partAt : IsPartition partAt := by
  intro rank xs hrank
  obtain ⟨front, x, back, heq, hlength, hfront, hback⟩ := exists_partAt_eq hrank
  exact ⟨front, x, back, heq, hlength, heq ▸ partAt_perm rank xs, hfront, hback⟩

end Neighbor

namespace Scan

open Neighbor (IsPartition IsSort)

variable {query codes : Code} {k n : ℕ} {e : ScanError}
  {rearrange : (rank : ℕ) → List Neighbor → List Neighbor} {sort : List Neighbor → List Neighbor}

/-! ## The neighbors of a buffer -/

/-- The first thing that is wrong with a search for `k` neighbors. -/
inductive NearestRefused (query codes : Code) (k : ℕ) : ScanError → Prop
  | shape {e : ScanError} : Misshapen query codes e → NearestRefused query codes k e
  | notEnoughCodes {n : ℕ} : Consists query codes n → n < k →
    NearestRefused query codes k (.notEnoughCodes k n)

/-- The code at a place of the buffer, as a neighbor of the query. -/
def neighborAt (query codes : Code) (i : ℕ) : Neighbor := ⟨scoreAt .bitwise query codes i, i⟩

theorem Consists.fits_bitwise (h : Consists query codes n) : Fits .bitwise query codes n :=
  ⟨h, nofun⟩

theorem allDistances_eq_ok (h : Consists query codes n) (hsmall : 8 * query.length < 2 ^ 32)
    (order : TaskOrder) :
    allDistances .bitwise query codes n order = .ok (scores .bitwise query codes n) := by
  rw [allDistances, run_distances_of_fits h.fits_bitwise hsmall order Array.size_replicate]

/-- Numbered by their positions, distances become neighbors. -/
theorem zipIdx_map_range (distance : ℕ → UInt32) (n : ℕ) :
    (((List.range n).map distance).zipIdx.map fun (distance, id) => (⟨distance, id⟩ : Neighbor)) =
      (List.range n).map fun i => ⟨distance i, i⟩ := by
  apply List.ext_getElem?
  intro i
  rcases Nat.lt_or_ge i n with hi | hi
  · simp [hi]
  · simp [hi]

/-- Whatever counts are written, the first of all neighbors in ascending order are found. -/
theorem nearestBy_of_distances (hrearrange : IsPartition rearrange) (hsort : IsSort sort)
    (h : Consists query codes n) (hkn : k ≤ n) {order : TaskOrder} {distance : ℕ → UInt32}
    (hdistances : allDistances .bitwise query codes n order =
      .ok ((List.range n).map distance).toArray) :
    nearestBy rearrange sort query codes k order =
      .ok ((Neighbor.sort ((List.range n).map fun i => ⟨distance i, i⟩)).take k) := by
  have hlength : ((List.range n).map fun i => (⟨distance i, i⟩ : Neighbor)).length = n := by simp
  rw [nearestBy, countCodes_of_consists h]
  simp only [bind, Except.bind, if_neg (Nat.not_lt.2 hkn), pure, Except.pure]
  by_cases hk : k = 0
  · rw [if_pos hk, hk, List.take_zero]
  · rw [if_neg hk, hdistances]
    simp only [zipIdx_map_range, hlength]
    by_cases hfewer : k < n
    · obtain ⟨rank, rfl⟩ := Nat.exists_eq_succ_of_ne_zero hk
      rw [if_pos hfewer, Nat.succ_sub_one, Neighbor.sort_take_rearrange hrearrange hsort
        (hlength.symm ▸ Nat.lt_of_succ_lt hfewer)]
    · -- All neighbors are asked for.
      rw [if_neg hfewer, hsort.eq_sort, List.take_of_length_le]
      rw [(Neighbor.isSort_sort _).1.length_eq, hlength]
      exact Nat.not_lt.1 hfewer

/-- The nearest codes are the first of all neighbors in ascending order. -/
theorem nearestBy_eq_ok (hrearrange : IsPartition rearrange) (hsort : IsSort sort)
    (h : Consists query codes n) (hkn : k ≤ n) (hsmall : 8 * query.length < 2 ^ 32)
    (order : TaskOrder) :
    nearestBy rearrange sort query codes k order =
      .ok ((Neighbor.sort ((List.range n).map (neighborAt query codes))).take k) :=
  nearestBy_of_distances hrearrange hsort h hkn (allDistances_eq_ok h hsmall order)

theorem nearestBy_of_refused (h : NearestRefused query codes k e) (order : TaskOrder) :
    nearestBy rearrange sort query codes k order = .error e := by
  rw [nearestBy]
  cases h with
  | shape hshape =>
    rw [countCodes_of_misshapen hshape]
    rfl
  | notEnoughCodes hn hk =>
    rw [countCodes_of_consists hn]
    simp only [bind, Except.bind, if_pos hk, throw, throwThe, MonadExceptOf.throw]

/-- The order in which the codes are scored makes no difference. -/
theorem nearestBy_order (query codes : Code) (k : ℕ) (order order' : TaskOrder) :
    nearestBy rearrange sort query codes k order =
      nearestBy rearrange sort query codes k order' := by
  have hall (n : ℕ) : allDistances .bitwise query codes n order =
      allDistances .bitwise query codes n order' := by
    rw [allDistances, allDistances, run_distances_order _ _ _ order order']
  simp only [nearestBy, hall]

/-- A search is refused, or there are as many codes as it asks for. -/
theorem consists_or_nearestRefused (query codes : Code) (k : ℕ) :
    (∃ n, Consists query codes n ∧ k ≤ n) ∨ ∃ e, NearestRefused query codes k e := by
  rcases consists_or_misshapen query codes with ⟨n, hn⟩ | ⟨e, he⟩
  · rcases Nat.lt_or_ge n k with hlt | hle
    · exact .inr ⟨_, .notEnoughCodes hn hlt⟩
    · exact .inl ⟨n, hn, hle⟩
  · exact .inr ⟨e, .shape he⟩

/-- Whatever partition and sort are used, and in whatever order the codes are scored, the
    `k` nearest codes are the first `k` of all neighbors in ascending order. They are found
    exactly if the buffer consists of codes of the length of the query, `k` of them or more;
    else the search tells the first thing that is wrong. -/
theorem nearestBy_eq_take_sort (query codes : Code) (k : ℕ) (order : TaskOrder)
    (hsmall : 8 * query.length < 2 ^ 32) (hrearrange : IsPartition rearrange)
    (hsort : IsSort sort) :
    (∀ n, Consists query codes n → k ≤ n →
      nearestBy rearrange sort query codes k order =
        .ok ((Neighbor.sort ((List.range n).map (neighborAt query codes))).take k) ∧
      ∀ i < n, (neighborAt query codes i).id = i ∧
        Code.bitDistance query (codeAt query.length codes i) =
          .ok (neighborAt query codes i).distance ∧
        (neighborAt query codes i).distance.toNat =
          Code.differingBits query (codeAt query.length codes i)) ∧
    ((∃ found, nearestBy rearrange sort query codes k order = .ok found) ↔
      ∃ n, Consists query codes n ∧ k ≤ n) ∧
    ∀ e, nearestBy rearrange sort query codes k order = .error e ↔
      NearestRefused query codes k e := by
  refine ⟨fun n hn hkn => ⟨nearestBy_eq_ok hrearrange hsort hn hkn hsmall order, fun i hi => ?_⟩,
    ⟨?_, ?_⟩, fun e => ⟨?_, fun hrefused => nearestBy_of_refused hrefused order⟩⟩
  · obtain ⟨c, -, hscores⟩ := Computer.exists_forDistance_scores hn.fits_bitwise.whole_words hsmall
    exact ⟨rfl, (hn.distance_codeAt hscores hi).2.2⟩
  · rintro ⟨found, hfound⟩
    rcases consists_or_nearestRefused query codes k with hn | ⟨e, hrefused⟩
    · exact hn
    · rw [nearestBy_of_refused hrefused] at hfound
      cases hfound
  · rintro ⟨n, hn, hkn⟩
    exact ⟨_, nearestBy_eq_ok hrearrange hsort hn hkn hsmall order⟩
  · intro herror
    rcases consists_or_nearestRefused query codes k with ⟨n, hn, hkn⟩ | ⟨e', hrefused⟩
    · rw [nearestBy_eq_ok hrearrange hsort hn hkn hsmall order] at herror
      cases herror
    · rw [nearestBy_of_refused hrefused] at herror
      cases herror
      exact hrefused

/-- Six codes of one byte, with distances 3, 1, 8, 1, 0 and 3 to the query: the four nearest
    ones, of which the last has a double that is left out. -/
theorem nearest_sixCodes :
    8 * ([0x00] : Code).length < 2 ^ 32 ∧ IsPartition Neighbor.partAt ∧ IsSort Neighbor.sort ∧
      nearest [0x00] [0x07, 0x40, 0xff, 0x02, 0x00, 0xa8] 4 .backwards =
        .ok [⟨0, 4⟩, ⟨1, 1⟩, ⟨1, 3⟩, ⟨3, 0⟩] ∧
      nearest [0x00] [0x07, 0x40, 0xff, 0x02, 0x00, 0xa8] 7 .forwards =
        .error (.notEnoughCodes 7 6) := by
  have hsmall : 8 * ([0x00] : Code).length < 2 ^ 32 := by decide
  have hsix : Consists [0x00] [0x07, 0x40, 0xff, 0x02, 0x00, 0xa8] 6 := ⟨by decide, rfl⟩
  -- The two codes that are not found are the other one at distance 3 and the one at distance 8.
  have hperm : (([⟨0, 4⟩, ⟨1, 1⟩, ⟨1, 3⟩, ⟨3, 0⟩] : List Neighbor) ++
      ([⟨3, 5⟩, ⟨8, 2⟩] : List Neighbor)).Perm ((List.range 6).map
        (neighborAt [0x00] [0x07, 0x40, 0xff, 0x02, 0x00, 0xa8])) := by decide
  have hsorted := eq_smallest (by decide) hperm (by decide)
  refine ⟨hsmall, Neighbor.isPartition_partAt, Neighbor.isSort_sort, ?_, ?_⟩
  · refine Eq.trans ?_ (congrArg Except.ok hsorted)
    exact ((nearestBy_eq_take_sort _ _ 4 .backwards hsmall Neighbor.isPartition_partAt
      Neighbor.isSort_sort).1 6 hsix (by decide)).1
  · exact ((nearestBy_eq_take_sort _ _ 7 .forwards hsmall Neighbor.isPartition_partAt
      Neighbor.isSort_sort).2.2 _).2 (.notEnoughCodes hsix (by decide))

end Scan

end NeighborSearch
