import Mathlib.Algebra.Order.BigOperators.Group.List
import Mathlib.Algebra.Order.Group.Nat
import Mathlib.Data.Nat.Log
import Mathlib.Logic.Function.Iterate
import NeighborSearch.Proofs.Selection.Merge

/-!
# Levels of a merge tree

The levels of merges are taken one by one here (`Merge.firstLevels`). They end after as many
as it takes to halve the number of runs until one is left (`Merge.levels_eq_firstLevels`).
Each level joins the groups that runs stand for by pairs (`Merge.Mergeable.level`), so
after `d` levels a run stands for `2 ^ d` neighbouring lanes (`iterate_pairUp`), and in
the end for all of them (`Merge.levels_join_lanes`).
-/

namespace NeighborSearch

/-! ## Neighbours joined -/

section

variable {α : Type*} {w : ℕ} {lists : List (List α)}

/-- The elements of `w` neighbouring lists, from list `i * w` on. -/
def neighbours (w : ℕ) (lists : List (List α)) (i : ℕ) : List α :=
  ((lists.drop (i * w)).take w).flatten

/-- The lists, joined by `w` each. -/
def grouped (w : ℕ) (lists : List (List α)) : List (List α) :=
  (List.range (ceilDiv lists.length w)).map (neighbours w lists)

@[simp] theorem length_grouped : (grouped w lists).length = ceilDiv lists.length w := by
  rw [grouped, List.length_map, List.length_range]

theorem getElem?_grouped (hw : 0 < w) (i : ℕ) :
    (grouped w lists)[i]? = if i * w < lists.length then some (neighbours w lists i) else none := by
  rw [grouped, List.getElem?_map]
  split
  case isTrue hi =>
    rw [List.getElem?_range ((lt_ceilDiv_iff hw).2 (Nat.mul_comm w i ▸ hi)), Option.map_some]
  case isFalse hi =>
    rw [List.getElem?_eq_none, Option.map_none]
    rw [List.length_range, ← Nat.not_lt, lt_ceilDiv_iff hw, Nat.mul_comm]
    exact hi

theorem mul_mul_two (i w : ℕ) : i * (w * 2) = 2 * i * w := by
  rw [← Nat.mul_assoc, Nat.mul_comm, Nat.mul_assoc]

theorem neighbours_mul_two (i : ℕ) :
    neighbours (w * 2) lists i = neighbours w lists (2 * i) ++ neighbours w lists (2 * i + 1) := by
  rw [neighbours, mul_mul_two, Nat.mul_two, List.take_add, List.flatten_append, List.drop_drop,
    neighbours, neighbours, Nat.succ_mul (2 * i)]

theorem neighbours_eq_nil {i : ℕ} (hi : lists.length ≤ i * w) : neighbours w lists i = [] := by
  rw [neighbours, List.drop_eq_nil_of_le hi, List.take_nil, List.flatten_nil]

theorem grouped_one : grouped 1 lists = lists := by
  apply List.ext_getElem?
  intro i
  rw [getElem?_grouped Nat.one_pos, Nat.mul_one]
  split
  case isTrue hi =>
    have hone : (lists.drop i).take 1 = [lists[i]] := by
      rw [List.drop_eq_getElem_cons hi, List.take_succ_cons, List.take_zero]
    rw [neighbours, Nat.mul_one, hone, List.flatten_singleton, List.getElem?_eq_getElem hi]
  case isFalse hi => exact (List.getElem?_eq_none (Nat.le_of_not_lt hi)).symm

theorem pairUp_grouped (hw : 0 < w) : pairUp (grouped w lists) = grouped (w * 2) lists := by
  apply List.ext_getElem?
  intro i
  rw [getElem?_pairUp, getElem?_grouped hw, getElem?_grouped hw, getElem?_grouped (by omega),
    neighbours_mul_two, mul_mul_two]
  by_cases hi : 2 * i * w < lists.length
  · by_cases hpartner : (2 * i + 1) * w < lists.length
    · simp [hi, hpartner]
    · simp [hi, hpartner, neighbours_eq_nil (Nat.le_of_not_lt hpartner)]
  · simp [hi]

/-- To join by pairs `d` times is to join by `2 ^ d`. -/
theorem iterate_pairUp (lists : List (List α)) (d : ℕ) :
    pairUp^[d] lists = grouped (2 ^ d) lists := by
  induction d with
  | zero => exact grouped_one.symm
  | succ d ih =>
    rw [Function.iterate_succ_apply', ih, pairUp_grouped (Nat.two_pow_pos d), Nat.pow_succ]

theorem grouped_of_length_le (hsome : lists ≠ []) (hw : lists.length ≤ w) :
    grouped w lists = [lists.flatten] := by
  have hpos := List.length_pos_iff.2 hsome
  have hone : ceilDiv lists.length w = 1 := by
    have hfirst := (lt_ceilDiv_iff (a := lists.length) (hpos.trans_le hw) (i := 0)).2
    have hsecond := (lt_ceilDiv_iff (a := lists.length) (hpos.trans_le hw) (i := 1)).not.2
    omega
  rw [grouped, hone]
  simp [neighbours, List.take_of_length_le hw]

theorem length_neighbours_le {m : ℕ} (hlen : ∀ list ∈ lists, list.length ≤ m) (i : ℕ) :
    (neighbours w lists i).length ≤ (min ((i + 1) * w) lists.length - i * w) * m := by
  have hall : ∀ n ∈ ((lists.drop (i * w)).take w).map List.length, n ≤ m := by
    intro n hn
    obtain ⟨list, hlist, rfl⟩ := List.mem_map.1 hn
    exact hlen list (List.mem_of_mem_drop (List.mem_of_mem_take hlist))
  have hcount : ((lists.drop (i * w)).take w).length = min ((i + 1) * w) lists.length - i * w := by
    rw [List.length_take, List.length_drop, Nat.succ_mul]
    omega
  rw [neighbours, List.length_flatten, ← hcount, ← List.length_map List.length]
  exact List.sum_le_card_nsmul _ m hall

end

namespace Merge

variable {k span d : ℕ} {src dst : RunBuffer} {groups : List (List Candidate)}

/-! ## Level by level -/

theorem clog_ceilDiv {runs : ℕ} (hmany : 1 < runs) :
    Nat.clog 2 runs = Nat.clog 2 (ceilDiv runs 2) + 1 :=
  Nat.clog_of_two_le (by decide) hmany

/-- The first `d` levels. The buffer with the runs that are left, the one that was written
    last, comes first in the answer. -/
def firstLevels (k : ℕ) (order : ℕ → TaskOrder) :
    (d runs depth span : ℕ) → (src dst : RunBuffer) → Except Fault (RunBuffer × RunBuffer)
  | 0, _, _, _, src, dst => .ok (src, dst)
  | d + 1, runs, depth, span, src, dst => do
    let dst ← level k span runs (order depth) src dst
    let width ← Buffer.mul span 2
    firstLevels k order d (ceilDiv runs 2) (depth + 1) width dst src

/-- Two buffers in the places that they had before `d` levels. -/
def inPlaces (d : ℕ) (buffers : RunBuffer × RunBuffer) : RunBuffer × RunBuffer :=
  if d % 2 = 0 then buffers else buffers.swap

theorem inPlaces_succ (d : ℕ) (buffers : RunBuffer × RunBuffer) :
    inPlaces (d + 1) buffers = (inPlaces d buffers).swap := by
  rw [inPlaces, inPlaces]
  rcases Nat.mod_two_eq_zero_or_one d with h | h
  · rw [if_pos h, if_neg (by omega)]
  · rw [if_pos (by omega), if_neg (by omega), Prod.swap_swap]

/-- The levels end when the number of runs has been halved until one is left, whether or
    not anything fails before. -/
theorem levels_eq_firstLevels (k : ℕ) (order : ℕ → TaskOrder) (runs depth span : ℕ)
    (src dst : RunBuffer) :
    levels k order runs depth span src dst =
      (firstLevels k order (Nat.clog 2 runs) runs depth span src dst).map
        fun buffers => (buffers.1, inPlaces (Nat.clog 2 runs) buffers) := by
  induction runs using Nat.strong_induction_on generalizing depth span src dst with
  | h runs ih =>
    rw [levels]
    split
    case isTrue hmany =>
      rw [clog_ceilDiv hmany, firstLevels]
      cases level k span runs (order depth) src dst with
      | error fault => rfl
      | ok t =>
        cases Buffer.mul span 2 with
        | error fault => rfl
        | ok width =>
          simp only [ok_bind, ih _ (ceilDiv_two_lt hmany)]
          cases firstLevels k order (Nat.clog 2 (ceilDiv runs 2)) (ceilDiv runs 2) (depth + 1)
            width t src with
          | error fault => rfl
          | ok buffers => simp only [Except.map, inPlaces_succ]; rfl
    case isFalse hone => rw [Nat.clog_of_right_le_one (by omega)]; rfl

/-- What holds before a level. The runs of `src` are the smallest candidates of the groups,
    every run begins within the slots, and the buffers have room for the runs that they
    hold or are to hold. -/
structure Mergeable (k span slots first second : ℕ) (groups : List (List Candidate))
    (src dst : RunBuffer) : Prop where
  runs : src.HoldsAll span (groups.map (smallest k))
  places : ∀ i < groups.length, span * i < slots
  limit : 2 * slots ≤ Size.limit
  srcFits : src.Fits slots first
  dstFits : dst.Fits slots second
  srcRoom : groups.length ≤ first
  dstRoom : ceilDiv groups.length 2 ≤ second

variable {slots first second : ℕ}

/-- The next level reads what this one has left, and writes over what it has read. -/
theorem Mergeable.level (h : Mergeable k span slots first second groups src dst)
    (hmany : 1 < groups.length) (order : TaskOrder) :
    ∃ t, level k span groups.length order src dst = .ok t ∧
      Buffer.mul span 2 = .ok (span * 2) ∧
      Mergeable k (span * 2) slots second first (pairUp groups) t src := by
  have hspan : 2 * span < Size.limit := by
    have := h.places 1 hmany
    have := h.limit
    omega
  have hpaired : (pairUp groups).length = ceilDiv groups.length 2 := length_pairUp groups
  obtain ⟨t, ht, hfits, hholds⟩ := level_eq_ok h.runs (h.srcFits.slots ▸ h.places) hspan
    (h.srcFits.slots ▸ h.dstFits) h.dstRoom order
  rw [Nat.mul_comm] at hspan hholds
  refine ⟨t, ht, Buffer.mul_eq_ok hspan, ?_⟩
  exact {
    runs := hholds
    places := fun i hi => by
      rw [Nat.mul_assoc]
      exact h.places _ ((lt_ceilDiv_iff (by decide)).1 (hpaired ▸ hi))
    limit := h.limit
    srcFits := h.srcFits.slots ▸ hfits
    dstFits := h.srcFits
    srcRoom := hpaired ▸ h.dstRoom
    dstRoom := by
      rw [hpaired]
      exact (ceilDiv_le_self (by decide) _).trans ((ceilDiv_two_lt hmany).le.trans h.srcRoom) }

/-- What the first levels leave, as long as there are that many. -/
theorem Mergeable.firstLevels_eq_ok (h : Mergeable k span slots first second groups src dst)
    (order : ℕ → TaskOrder) (depth : ℕ) (hd : d ≤ Nat.clog 2 groups.length) :
    ∃ buffers, firstLevels k order d groups.length depth span src dst = .ok buffers ∧
      (inPlaces d buffers).1.Fits slots first ∧ (inPlaces d buffers).2.Fits slots second ∧
      buffers.1.HoldsAll (span * 2 ^ d) ((pairUp^[d] groups).map (smallest k)) := by
  induction d generalizing groups depth span src dst first second with
  | zero => exact ⟨(src, dst), rfl, h.srcFits, h.dstFits, by simpa using h.runs⟩
  | succ d ih =>
    have hmany : 1 < groups.length := (Nat.lt_clog_iff_pow_lt (by decide)).1 (Nat.zero_lt_of_lt hd)
    obtain ⟨t, hlevel, hwidth, hnext⟩ := h.level hmany (order depth)
    rw [clog_ceilDiv hmany, ← length_pairUp] at hd
    obtain ⟨buffers, hrest, hback, hfront, hholds⟩ :=
      ih hnext (depth + 1) (Nat.le_of_succ_le_succ hd)
    refine ⟨buffers, ?_, ?_, ?_, ?_⟩
    · rw [firstLevels, hlevel, ok_bind, hwidth, ok_bind, ← length_pairUp]
      exact hrest
    · rwa [inPlaces_succ]
    · rwa [inPlaces_succ]
    · rwa [Nat.pow_succ', ← Nat.mul_assoc]

/-- Level after level, one run is left, with the smallest candidates of all groups. -/
theorem Mergeable.levels_eq_ok (h : Mergeable k span slots first second groups src dst)
    (hgroups : groups ≠ []) (order : ℕ → TaskOrder) (depth : ℕ) :
    ∃ last front back width, levels k order groups.length depth span src dst =
      .ok (last, front, back) ∧ front.Fits slots first ∧ back.Fits slots second ∧
      last.HoldsAll width [smallest k groups.flatten] := by
  obtain ⟨buffers, hlevels, hfront, hback, hholds⟩ :=
    h.firstLevels_eq_ok order depth (Nat.le_refl _)
  rw [iterate_pairUp, grouped_of_length_le hgroups (Nat.le_pow_clog (by decide) _)] at hholds
  refine ⟨buffers.1, _, _, _, ?_, hfront, hback, hholds⟩
  rw [levels_eq_firstLevels, hlevels]
  rfl

/-! ## Lanes -/

variable {m w : ℕ} {lanes : List (List Candidate)} {b : RunBuffer}

/-- The runs of a buffer when lanes of `m` slots are joined by `w` each. Run `i` has the
    smallest candidates of its lanes, those from `i * w` up to `(i + 1) * w` as far as there
    are lanes, in ascending order. It begins at the first slot of its first lane, and lies
    within the slots of its lanes. -/
structure Joins (k m w : ℕ) (lanes : List (List Candidate)) (b : RunBuffer) : Prop where
  size : b.lengths.size = ceilDiv lanes.length w
  run : ∀ i < ceilDiv lanes.length w, ∃ run : List Candidate,
    run = (Candidate.sort (neighbours w lanes i)).take k ∧
    run.length = min k (neighbours w lanes i).length ∧ run.Pairwise (· ≤ ·) ∧
    run.length ≤ (min ((i + 1) * w) lanes.length - i * w) * m ∧ b.lengths[i]? = some run.length ∧
    ∀ j (_ : j < run.length), b.slots[i * w * m + j]? = some run[j]

theorem joins_of_holdsAll (hlen : ∀ lane ∈ lanes, lane.length ≤ m)
    (h : b.HoldsAll (m * w) ((grouped w lanes).map (smallest k))) : Joins k m w lanes b where
  size := by rw [h.size, List.length_map, length_grouped]
  run i hi := by
    have hplace : m * w * i = i * w * m := by rw [Nat.mul_comm, Nat.mul_comm m, Nat.mul_assoc]
    have hrun : b.Holds (m * w) i (smallest k (neighbours w lanes i)) := by
      simpa [grouped] using h.holds_map (i := i) (by rwa [length_grouped])
    refine ⟨_, rfl, length_smallest, pairwise_smallest, ?_, hrun.length, ?_⟩
    · refine le_trans ?_ (length_neighbours_le hlen i)
      rw [Candidate.sort_take, length_smallest]
      exact Nat.min_le_right _ _
    · rw [← hplace]
      exact hrun.entries

/-- Ascending runs that are no longer than `k` are their own smallest candidates. -/
theorem holdsAll_lanes (hmk : m ≤ k) (hasc : ∀ lane ∈ lanes, lane.Pairwise (· ≤ ·))
    (hlen : ∀ lane ∈ lanes, lane.length ≤ m) (hlengths : b.lengths.toList = lanes.map List.length)
    (hslots : ∀ i (_ : i < lanes.length) j (_ : j < lanes[i].length),
      b.slots[i * m + j]? = some lanes[i][j]) :
    b.HoldsAll m (lanes.map (smallest k)) := by
  have hself : lanes.map (smallest k) = lanes := by
    refine (List.map_congr_left ?_).trans (List.map_id _)
    intro lane hlane
    exact smallest_of_pairwise (hasc lane hlane) ((hlen lane hlane).trans hmk)
  rw [hself]
  refine ⟨?_, ?_⟩
  · simpa using congrArg List.length hlengths
  · intro i hi
    refine ⟨?_, hlen _ (List.getElem_mem hi), ?_⟩
    · rw [← Array.getElem?_toList, hlengths, List.getElem?_map, List.getElem?_eq_getElem hi,
        Option.map_some]
    · rw [Nat.mul_comm]
      exact hslots i hi

/-- The runs of `L` lanes are merged in as many levels as the binary logarithm of `L`,
    rounded up: there is more than one run before each of them, and one after the last.
    After `d` levels, the buffer that was written last has a run for every `2 ^ d`
    neighbouring lanes, and in the end one with the `k` smallest candidates of all lanes. -/
theorem levels_join_lanes (k m : ℕ) (order : ℕ → TaskOrder) (lanes : List (List Candidate))
    (front back : RunBuffer) (hm : 1 ≤ m) (hmk : m ≤ k) (hsome : 1 ≤ lanes.length)
    (hmemory : Size.FitsMemory (lanes.length * m) 8)
    (hasc : ∀ lane ∈ lanes, lane.Pairwise (· ≤ ·)) (hlen : ∀ lane ∈ lanes, lane.length ≤ m)
    (hfront : front.Fits (lanes.length * m) lanes.length)
    (hback : back.Fits (lanes.length * m) (ceilDiv lanes.length 2))
    (hlengths : front.lengths.toList = lanes.map List.length)
    (hslots : ∀ i (_ : i < lanes.length) j (_ : j < lanes[i].length),
      front.slots[i * m + j]? = some lanes[i][j]) :
    (∀ d, 1 < ceilDiv lanes.length (2 ^ d) ↔ d < Nat.clog 2 lanes.length) ∧
    (∀ d ≤ Nat.clog 2 lanes.length, ∃ written other,
      firstLevels k order d lanes.length 0 m front back = .ok (written, other) ∧
        Joins k m (2 ^ d) lanes written) ∧
    ∃ last other,
      firstLevels k order (Nat.clog 2 lanes.length) lanes.length 0 m front back =
        .ok (last, other) ∧
      levels k order lanes.length 0 m front back =
        .ok (last, inPlaces (Nat.clog 2 lanes.length) (last, other)) ∧
      last.lengths = #[min k lanes.flatten.length] ∧
      last.slots.toList.take (min k lanes.flatten.length) =
        (Candidate.sort lanes.flatten).take k ∧
      (k ≤ lanes.flatten.length →
        selected k last = .ok ((Candidate.sort lanes.flatten).take k)) := by
  have hholds := holdsAll_lanes hmk hasc hlen hlengths hslots
  have hplaces : ∀ i < lanes.length, m * i < lanes.length * m := by
    intro i hi
    rw [Nat.mul_comm lanes.length]
    exact Nat.mul_lt_mul_of_pos_left hi hm
  have hlimit : 2 * (lanes.length * m) ≤ Size.limit := by
    rw [Size.FitsMemory, Size.memoryLimit] at hmemory
    rw [Size.limit]
    omega
  have hready : Mergeable k m (lanes.length * m) lanes.length (ceilDiv lanes.length 2) lanes
      front back :=
    ⟨hholds, hplaces, hlimit, hfront, hback, Nat.le_refl _, Nat.le_refl _⟩
  have hfirst : ∀ d ≤ Nat.clog 2 lanes.length, ∃ written other,
      firstLevels k order d lanes.length 0 m front back = .ok (written, other) ∧
        written.HoldsAll (m * 2 ^ d) ((grouped (2 ^ d) lanes).map (smallest k)) := by
    intro d hd
    obtain ⟨⟨written, other⟩, hlevels, -, -, hwritten⟩ := hready.firstLevels_eq_ok order 0 hd
    exact ⟨written, other, hlevels, iterate_pairUp lanes d ▸ hwritten⟩
  refine ⟨?_, ?_, ?_⟩
  · intro d
    rw [lt_ceilDiv_iff (Nat.two_pow_pos d), Nat.mul_one, Nat.lt_clog_iff_pow_lt (by decide)]
  · intro d hd
    obtain ⟨written, other, hlevels, hwritten⟩ := hfirst d hd
    exact ⟨written, other, hlevels, joins_of_holdsAll hlen hwritten⟩
  · obtain ⟨last, other, hlevels, hlast⟩ := hfirst _ (Nat.le_refl _)
    rw [grouped_of_length_le (List.length_pos_iff.1 hsome) (Nat.le_pow_clog (by decide) _)] at hlast
    refine ⟨last, other, hlevels, ?_, ?_, ?_, ?_⟩
    · rw [levels_eq_firstLevels, hlevels]
      rfl
    · rw [hlast.lengths_eq, length_smallest]
    · rw [← length_smallest]
      exact hlast.take_slots
    · intro hk
      exact selected_eq_ok hlast (length_smallest.trans (Nat.min_eq_left hk))

/-- Three lanes of two slots each, the second one with a slot that is not in use. -/
def threeLanes : List (List Candidate) :=
  [[.of ⟨0x3f800000⟩ 0, .of ⟨0x40400000⟩ 1], [.of ⟨0x40000000⟩ 2],
    [.of ⟨0xbf800000⟩ 4, .of ⟨0x7fc00001⟩ 5]]

def threeRuns : RunBuffer where
  slots := #[.of ⟨0x3f800000⟩ 0, .of ⟨0x40400000⟩ 1, .of ⟨0x40000000⟩ 2, .blank,
    .of ⟨0xbf800000⟩ 4, .of ⟨0x7fc00001⟩ 5]
  lengths := #[2, 1, 2]
  reserved := 3

theorem levels_join_threeLanes :
    ∃ last other,
      levels 2 (fun _ => .forwards) 3 0 2 threeRuns ⟨Array.replicate 6 .blank, #[], 2⟩ =
        .ok (last, inPlaces 2 (last, other)) ∧
      last.lengths = #[2] ∧
      last.slots.toList.take 2 = [.of ⟨0xbf800000⟩ 4, .of ⟨0x3f800000⟩ 0] := by
  obtain ⟨-, -, last, other, -, hlevels, hlengths, hslots, -⟩ := levels_join_lanes 2 2
    (fun _ => .forwards) threeLanes threeRuns ⟨Array.replicate 6 .blank, #[], 2⟩ (by decide)
    (by decide) (by decide) (by decide) (by decide) (by decide) ⟨rfl, rfl⟩ ⟨rfl, rfl⟩ rfl
    (by decide)
  have hperm : ([Candidate.of ⟨0xbf800000⟩ 4, Candidate.of ⟨0x3f800000⟩ 0] ++
      [Candidate.of ⟨0x40400000⟩ 1, Candidate.of ⟨0x40000000⟩ 2,
        Candidate.of ⟨0x7fc00001⟩ 5]).Perm threeLanes.flatten := by decide
  exact ⟨last, other, hlevels, hlengths, hslots.trans (eq_smallest (by decide) hperm (by decide))⟩

end Merge

end NeighborSearch
