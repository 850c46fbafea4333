import Mathlib.Data.Prod.Lex
import NeighborSearch.Proofs.Selection.Merge

/-!
# Merges are stable

What a merge writes is the beginning of the ascending arrangement of both runs, as much of it
as there is room for (`mergeInto_cuts_stable_merge`). Equal candidates cannot be told apart
afterwards, so where they come from is put on record: a merge of candidates with their positions
makes the same comparisons (`map_fst_mergeRecorded`), and takes equal candidates in the order of
their positions (`map_toLex_mergeRecorded`), those of the first run before those of the second.
-/

namespace NeighborSearch

/-! ## Merges on record -/

section

variable {α β : Type*} {before : α → α → Prop} [DecidableRel before] {before' : β → β → Prop}
  [DecidableRel before'] {f : α → β}

/-- To merge by what is compared of the elements is to merge that. -/
theorem map_mergeBy (h : ∀ x y, before x y ↔ before' (f x) (f y)) (room : ℕ) (a b : List α) :
    (mergeBy before room a b).map f = mergeBy before' room (a.map f) (b.map f) := by
  fun_induction mergeBy before room a b with
  | case1 a b => rw [mergeBy, List.map_nil]
  | case2 room hroom =>
    rw [List.map_nil, mergeBy]
    exact hroom
  | case3 room x a ih => simp only [List.map_cons, List.map_nil, mergeBy, ih]
  | case4 room y b ih => simp only [List.map_cons, List.map_nil, mergeBy, ih]
  | case5 room x a y b hbefore ih =>
    simp only [List.map_cons, mergeBy, if_pos ((h y x).1 hbefore), ih]
  | case6 room x a y b hnot ih =>
    simp only [List.map_cons, mergeBy, if_neg ((h y x).not.1 hnot), ih]

/-- Positions in an ascending list ascend with it. -/
theorem pairwise_map_toLex_zipIdx [LinearOrder α] {a : List α} (ha : a.Pairwise (· ≤ ·)) (i : ℕ) :
    ((a.zipIdx i).map toLex).Pairwise (· ≤ ·) := by
  induction a generalizing i with
  | nil => exact .nil
  | cons x a ih =>
    rw [List.pairwise_cons] at ha
    rw [List.zipIdx_cons, List.map_cons, List.pairwise_cons]
    refine ⟨fun z hz => ?_, ih ha.2 (i + 1)⟩
    obtain ⟨⟨y, j⟩, hy, rfl⟩ := List.mem_map.1 hz
    obtain ⟨hj, -, hget⟩ := List.mem_zipIdx hy
    rw [Prod.Lex.toLex_le_toLex]
    rcases (ha.1 y (hget ▸ List.getElem_mem _)).lt_or_eq with h | h
    · exact .inl h
    · exact .inr ⟨h, Nat.le_of_succ_le hj⟩

end

/-- The merge of two runs on record: the candidates that are taken, each with its position among
    those of the first run followed by those of the second. -/
def mergeRecorded (room : ℕ) (a b : List Candidate) : List (Candidate × ℕ) :=
  mergeBy (fun y x => y.1 < x.1) room a.zipIdx (b.zipIdx a.length)

/-- Apart from the record, the same candidates are taken in the same order. -/
theorem map_fst_mergeRecorded (room : ℕ) (a b : List Candidate) :
    (mergeRecorded room a b).map Prod.fst = mergeUpTo room a b := by
  have hmap : (mergeRecorded room a b).map Prod.fst = mergeBy (· < ·) room
      (a.zipIdx.map Prod.fst) ((b.zipIdx a.length).map Prod.fst) := by
    apply map_mergeBy (f := Prod.fst)
    exact fun _ _ => Iff.rfl
  rw [hmap, List.zipIdx_map_fst, List.zipIdx_map_fst, mergeUpTo_eq_mergeBy]

/-- Candidates are taken in ascending order, and equal ones in the order of their positions. -/
theorem map_toLex_mergeRecorded (room : ℕ) {a b : List Candidate} (ha : a.Pairwise (· ≤ ·))
    (hb : b.Pairwise (· ≤ ·)) :
    (mergeRecorded room a b).map toLex = smallest room ((a ++ b).zipIdx.map toLex) := by
  have hmap : (mergeRecorded room a b).map toLex = mergeBy (fun y x => (ofLex y).1 < (ofLex x).1)
      room (a.zipIdx.map toLex) ((b.zipIdx a.length).map toLex) :=
    map_mergeBy (fun _ _ => Iff.rfl) room _ _
  rw [hmap, List.zipIdx_append, List.map_append, Nat.zero_add]
  refine mergeBy_eq_smallest room (pairwise_map_toLex_zipIdx ha 0)
    (pairwise_map_toLex_zipIdx hb a.length) fun u hu v hv => ?_
  obtain ⟨⟨x, i⟩, hx, rfl⟩ := List.mem_map.1 hu
  obtain ⟨⟨y, j⟩, hy, rfl⟩ := List.mem_map.1 hv
  obtain ⟨-, hi, -⟩ := List.mem_zipIdx hx
  obtain ⟨hj, -, -⟩ := List.mem_zipIdx hy
  rw [Nat.zero_add] at hi
  rw [Prod.Lex.toLex_le_toLex, Prod.Lex.toLex_le_toLex]
  refine ⟨fun h => .inl h, fun h => ?_⟩
  -- Of equal candidates the one of the first run has the lower position.
  rcases (not_lt.1 h).lt_or_eq with h | h
  · exact .inl h
  · exact .inr ⟨h, hi.le.trans hj⟩

/-! ## What is written -/

theorem mergeUpTo_eq_take_merge (room : ℕ) (a b : List Candidate) :
    mergeUpTo room a b = (a.merge b fun x y => decide (x ≤ y)).take room := by
  fun_induction mergeUpTo room a b with
  | case1 a b => rw [List.take_zero]
  | case2 room => rw [List.nil_merge, List.take_nil]
  | case3 room x a ih => rw [ih, List.merge_right, List.merge_right, List.take_succ_cons]
  | case4 room y b ih => rw [ih, List.nil_merge, List.nil_merge, List.take_succ_cons]
  | case5 room x a y b hlt ih =>
    rw [ih, List.cons_merge_cons_neg _ _ _ (by simpa using hlt), List.take_succ_cons]
  | case6 room x a y b hnot ih =>
    rw [ih, List.cons_merge_cons_pos _ _ _ (by simpa using hnot), List.take_succ_cons]

/-- A merge of ascending runs ends where both runs are used up, or `out` is full, and writes so
    many candidates before what `out` holds there. They are the first ones of the ascending
    merge of both runs. So they ascend, and with what is left of both runs, none of which is
    smaller, they are the candidates of both runs, each as often as it is there. Put on record,
    they are the first ones of all candidates in the order of the candidates and then of their
    positions in `a ++ b`: of equal ones, those of the first run come first. -/
theorem mergeInto_cuts_stable_merge {a b : List Candidate} (ha : a.Pairwise (· ≤ ·))
    (hb : b.Pairwise (· ≤ ·)) (out : List Candidate) :
    ∃ written left : List Candidate,
      mergeInto a b out = (written ++ out.drop written.length, written.length) ∧
      written.length = min (a.length + b.length) out.length ∧
      written = (a.merge b fun x y => decide (x ≤ y)).take out.length ∧
      written.Pairwise (· ≤ ·) ∧
      (written ++ left).Perm (a ++ b) ∧ (∀ x ∈ written, ∀ y ∈ left, x ≤ y) ∧
      (mergeRecorded out.length a b).map Prod.fst = written ∧
      (mergeRecorded out.length a b).map toLex =
        smallest out.length ((a ++ b).zipIdx.map toLex) := by
  have hsmallest := mergeUpTo_eq_smallest out.length ha hb
  obtain ⟨left, hperm, hle⟩ := exists_smallest_append out.length (a ++ b)
  have hlength : (mergeUpTo out.length a b).length = min (a.length + b.length) out.length := by
    rw [hsmallest, length_smallest, List.length_append, Nat.min_comm]
  rw [← hsmallest] at hperm hle
  refine ⟨mergeUpTo out.length a b, left, rfl, hlength, mergeUpTo_eq_take_merge _ a b, ?_, hperm,
    hle, map_fst_mergeRecorded out.length a b, map_toLex_mergeRecorded out.length ha hb⟩
  rw [hsmallest]
  exact pairwise_smallest

/-- Of four candidates there is room for three; the two that are equal come from either run. -/
theorem merge_threeOfFour :
    let one := Candidate.of ⟨0x3F800000⟩ 0
    let two := Candidate.of ⟨0x40000000⟩ 1
    let five := Candidate.of ⟨0x40A00000⟩ 2
    [one, five].Pairwise (· ≤ ·) ∧ [one, two].Pairwise (· ≤ ·) ∧
      mergeInto [one, five] [one, two] [two, two, two] = ([one, one, two], 3) ∧
      (∃ left, ([one, one, two] ++ left).Perm [one, five, one, two] ∧ ∀ y ∈ left, two ≤ y) ∧
      [(one, 0), (one, 2), (two, 3)].map toLex =
        smallest 3 ([(one, 0), (five, 1), (one, 2), (two, 3)].map toLex) := by
  intro one two five
  have ha : [one, five].Pairwise (· ≤ ·) := by decide
  have hb : [one, two].Pairwise (· ≤ ·) := by decide
  have hinto : mergeInto [one, five] [one, two] [two, two, two] = ([one, one, two], 3) := by decide
  have hrecord : mergeRecorded 3 [one, five] [one, two] = [(one, 0), (one, 2), (two, 3)] := by
    decide
  obtain ⟨written, left, -, -, -, -, hperm, hle, hfst, hlex⟩ :=
    mergeInto_cuts_stable_merge ha hb [two, two, two]
  change (mergeRecorded 3 _ _).map _ = _ at hfst
  change (mergeRecorded 3 _ _).map _ = _ at hlex
  rw [hrecord] at hfst hlex
  obtain rfl : [one, one, two] = written := hfst
  exact ⟨ha, hb, hinto, ⟨left, hperm, hle two (by simp)⟩, hlex⟩

end NeighborSearch
