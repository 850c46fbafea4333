import Mathlib.Data.List.Basic
import NeighborSearch.Proofs.Chunk
import NeighborSearch.Proofs.Outcome
import NeighborSearch.Selection.Buffer

/-!
# What lies where in a buffer

The entries that a buffer has from some place on (`Buffer.Holds`) are read back as
they were written, and stay as they are when others are written beside them. The runs
of a `RunBuffer` lie at equal distances, each shorter than the distance, so to write
one of them leaves the others.
-/

namespace NeighborSearch

theorem guard_bind {α : Type} {p : Prop} [Decidable p] (hp : p) (f : Unit → Option α) :
    (guard p : Option Unit).bind f = f () := by
  rw [guard, if_pos hp]
  rfl

namespace Buffer

variable {α : Type} {xs : Array α} {start : ℕ} {ys zs : List α}

/-- From `start` on, the buffer holds `ys`. -/
def Holds (xs : Array α) (start : ℕ) (ys : List α) : Prop :=
  ∀ i (_ : i < ys.length), xs[start + i]? = some ys[i]

theorem mul_eq_ok_iff {a b c : ℕ} : mul a b = .ok c ↔ a * b < Size.limit ∧ a * b = c := by
  rw [mul, ← Size.mul?_eq_some_iff]
  split
  case h_1 d hd => simp [hd]
  case h_2 hnone => simp [hnone]

theorem mul_eq_ok {a b : ℕ} (h : a * b < Size.limit) : mul a b = .ok (a * b) :=
  mul_eq_ok_iff.2 ⟨h, rfl⟩

theorem size_piece (xs : Array α) (start width : ℕ) :
    (xs.extract start (start + width)).size = min width (xs.size - start) := by
  rw [Array.size_extract]
  omega

theorem slice_eq_ok_iff {stop : ℕ} {part : Array α} :
    slice xs start stop = .ok part ↔
      (start ≤ stop ∧ stop ≤ xs.size) ∧ xs.extract start stop = part :=
  ite_eq_ok_iff

theorem piece_eq_ok_iff {n i : ℕ} {part : Array α} :
    piece n i xs = .ok part ↔ n * i < xs.size ∧ xs.extract (n * i) (n * i + n) = part :=
  ite_eq_ok_iff

theorem write_eq_ok_iff {written : Array α} :
    write xs start ys = .ok written ↔
      start + ys.length ≤ xs.size ∧ overwrite xs start ys = written :=
  ite_eq_ok_iff

theorem setEntry_eq_ok_iff {i : ℕ} {x : α} {written : Array α} :
    setEntry xs i x = .ok written ↔ ∃ h : i < xs.size, xs.set i x h = written := by
  rw [setEntry]
  split
  case isTrue h => simp [h]
  case isFalse h => simp [h]

theorem slice_eq_ok {stop : ℕ} (h : start ≤ stop) (hstop : stop ≤ xs.size) :
    slice xs start stop = .ok (xs.extract start stop) :=
  if_pos ⟨h, hstop⟩

theorem piece_eq_ok {n i : ℕ} (h : n * i < xs.size) :
    piece n i xs = .ok (xs.extract (n * i) (n * i + n)) :=
  if_pos h

theorem write_eq_ok (h : start + ys.length ≤ xs.size) :
    write xs start ys = .ok (overwrite xs start ys) :=
  if_pos h

theorem setEntry_eq_ok {i : ℕ} {x : α} (h : i < xs.size) : setEntry xs i x = .ok (xs.set i x) :=
  dif_pos h

/-- Only the entries that are written change. -/
theorem getElem?_overwrite (h : start + ys.length ≤ xs.size) (i : ℕ) :
    (overwrite xs start ys)[i]? =
      if start ≤ i ∧ i < start + ys.length then ys[i - start]? else xs[i]? := by
  rw [← Array.getElem?_toList, toList_overwrite h, List.append_assoc]
  have hlen : (xs.toList.take start).length = start := by
    rw [List.length_take, Array.length_toList]
    omega
  by_cases hlow : i < start
  · rw [List.getElem?_append_left (by omega), List.getElem?_take_of_lt hlow, if_neg (by omega),
      Array.getElem?_toList]
  · rw [List.getElem?_append_right (by omega), hlen]
    by_cases hhigh : i < start + ys.length
    · rw [List.getElem?_append_left (by omega), if_pos (by omega)]
    · rw [List.getElem?_append_right (by omega), if_neg (by omega), List.getElem?_drop,
        Array.getElem?_toList]
      congr 1
      omega

theorem holds_overwrite (h : start + ys.length ≤ xs.size) :
    Holds (overwrite xs start ys) start ys := by
  intro i hi
  rw [getElem?_overwrite h, if_pos (by omega), Nat.add_sub_cancel_left, List.getElem?_eq_getElem hi]

/-- What lies elsewhere stays. -/
theorem Holds.overwrite {place : ℕ} (hz : Holds xs place zs) (h : start + ys.length ≤ xs.size)
    (hdisjoint : place + zs.length ≤ start ∨ start + ys.length ≤ place) :
    Holds (overwrite xs start ys) place zs := by
  intro i hi
  rw [getElem?_overwrite h, if_neg (by omega)]
  exact hz i hi

theorem Holds.append_left (h : Holds xs start (ys ++ zs)) : Holds xs start ys := by
  intro i hi
  have := h i (by rw [List.length_append]; omega)
  rwa [List.getElem_append_left hi] at this

theorem Holds.append_right (h : Holds xs start (ys ++ zs)) :
    Holds xs (start + ys.length) zs := by
  intro i hi
  have := h (ys.length + i) (by rw [List.length_append]; omega)
  rw [List.getElem_append_right (by omega)] at this
  simpa [Nat.add_assoc] using this

theorem Holds.le_size (h : Holds xs start ys) (hys : 0 < ys.length) :
    start + ys.length ≤ xs.size := by
  obtain ⟨hi, -⟩ := Array.getElem?_eq_some_iff.1 (h (ys.length - 1) (by omega))
  omega

/-- What is held in a piece of the buffer. -/
theorem Holds.piece {whole place : ℕ} (width : ℕ) (h : Holds xs whole ys)
    (hwhole : whole = start + place) (hwidth : place + ys.length ≤ width) :
    Holds (xs.extract start (start + width)) place ys := by
  intro i hi
  have hread := h i hi
  obtain ⟨hlt, -⟩ := Array.getElem?_eq_some_iff.1 hread
  rw [Array.getElem?_extract, if_pos (by omega), ← Nat.add_assoc, ← hwhole]
  exact hread

/-- What is held is read back. -/
theorem Holds.toList_extract (h : Holds xs start ys) :
    (xs.extract start (start + ys.length)).toList = ys := by
  apply List.ext_getElem?
  intro i
  rw [Array.getElem?_toList, Array.getElem?_extract]
  by_cases hi : i < ys.length
  · have hlt := h.le_size (by omega)
    rw [if_pos (by omega), h i hi, List.getElem?_eq_getElem hi]
  · rw [if_neg (by omega), List.getElem?_eq_none (by omega)]

/-! ### Entries of equal length -/

variable {f : ℕ → List α} {k n : ℕ}

/-- Of entries that lie one after the other, each is found by its number. -/
theorem Holds.flatMap_range (h : Holds xs start ((List.range n).flatMap f))
    (hlen : ∀ q < n, (f q).length = k) : ∀ q < n, Holds xs (start + k * q) (f q) := by
  induction n with
  | zero => exact fun q hq => absurd hq (Nat.not_lt_zero q)
  | succ n ih =>
    rw [List.range_succ, List.flatMap_append, List.flatMap_singleton] at h
    intro q hq
    rcases Nat.lt_succ_iff_lt_or_eq.1 hq with hq | rfl
    · exact ih h.append_left (fun i hi => hlen i (Nat.lt_succ_of_lt hi)) q hq
    · exact length_flatMap_range (fun i hi => hlen i (Nat.lt_succ_of_lt hi)) ▸ h.append_right

/-- The piece of a list that is made of entries of one length. -/
theorem extract_flatMap_range (hlen : ∀ q < n, (f q).length = k) {q : ℕ} (hq : q < n) :
    ((List.range n).flatMap f).toArray.extract (q * k) ((q + 1) * k) = (f q).toArray := by
  have hall : Holds ((List.range n).flatMap f).toArray 0 ((List.range n).flatMap f) := by
    intro i hi
    rw [Nat.zero_add, List.getElem?_toArray, List.getElem?_eq_getElem hi]
  have hread := (hall.flatMap_range hlen q hq).toList_extract
  rw [hlen q hq, Nat.zero_add, Nat.mul_comm k, ← Nat.succ_mul] at hread
  rw [← hread, Array.toArray_toList]

/-- Entries put at the front of a piece leave a piece that begins with them. -/
theorem exists_toList_overwrite_piece {width : ℕ}
    (h : 0 + ys.length ≤ (xs.extract start (start + width)).size) :
    ∃ rest, (ys ++ rest).length = min width (xs.size - start) ∧
      (overwrite (xs.extract start (start + width)) 0 ys).toList = ys ++ rest := by
  have hentries := toList_overwrite h
  rw [List.take_zero, List.nil_append] at hentries
  have hsize := congrArg List.length hentries
  rw [Array.length_toList, size_overwrite] at hsize
  exact ⟨_, hsize.symm.trans (size_piece xs start width), hentries⟩

/-- A buffer with all of the entries in their places is made of them. -/
theorem toList_eq_flatMap_range (hsize : xs.size = n * k)
    (h : ∀ q < n, Holds xs (k * q) (f q)) (hlen : ∀ q < n, (f q).length = k) :
    xs.toList = (List.range n).flatMap f := by
  have hlength : xs.toList.length = k * n := by rw [Array.length_toList, hsize, Nat.mul_comm]
  have hpieces := flatMap_range_take_drop k n xs.toList
  rw [List.take_of_length_le (Nat.le_of_eq hlength)] at hpieces
  rw [← hpieces]
  refine List.flatMap_congr fun q hq => ?_
  have hlt := List.mem_range.1 hq
  have hread := (h q hlt).toList_extract
  rwa [hlen q hlt, Array.toList_extract, List.extract_eq_take_drop,
    Nat.add_sub_cancel_left] at hread

end Buffer

namespace RunBuffer

variable {b : RunBuffer} {width i : ℕ} {run : List Candidate}

/-- Run `i` of the buffer, at the given distance, is `run`. -/
structure Holds (b : RunBuffer) (width i : ℕ) (run : List Candidate) : Prop where
  length : b.lengths[i]? = some run.length
  le_width : run.length ≤ width
  entries : Buffer.Holds b.slots (width * i) run

/-- The runs of the buffer, at the given distance, are `runs`. -/
structure HoldsAll (b : RunBuffer) (width : ℕ) (runs : List (List Candidate)) : Prop where
  size : b.lengths.size = runs.length
  holds : ∀ j (_ : j < runs.length), b.Holds width j runs[j]

/-- To write another run leaves this one. -/
theorem Holds.write (h : b.Holds width i run) {j : ℕ} {ys : List Candidate} {m : ℕ}
    (hne : i ≠ j) (hys : ys.length ≤ width) (hfits : width * j + ys.length ≤ b.slots.size)
    (hj : j < b.lengths.size) :
    Holds ⟨Buffer.overwrite b.slots (width * j) ys, b.lengths.set j m, b.reserved⟩ width i run := by
  refine ⟨?_, h.le_width, ?_⟩
  · rw [Array.getElem?_set_ne hj (Ne.symm hne)]
    exact h.length
  · refine h.entries.overwrite hfits ?_
    have hrun := h.le_width
    rcases Nat.lt_or_gt_of_ne hne with hlt | hgt
    · have := Nat.mul_le_mul_left width hlt
      rw [Nat.mul_succ] at this
      omega
    · have := Nat.mul_le_mul_left width hgt
      rw [Nat.mul_succ] at this
      omega

end RunBuffer

end NeighborSearch
