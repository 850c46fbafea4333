import NeighborSearch.Proofs.Chunk
import NeighborSearch.Proofs.Selection.Memory
import NeighborSearch.Selection.Matrix

/-!
# Rows of a matrix

Every row of a matrix is there (`row?_eq_some`), and has one entry for every column. Rows
that follow each other are found by cutting their entries to pieces.
-/

namespace NeighborSearch.Matrix

variable {α : Type} (m : Matrix α)

/-- The entries of a row. -/
def rowList (q : ℕ) : List α :=
  (m.entries.toList.drop (m.ncols * q)).take m.ncols

variable {m} {q : ℕ}

theorem mul_ncols_le (hq : q < m.nrows) : m.ncols * q + m.ncols ≤ m.entries.size := by
  rw [m.size_entries, ← Nat.mul_succ, Nat.mul_comm]
  exact Nat.mul_le_mul_right _ hq

theorem length_rowList (hq : q < m.nrows) : (m.rowList q).length = m.ncols := by
  have := mul_ncols_le hq
  rw [rowList, List.length_take, List.length_drop, Array.length_toList]
  omega

/-- The place where a row begins is a size. -/
theorem mul?_ncols (hq : q < m.nrows) : Size.mul? q m.ncols = some (m.ncols * q) := by
  have hle := mul_ncols_le hq
  have hlimit := m.size_lt_limit
  rw [← m.size_entries] at hlimit
  exact Size.mul?_eq_some_iff.2 ⟨by rw [Nat.mul_comm]; omega, Nat.mul_comm _ _⟩

/-- So is the place where it ends. -/
theorem add?_ncols (hq : q < m.nrows) :
    Size.add? (m.ncols * q) m.ncols = some (m.ncols * q + m.ncols) := by
  have hle := mul_ncols_le hq
  have hlimit := m.size_lt_limit
  rw [← m.size_entries] at hlimit
  exact Size.add?_eq_some_iff.2 ⟨by omega, rfl⟩

/-- All rows can be had. -/
theorem row?_eq_some (hq : q < m.nrows) :
    m.row? q = some (m.entries.extract (m.ncols * q) (m.ncols * q + m.ncols)) := by
  rw [row?, Option.bind_eq_bind, guard_bind hq, mul?_ncols hq, Option.bind_eq_bind,
    Option.bind_some, add?_ncols hq, Option.bind_some, guard_bind (mul_ncols_le hq)]
  rfl

/-- There are no others. -/
theorem row?_eq_none (hq : m.nrows ≤ q) : m.row? q = none := by
  rw [row?, guard, if_neg hq.not_gt]
  rfl

theorem exists_row?_eq_some (hq : q < m.nrows) :
    ∃ row, m.row? q = some row ∧ row.toList = m.rowList q := by
  refine ⟨_, row?_eq_some hq, ?_⟩
  rw [Array.toList_extract, List.extract_eq_take_drop, Nat.add_sub_cancel_left, rowList]

/-- The rows of a group of `n`. -/
theorem wholeChunks_group (hcols : 0 < m.ncols) (n i : ℕ) :
    wholeChunks m.ncols
      (m.entries.extract (n * m.ncols * i) (n * m.ncols * i + n * m.ncols)).toList =
        (List.range (min n (m.nrows - n * i))).map fun j => m.rowList (n * i + j) := by
  have hcount :
      (m.entries.extract (n * m.ncols * i) (n * m.ncols * i + n * m.ncols)).toList.length /
        m.ncols = min n (m.nrows - n * i) := by
    rw [Array.length_toList, Buffer.size_piece, m.size_entries, Nat.mul_right_comm,
      ← Nat.mul_sub_right_distrib, Nat.mul_min_mul_right, Nat.mul_div_cancel _ hcols]
  rw [wholeChunks_eq_map_range hcols, hcount]
  refine List.map_congr_left fun j hj => ?_
  have hlt := List.mem_range.1 hj
  have hroom : m.ncols ≤ n * m.ncols - m.ncols * j := by
    rw [Nat.mul_comm n, ← Nat.mul_sub_left_distrib]
    exact Nat.le_mul_of_pos_right _ (by omega)
  rw [Array.toList_extract, List.extract_eq_take_drop, Nat.add_sub_cancel_left, List.drop_take,
    List.take_take, Nat.min_eq_left hroom, List.drop_drop, rowList, Nat.mul_add,
    Nat.mul_right_comm, Nat.mul_comm (n * i)]

end NeighborSearch.Matrix
