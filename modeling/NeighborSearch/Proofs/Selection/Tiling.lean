import NeighborSearch.Proofs.Selection.Matrix
import NeighborSearch.Selection.TopK

/-!
# Entries tiled by rows

Entries that lie row after row are *tiled* by their rows (`TiledBy`): there is a row for
every number below their count and for no other one, all rows have the same width, and in
order they are the entries. A matrix is tiled by its rows (`Matrix.tiledBy_row?`), and so is
either part of an answer that has the right number of entries (`TopK.Shaped`).
-/

namespace NeighborSearch

/-- The entries are `count` rows of `width` entries each, found by their numbers. -/
structure TiledBy {α : Type} (entries : Array α) (count width : ℕ) (row? : ℕ → Option (Array α)) :
    Prop where
  /-- The rows are numbered from zero on, without a gap. -/
  isSome_iff : ∀ q, (row? q).isSome ↔ q < count
  /-- They all have the same width. -/
  size_eq : ∀ {q row}, row? q = some row → row.size = width
  /-- In order, they are the entries. -/
  flatMap_eq : ((List.range count).filterMap row?).flatMap Array.toList = entries.toList

/-- Pieces that lie one after the other, and reach to the end, tile the entries. -/
theorem tiledBy_of_pieces {α : Type} {entries : Array α} {count width : ℕ}
    {row? : ℕ → Option (Array α)} (hsize : entries.size = count * width)
    (hsome : ∀ q < count, row? q = some (entries.extract (width * q) (width * q + width)))
    (hnone : ∀ q, count ≤ q → row? q = none) : TiledBy entries count width row? where
  isSome_iff q := by
    rcases Nat.lt_or_ge q count with hq | hq
    · simp [hsome q hq, hq]
    · simp [hnone q hq, hq]
  size_eq := by
    intro q row hrow
    have hq : q < count := Nat.lt_of_not_le fun hq => by simp [hnone q hq] at hrow
    obtain rfl := Option.some.inj ((hsome q hq).symm.trans hrow)
    have hfits : width * (q + 1) ≤ width * count := Nat.mul_le_mul_left width hq
    rw [Nat.mul_succ] at hfits
    rw [Buffer.size_piece, hsize, Nat.mul_comm count]
    omega
  flatMap_eq := by
    have hrows : (List.range count).filterMap row? =
        (List.range count).map fun q => entries.extract (width * q) (width * q + width) := by
      rw [← List.filterMap_eq_map']
      exact List.filterMap_congr fun q hq => hsome q (List.mem_range.1 hq)
    have hall : entries.toList.length ≤ width * count := by
      rw [Array.length_toList, hsize, Nat.mul_comm]
    rw [hrows, List.flatMap_map, ← List.take_of_length_le hall, ← flatMap_range_take_drop]
    refine List.flatMap_congr fun q _ => ?_
    rw [Array.toList_extract, List.extract_eq_take_drop, Nat.add_sub_cancel_left]

theorem Matrix.tiledBy_row? {α : Type} (m : Matrix α) :
    TiledBy m.entries m.nrows m.ncols m.row? :=
  tiledBy_of_pieces m.size_entries (fun _ => m.row?_eq_some) (fun _ => m.row?_eq_none)

namespace TopK

variable {t : TopK} {q : ℕ}

/-- Both parts have `k` entries for every row, and no more than a size can count. -/
structure Shaped (t : TopK) : Prop where
  distances : t.distances.size = t.nrows * t.k
  indices : t.indices.size = t.nrows * t.k
  lt_limit : t.nrows * t.k < Size.limit

theorem row?_eq_none (hq : t.nrows ≤ q) : t.row? q = none := by
  rw [row?, guard, if_neg hq.not_gt]
  rfl

namespace Shaped

/-- The place where a row begins is a size. -/
theorem mul?_k (h : t.Shaped) (hq : q ≤ t.nrows) : Size.mul? q t.k = some (q * t.k) :=
  Size.mul?_eq_some_iff.2 ⟨(Nat.mul_le_mul_right _ hq).trans_lt h.lt_limit, rfl⟩

/-- All rows can be had. -/
theorem row?_eq_some (h : t.Shaped) (hq : q < t.nrows) :
    t.row? q = some (t.distances.extract (q * t.k) ((q + 1) * t.k),
      t.indices.extract (q * t.k) ((q + 1) * t.k)) := by
  have hstop : (q + 1) * t.k ≤ t.nrows * t.k := Nat.mul_le_mul_right _ hq
  rw [row?, Option.bind_eq_bind, guard_bind hq, h.mul?_k hq.le, Option.bind_eq_bind,
    Option.bind_some, h.mul?_k hq, Option.bind_some,
    guard_bind ⟨h.distances ▸ hstop, h.indices ▸ hstop⟩]
  rfl

/-- A part that has its entries row after row. -/
theorem tiledBy_part {α : Type} (h : t.Shaped) {part : Array Single × Array UInt32 → Array α}
    {entries : Array α} (hsize : entries.size = t.nrows * t.k)
    (hpart : ∀ start stop, part (t.distances.extract start stop, t.indices.extract start stop) =
      entries.extract start stop) :
    TiledBy entries t.nrows t.k fun q => (t.row? q).map part := by
  refine tiledBy_of_pieces hsize (fun q hq => ?_) (fun q hq => ?_)
  · rw [h.row?_eq_some hq, Option.map_some, hpart, Nat.succ_mul, Nat.mul_comm q]
  · rw [row?_eq_none hq, Option.map_none]

theorem tiledBy_distances (h : t.Shaped) :
    TiledBy t.distances t.nrows t.k fun q => (t.row? q).map (·.1) :=
  h.tiledBy_part h.distances fun _ _ => rfl

theorem tiledBy_indices (h : t.Shaped) :
    TiledBy t.indices t.nrows t.k fun q => (t.row? q).map (·.2) :=
  h.tiledBy_part h.indices fun _ _ => rfl

end Shaped

end TopK

end NeighborSearch
