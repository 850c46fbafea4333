import Mathlib.Order.Nat
import NeighborSearch.Proofs.Selection.Memory
import NeighborSearch.Selection.Geometry

/-!
# Lanes cover a row

However many lanes are asked for, the lanes of a row cover its columns without overlap
and none of them is empty. No buffer of the working memory is larger than twice a row,
so all extents are sizes.
-/

namespace NeighborSearch

variable {a b i : ℕ}

theorem lt_ceilDiv_iff (hb : 0 < b) : i < ceilDiv a b ↔ b * i < a := by
  rw [ceilDiv, Nat.lt_iff_add_one_le, Nat.le_div_iff_mul_le hb, Nat.succ_mul, Nat.mul_comm]
  omega

theorem le_mul_ceilDiv (hb : 0 < b) (a : ℕ) : a ≤ b * ceilDiv a b := by
  have := (lt_ceilDiv_iff (a := a) hb (i := ceilDiv a b)).not.1 (Nat.lt_irrefl _)
  omega

theorem ceilDiv_pos (hb : 0 < b) (ha : 0 < a) : 0 < ceilDiv a b :=
  (lt_ceilDiv_iff hb).2 (by rwa [Nat.mul_zero])

theorem ceilDiv_le_self (hb : 0 < b) (a : ℕ) : ceilDiv a b ≤ a := by
  rw [← Nat.not_lt, lt_ceilDiv_iff hb]
  have := Nat.le_mul_of_pos_left a hb
  omega

namespace Geometry

/-- The geometry cuts rows of `ncols` columns into lanes that cover it, of which each
    keeps enough candidates for the `k` smallest of the row. -/
structure Fits (g : Geometry) (ncols k : ℕ) : Prop where
  laneLen_pos : 0 < g.laneLen
  laneLen_le : g.laneLen ≤ ncols
  lanes_pos : 0 < g.lanes
  laneLen_mul_lt : ∀ i < g.lanes, g.laneLen * i < ncols
  le_laneLen_mul : ncols ≤ g.laneLen * g.lanes
  tile_pos : 0 < g.tile
  tile_le : g.tile ≤ g.laneLen
  capacity_pos : 0 < g.capacity
  capacity_eq : g.capacity = min k g.laneLen

theorem fits_fit {ncols k : ℕ} (config : LaunchConfig) (hk : 0 < k) (hkn : k ≤ ncols) :
    (fit ncols k config).Fits ncols k := by
  have hlanes : 0 < min config.lanes.toNat ncols := by
    have := config.lanes.toNat_pos
    omega
  have hncols : 0 < ncols := by omega
  have hlen := ceilDiv_pos hlanes hncols
  have htile := config.tile.toNat_pos
  exact {
    laneLen_pos := hlen
    laneLen_le := ceilDiv_le_self hlanes ncols
    lanes_pos := ceilDiv_pos hlen hncols
    laneLen_mul_lt := fun i hi => (lt_ceilDiv_iff hlen).1 hi
    le_laneLen_mul := le_mul_ceilDiv hlen ncols
    tile_pos := Nat.lt_min.2 ⟨htile, hlen⟩
    tile_le := Nat.min_le_right _ _
    capacity_pos := Nat.lt_min.2 ⟨hk, hlen⟩
    capacity_eq := rfl }

variable {g : Geometry} {ncols k : ℕ}

theorem Fits.capacity_le (h : g.Fits ncols k) : g.capacity ≤ g.laneLen := by
  rw [h.capacity_eq]
  exact Nat.min_le_right _ _

/-- All lanes together are less than a lane longer than the row. -/
theorem Fits.mul_laneLen_le (h : g.Fits ncols k) : g.lanes * g.laneLen ≤ 2 * ncols := by
  have hpos := h.lanes_pos
  have hlast := h.laneLen_mul_lt (g.lanes - 1) (by omega)
  have hlen := h.laneLen_le
  have hsplit : g.laneLen * (g.lanes - 1) + g.laneLen = g.lanes * g.laneLen := by
    rw [← Nat.mul_succ, Nat.succ_eq_add_one, Nat.sub_add_cancel hpos, Nat.mul_comm]
  omega

theorem Fits.slots_le (h : g.Fits ncols k) : g.lanes * g.capacity ≤ 2 * ncols :=
  (Nat.mul_le_mul_left _ h.capacity_le).trans h.mul_laneLen_le

theorem Fits.staging_le (h : g.Fits ncols k) : g.lanes * g.tile ≤ 2 * ncols :=
  (Nat.mul_le_mul_left _ h.tile_le).trans h.mul_laneLen_le

end Geometry

/-! ## The working memory -/

/-- Working memory whose buffers have the extents that the geometry asks for, whatever
    they hold. -/
structure Scratch.Fits (s : Scratch) (g : Geometry) : Prop where
  staging : s.staging.size = g.lanes * g.tile
  front : s.front.slots.size = g.lanes * g.capacity
  back : s.back.slots.size = g.lanes * g.capacity
  front_reserved : s.front.reserved = g.lanes
  back_reserved : s.back.reserved = ceilDiv g.lanes 2

/-- Memory for a row can be set aside, and fits it. -/
theorem Geometry.Fits.exists_allocate {g : Geometry} {ncols k : ℕ} (h : g.Fits ncols k)
    (hncols : 2 * ncols < Size.limit) :
    ∃ s, Scratch.allocate g = .ok s ∧ s.Fits g := by
  refine ⟨{
    staging := Array.replicate (g.lanes * g.tile) .zero
    front := ⟨Array.replicate (g.lanes * g.capacity) .blank, #[], g.lanes⟩
    back := ⟨Array.replicate (g.lanes * g.capacity) .blank, #[], ceilDiv g.lanes 2⟩ }, ?_, ?_⟩
  · rw [Scratch.allocate, Buffer.mul_eq_ok (h.slots_le.trans_lt hncols),
      Buffer.mul_eq_ok (h.staging_le.trans_lt hncols)]
    rfl
  · exact ⟨Array.size_replicate, Array.size_replicate, Array.size_replicate, rfl, rfl⟩

end NeighborSearch
