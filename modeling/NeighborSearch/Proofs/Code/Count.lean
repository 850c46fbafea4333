import Mathlib.Algebra.Ring.Nat
import NeighborSearch.Code.Word

/-!
# Counts in words of 32 bits

A score is added up in a word of 32 bits, in which a sum that is too large comes out
wrong. Here every sum and every difference on the way is *checked*: where one does not
fit, there is no result at all. A count is *exact* (`Exact`) if it is the same with the
checks as without them, and is the number that was to be counted.

* `Exact.total`: exact counts, added one after the other to what was counted before, make
  an exact count, as long as the whole sum fits.
* `Exact.sub`: what a part lacks of the whole is an exact count.
-/

namespace NeighborSearch.Word

/-- The sum of two counts, if a word holds it. -/
def checkedAdd (x y : UInt32) : Option UInt32 :=
  if x.toNat + y.toNat < 2 ^ 32 then some (x + y) else none

/-- The difference of two counts, if the second is not the larger one. -/
def checkedSub (x y : UInt32) : Option UInt32 :=
  if y ≤ x then some (x - y) else none

/-- Counts, each of them checked, added one after the other to what was `counted` before. -/
def checkedTotal (counted : UInt32) : List (Option UInt32) → Option UInt32
  | [] => some counted
  | count :: counts => do
    let counted ← checkedAdd counted (← count)
    checkedTotal counted counts

/-- A count that passes its checks, and that is the number `n`. -/
structure Exact (checked : Option UInt32) (count : UInt32) (n : ℕ) : Prop where
  checked_eq : checked = some count
  toNat_eq : count.toNat = n

namespace Exact

variable {ι : Type*} {checked : Option UInt32} {count : UInt32} {n m : ℕ}

/-- A count made without sums and differences has nothing to check. -/
theorem of_toNat_eq (h : count.toNat = n) : Exact (some count) count n := ⟨rfl, h⟩

/-- A count made from another one passes its checks if that one does. -/
theorem bind {f : UInt32 → Option UInt32} {count' : UInt32} (h : Exact checked count n)
    (hf : Exact (f count) count' m) : Exact (checked >>= f) count' m := by
  refine ⟨?_, hf.toNat_eq⟩
  rw [h.checked_eq, Option.bind_eq_bind, Option.bind_some, hf.checked_eq]

theorem add {x y : UInt32} (hx : x.toNat = n) (hy : y.toNat = m) (h : n + m < 2 ^ 32) :
    Exact (checkedAdd x y) (x + y) (n + m) := by
  subst hx hy
  refine ⟨if_pos h, ?_⟩
  rw [UInt32.toNat_add, Nat.mod_eq_of_lt h]

theorem sub {x y : UInt32} (hx : x.toNat = n + m) (hy : y.toNat = m) :
    Exact (checkedSub x y) (x - y) n := by
  have hle : y ≤ x := by
    rw [UInt32.le_iff_toNat_le, hx, hy]
    exact Nat.le_add_left m n
  refine ⟨if_pos hle, ?_⟩
  rw [UInt32.toNat_sub_of_le _ _ hle, hx, hy, Nat.add_sub_cancel]

theorem total_cons (count : UInt32) (counts : List UInt32) :
    total (count :: counts) = count + total counts := rfl

/-- Every partial sum is at most the whole one, so that it is enough for that one to fit. -/
theorem total {items : List ι} {f : ι → Option UInt32} {g : ι → UInt32} {k : ι → ℕ}
    {counted : UInt32} (hitems : ∀ i ∈ items, Exact (f i) (g i) (k i))
    (hcounted : counted.toNat = n) (h : n + (items.map k).sum < 2 ^ 32) :
    Exact (checkedTotal counted (items.map f)) (counted + Word.total (items.map g))
      (n + (items.map k).sum) := by
  induction items generalizing counted n with
  | nil =>
    have hzero : counted + Word.total [] = counted := UInt32.add_zero counted
    rw [List.map_nil, List.map_nil, hzero]
    exact of_toNat_eq hcounted
  | cons i items ih =>
    have hfirst := hitems i List.mem_cons_self
    rw [List.map_cons, List.sum_cons] at h
    have hsum := add hcounted hfirst.toNat_eq (show n + k i < 2 ^ 32 by omega)
    have hrest := ih (fun j hj => hitems j (List.mem_cons_of_mem i hj)) hsum.toNat_eq
      (show n + k i + (items.map k).sum < 2 ^ 32 by omega)
    rw [List.map_cons, List.map_cons, List.map_cons, List.sum_cons, total_cons,
      ← UInt32.add_assoc, ← Nat.add_assoc]
    exact hfirst.bind (hsum.bind hrest)

/-- Counts of pairs, added from nothing on. -/
theorem total_zipWith {α β : Type*} {xs : List α} {ys : List β} {f : α → β → Option UInt32}
    {g : α → β → UInt32} {k : α → β → ℕ}
    (hpairs : ∀ p ∈ xs.zip ys, Exact (f p.1 p.2) (g p.1 p.2) (k p.1 p.2)) {counted : UInt32}
    (hcounted : counted.toNat = n) (h : n + (List.zipWith k xs ys).sum < 2 ^ 32) :
    Exact (checkedTotal counted (List.zipWith f xs ys))
      (counted + Word.total (List.zipWith g xs ys)) (n + (List.zipWith k xs ys).sum) := by
  rw [← List.map_uncurry_zip_eq_zipWith] at h
  rw [← List.map_uncurry_zip_eq_zipWith, ← List.map_uncurry_zip_eq_zipWith,
    ← List.map_uncurry_zip_eq_zipWith]
  exact total hpairs hcounted h

end Exact

end NeighborSearch.Word
