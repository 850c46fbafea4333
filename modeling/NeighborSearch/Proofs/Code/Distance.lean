import NeighborSearch.Code.Distance
import NeighborSearch.Proofs.Chunk

/-!
# Distances added up from parts

Either distance is a sum over the bytes of the codes (`differing_eq_sum`). So it is the sum
of the distances of the parts into which the codes are cut (`differing_take_add_drop`,
`sum_differing_wholeChunks`), and is bounded by their length (`differing_le`).
-/

namespace NeighborSearch.Distance

variable (d : Distance)

/-- What two bytes add to a distance. -/
def ofByte : Distance → UInt8 → UInt8 → ℕ
  | .bitwise, a, b => bitCount 8 (a ^^^ b).toNat
  | .generalized, a, b => if a = b then 0 else 1

/-- The most that two bytes add to a distance. -/
def weight : Distance → ℕ
  | .bitwise => 8
  | .generalized => 1

/-- The distance of two codes, as far as both go, as a number without a bound. -/
def differing : Distance → Code → Code → ℕ
  | .bitwise => Code.differingBits
  | .generalized => Code.differingBytes

theorem ofByte_le (a b : UInt8) : d.ofByte a b ≤ d.weight := by
  cases d with
  | bitwise => exact bitCount_le 8 _
  | generalized =>
    rw [ofByte]
    split
    · exact Nat.zero_le _
    · exact Nat.le_refl _

theorem differing_eq_sum (x y : Code) : d.differing x y = (List.zipWith d.ofByte x y).sum := by
  cases d with
  | bitwise => rfl
  | generalized =>
    rw [differing, Code.differingBytes]
    induction x generalizing y with
    | nil => rfl
    | cons a x ih =>
      cases y with
      | nil => rfl
      | cons b y =>
        rw [List.zip_cons_cons, List.countP_cons, ih, List.zipWith_cons_cons, List.sum_cons,
          Nat.add_comm]
        by_cases hab : a = b <;> simp [hab, ofByte]

theorem differing_replicate (n : ℕ) (a b : UInt8) :
    d.differing (List.replicate n a) (List.replicate n b) = n * d.ofByte a b := by
  rw [differing_eq_sum, List.zipWith_replicate, Nat.min_self, List.sum_replicate_nat]

/-- No distance exceeds the size of the codes. -/
theorem differing_le (x y : Code) : d.differing x y ≤ d.weight * x.length := by
  rw [differing_eq_sum]
  induction x generalizing y with
  | nil => exact Nat.zero_le _
  | cons a x ih =>
    cases y with
    | nil => exact Nat.zero_le _
    | cons b y =>
      have hhead := d.ofByte_le a b
      have htail := ih y
      rw [List.zipWith_cons_cons, List.sum_cons, List.length_cons, Nat.mul_succ, Nat.add_comm]
      exact Nat.add_le_add htail hhead

theorem differing_take_add_drop (k : ℕ) (x y : Code) :
    d.differing (x.take k) (y.take k) + d.differing (x.drop k) (y.drop k) = d.differing x y := by
  rw [differing_eq_sum, differing_eq_sum, differing_eq_sum, ← List.take_zipWith,
    ← List.drop_zipWith, ← List.sum_append, List.take_append_drop]

theorem sum_differing_wholeChunks {n : ℕ} (hn : 0 < n) {x y : Code} (hlen : x.length = y.length) :
    (List.zipWith d.differing (wholeChunks n x) (wholeChunks n y)).sum +
      d.differing (leftover n x) (leftover n y) = d.differing x y := by
  have hsum : d.differing = fun x y => (List.zipWith d.ofByte x y).sum := by
    funext x y
    exact d.differing_eq_sum x y
  rw [hsum]
  exact sum_zipWith_wholeChunks d.ofByte hn hlen

/-- Codes that consist of whole pieces. -/
theorem sum_differing_of_dvd {n : ℕ} (hn : 0 < n) {x y : Code} (hlen : x.length = y.length)
    (hdvd : n ∣ x.length) :
    (List.zipWith d.differing (wholeChunks n x) (wholeChunks n y)).sum = d.differing x y := by
  have hrest : d.differing (leftover n x) (leftover n y) = 0 := by
    rw [leftover_of_dvd hdvd, differing_eq_sum, List.zipWith_nil_left, List.sum_nil]
  rw [← d.sum_differing_wholeChunks hn hlen, hrest, Nat.add_zero]

end NeighborSearch.Distance
