import Mathlib.Data.Nat.Log
import Mathlib.Data.Nat.Notation
import Mathlib.Tactic.Ring
import NeighborSearch.Double

/-!
# The size of doubles

Rounding does not change the size of a number by much: a quotient as a double is at most four
times the numerator, or next to nothing (`Double.units_ofQuotient_lt`). Neither do the decimal
digits that a double is written with: there are some, and the point stands where the size
of the double tells (`Double.IsReadFrom.point_le`).
-/

namespace NeighborSearch

/-! ## Rounding -/

namespace Rounding

theorem two_pow_excess_le {digits n : ℕ} (hdigits : 0 < digits) (hexcess : excess digits n ≠ 0) :
    2 ^ (excess digits n + (digits - 1)) ≤ n := by
  have hn : n ≠ 0 := by
    rintro rfl
    rw [excess, Nat.log2_zero] at hexcess
    omega
  have hlog : excess digits n + (digits - 1) = n.log2 := by
    rw [excess] at hexcess ⊢
    omega
  rw [hlog]
  exact Nat.log2_self_le hn

theorem lt_two_pow_excess {digits : ℕ} (n : ℕ) : n < 2 ^ (excess digits n + digits) := by
  refine Nat.lt_log2_self.trans_le (Nat.pow_le_pow_right (by decide) ?_)
  rw [excess]
  omega

theorem toDigits_eq (digits n : ℕ) :
    toDigits digits n = 2 ^ excess digits n * divNearest n (2 ^ excess digits n) := by
  rw [toDigits, significant, Nat.shiftLeft_eq, Nat.shiftLeft_eq, Nat.one_mul, Nat.mul_comm]

theorem toDigits_of_excess {digits n : ℕ} (hexcess : excess digits n = 0) :
    toDigits digits n = n := by
  rw [toDigits_eq, hexcess, Nat.pow_zero, divNearest_one, Nat.one_mul]

/-- What is left out of a number is at most half of the number. -/
theorem toDigits_within_half {digits n : ℕ} (hdigits : 0 < digits) :
    n ≤ 2 * toDigits digits n ∧ toDigits digits n ≤ 2 * n := by
  by_cases hexcess : excess digits n = 0
  · rw [toDigits_of_excess hexcess]
    omega
  · have hhalf := divNearest_within_half n (Nat.two_pow_pos (excess digits n))
    have hle : 2 ^ excess digits n ≤ n :=
      (Nat.pow_le_pow_right (by decide) (Nat.le_add_right _ _)).trans
        (two_pow_excess_le hdigits hexcess)
    rw [toDigits_eq]
    omega

/-- The first digits of a quotient are no more than that. -/
theorem significantQuotient_fst_le {digits num den : ℕ} (hden : 0 < den) :
    (significantQuotient digits num den).1 ≤ 2 ^ digits := by
  have hpos : 0 < den <<< excess digits (num / den) := by
    rw [Nat.shiftLeft_eq]
    exact Nat.mul_pos hden (Nat.two_pow_pos _)
  have hhalf := (divNearest_within_half num hpos).2
  have hnum : num < den <<< excess digits (num / den) * 2 ^ digits := by
    rw [Nat.shiftLeft_eq, Nat.mul_assoc, ← Nat.pow_add]
    exact (Nat.lt_mul_div_succ num hden).trans_le
      (Nat.mul_le_mul_left den (lt_two_pow_excess (num / den)))
  rw [significantQuotient]
  dsimp only
  generalize den <<< excess digits (num / den) = scale at *
  -- Twice the digits are less than twice the power and a half.
  refine Nat.le_of_lt_succ (Nat.lt_of_mul_lt_mul_left (a := scale) ?_)
  rw [Nat.mul_succ]
  omega

end Rounding

namespace Double

variable {x : Double}

/-! ## Units -/

theorem unitsInOne_pos : 0 < unitsInOne := by decide

theorem step_le_units (h : x.units ≠ 0) : x.step ≤ x.units := by
  rw [units] at h ⊢
  split_ifs at h ⊢ with hexponent
  · rw [step, hexponent]
    exact Nat.pos_of_ne_zero h
  · exact Nat.le_mul_of_pos_left _ (by omega)

theorem units_lt {n : ℕ} (h : x.exponent ≤ n + 1) : x.units < 2 ^ (n + 53) := by
  have hfraction : x.fraction < 2 ^ 52 := Nat.mod_lt _ (by decide)
  have hstep : x.step ≤ 2 ^ n := by
    rw [step, Nat.one_shiftLeft]
    exact Nat.pow_le_pow_right (by decide) (by omega)
  calc
    x.units < 2 ^ 53 * x.step := by
      have hpos : 0 < x.step := by
        rw [step, Nat.one_shiftLeft]
        exact Nat.two_pow_pos _
      rw [units]
      split_ifs
      · omega
      · exact Nat.mul_lt_mul_of_pos_right (by omega) hpos
    _ ≤ 2 ^ 53 * 2 ^ n := Nat.mul_le_mul_left _ hstep
    _ = 2 ^ (n + 53) := by rw [← Nat.pow_add, Nat.add_comm]

theorem ofQuotient_bits (num den : ℕ) :
    (ofQuotient num den).bits.toNat =
      min (Rounding.excess 53 (num * unitsInOne / den) * 0x10000000000000 +
        (Rounding.significantQuotient 53 (num * unitsInOne) den).1) infinityPattern % 2 ^ 64 :=
  UInt64.toNat_ofNat'

/-- The exponent of a quotient is about the number of digits after its first ones. -/
theorem exponent_ofQuotient_le (num : ℕ) {den : ℕ} (hden : 0 < den) :
    (ofQuotient num den).exponent ≤ Rounding.excess 53 (num * unitsInOne / den) + 2 := by
  have hdigits : (Rounding.significantQuotient 53 (num * unitsInOne) den).1 ≤ 2 ^ 53 :=
    Rounding.significantQuotient_fst_le hden
  rw [exponent, ofQuotient_bits]
  generalize (Rounding.significantQuotient 53 (num * unitsInOne) den).1 = q at hdigits ⊢
  generalize Rounding.excess 53 (num * unitsInOne / den) = s
  have hle : min (s * 0x10000000000000 + q) infinityPattern % 2 ^ 64 ≤
      s * 0x10000000000000 + q := (Nat.mod_le _ _).trans (Nat.min_le_left _ _)
  omega

/-- A quotient is at most four times the numerator, or next to nothing. -/
theorem units_ofQuotient_lt (num : ℕ) {den : ℕ} (hden : 0 < den) :
    (ofQuotient num den).units < 2 ^ 54 + 4 * (num * unitsInOne) := by
  have hlt := units_lt (exponent_ofQuotient_le num hden)
  by_cases hexcess : Rounding.excess 53 (num * unitsInOne / den) = 0
  · rw [hexcess] at hlt
    omega
  · have hle := Rounding.two_pow_excess_le (by decide) hexcess
    have hdiv := Nat.div_le_self (num * unitsInOne) den
    rw [show Rounding.excess 53 (num * unitsInOne / den) + 1 + 53 =
      (Rounding.excess 53 (num * unitsInOne / den) + (53 - 1)) + 2 by omega, Nat.pow_add] at hlt
    omega

/-! ## Decimal digits -/

theorem lowest_pos (h : x.units ≠ 0) : 0 < x.lowest := by
  have hstep := step_le_units h
  rw [lowest]
  split_ifs <;> omega

theorem highest_le (h : x.units ≠ 0) : x.highest ≤ 6 * x.units := by
  have hstep := step_le_units h
  rw [highest]
  omega

/-- What is read as a double is within its bounds. -/
theorem within_of_readsAs {num den : ℕ} (h : x.readsAs num den = true) :
    x.lowest * den ≤ num ∧ num ≤ x.highest * den := by
  rw [readsAs] at h
  split_ifs at h
  · simpa using h
  · have hlt : x.lowest * den < num ∧ num < x.highest * den := by simpa using h
    exact ⟨hlt.1.le, hlt.2.le⟩

/-- That a decimal number is read as the double. -/
def IsReadFrom (x : Double) (d : Decimal) : Prop :=
  x.readsAs (d.digits * (4 * unitsInOne * 10 ^ d.exponent.toNat))
    (10 ^ (-d.exponent).toNat) = true

theorem isReadFrom_of_onGrid? {exponent : ℤ} {d : Decimal} (h : x.onGrid? exponent = some d) :
    x.IsReadFrom d := by
  rw [onGrid?] at h
  split_ifs at h with hnearest hother
  all_goals
    obtain rfl := Option.some.inj h
    assumption

/-- The digits that a double is written with are read as it, unless none have been found. -/
theorem shortest_cases (x : Double) : x.shortest = ⟨0, 0⟩ ∨ x.IsReadFrom x.shortest := by
  rw [shortest]
  cases hfound : (List.range 640).findSome? fun i : ℕ => x.onGrid? (309 - (i : ℤ)) with
  | none => exact .inl rfl
  | some d =>
    obtain ⟨i, -, hi⟩ := List.exists_of_findSome?_eq_some hfound
    exact .inr (isReadFrom_of_onGrid? hi)

theorem IsReadFrom.digits_ne_zero {d : Decimal} (h : x.IsReadFrom d) (hx : x.units ≠ 0) :
    d.digits ≠ 0 := by
  intro hzero
  have hlow := (within_of_readsAs h).1
  rw [hzero, Nat.zero_mul] at hlow
  exact (Nat.mul_pos (lowest_pos hx) (Nat.pow_pos (by decide))).not_ge hlow

theorem pow_pred_length_toDigits_le {n : ℕ} (hn : n ≠ 0) :
    10 ^ ((Nat.toDigits 10 n).length - 1) ≤ n := by
  rcases Nat.eq_zero_or_pos ((Nat.toDigits 10 n).length - 1) with hzero | hpos
  · rw [hzero]
    exact Nat.pos_of_ne_zero hn
  · by_contra hlt
    have hle := (Nat.length_toDigits_le_iff (by decide) hpos).2 (Nat.not_le.1 hlt)
    omega

/-- The point of a number stands where its size tells. -/
theorem IsReadFrom.point_le {d : Decimal} (h : x.IsReadFrom d) (hx : x.units ≠ 0) {k : ℕ}
    (hk : x.units ≤ 2 ^ k * unitsInOne) :
    (Nat.toDigits 10 d.digits).length + d.exponent ≤ k + 2 := by
  have hdigits := pow_pred_length_toDigits_le (h.digits_ne_zero hx)
  generalize hlength : (Nat.toDigits 10 d.digits).length = length at hdigits ⊢
  have hpos : 0 < length := hlength ▸ Nat.length_toDigits_pos
  have hhigh : d.digits * 10 ^ d.exponent.toNat ≤ 2 ^ (k + 1) * 10 ^ (-d.exponent).toNat := by
    refine Nat.le_of_mul_le_mul_left ?_ (Nat.mul_pos (by decide : 0 < 4) unitsInOne_pos)
    calc
      4 * unitsInOne * (d.digits * 10 ^ d.exponent.toNat)
      _ = d.digits * (4 * unitsInOne * 10 ^ d.exponent.toNat) := by ring
      _ ≤ x.highest * 10 ^ (-d.exponent).toNat := (within_of_readsAs h).2
      _ ≤ 8 * (2 ^ k * unitsInOne) * 10 ^ (-d.exponent).toNat :=
        Nat.mul_le_mul_right _ (by have := highest_le hx; omega)
      _ = 4 * unitsInOne * (2 ^ (k + 1) * 10 ^ (-d.exponent).toNat) := by ring
  have hpow : 10 ^ (length - 1 + d.exponent.toNat) ≤ 10 ^ (k + 1 + (-d.exponent).toNat) := by
    rw [Nat.pow_add, Nat.pow_add]
    exact (Nat.mul_le_mul_right _ hdigits).trans
      (hhigh.trans (Nat.mul_le_mul_right _ (Nat.pow_le_pow_left (by decide) _)))
  have hle := (Nat.pow_le_pow_iff_right (by decide)).1 hpow
  omega

end Double

end NeighborSearch
