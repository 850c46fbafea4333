import Mathlib.Data.EReal.Basic
import Mathlib.Data.Int.ConditionallyCompleteOrder
import NeighborSearch.Single

/-!
# The values of singles

A single stands for an extended real number, unless it is not a number
(`Single.value?`): with the greatest exponent for an infinity, and otherwise for the
finite number that IEEE 754 forms of its sign, its exponent and its fraction
(`Single.finiteValue`).

That number is a matter of the units (`finiteValue_eq`), and these grow with the
magnitude (`strictMono_unitsOfMagnitude`). So the total order of patterns orders
canonical singles by value, with what is not a number after everything else
(`totalKey_canonicalize_lt_iff`), and no two canonical singles stand for the same
(`totalKey_canonicalize_eq_iff`).
-/

namespace NeighborSearch.Single

variable (x : Single)

/-! ## Fields of a pattern -/

/-- The bit of the sign. -/
def sign : ℕ := x.bits.toNat / 2 ^ 31

/-- The eight bits of the exponent. -/
def exponent : ℕ := x.bits.toNat / 2 ^ 23 % 2 ^ 8

/-- The 23 bits of the fraction. -/
def fraction : ℕ := x.bits.toNat % 2 ^ 23

/-- The number that a finite single stands for. With the exponent zero the fraction is
    taken as it is, and otherwise it comes after a leading one. -/
noncomputable def finiteValue : ℝ :=
  (-1) ^ x.sign *
    if x.exponent = 0 then (2 : ℝ) ^ (-126 : ℤ) * (x.fraction / 2 ^ 23)
    else (2 : ℝ) ^ ((x.exponent : ℤ) - 127) * (1 + x.fraction / 2 ^ 23)

/-- What a single stands for, unless it is not a number. -/
noncomputable def value? : Option EReal :=
  if x.exponent < 255 then some x.finiteValue
  else if x.fraction = 0 then some (if x.sign = 0 then ⊤ else ⊥)
  else none

theorem fraction_lt : x.fraction < 2 ^ 23 := Nat.mod_lt _ (by decide)

theorem magnitude_eq : x.magnitude = 2 ^ 23 * x.exponent + x.fraction := by
  rw [magnitude, exponent, fraction]
  omega

theorem sign_eq : x.sign = if x.isNegative then 1 else 0 := by
  have hx := x.bits.toNat_lt
  rw [sign, isNegative]
  split <;> simp at * <;> omega

theorem exponent_lt_iff : x.exponent < 255 ↔ x.magnitude < infinityMagnitude := by
  have := x.magnitude_eq
  have := x.fraction_lt
  rw [infinityMagnitude]
  omega

/-! ## Values by units -/

/-- There are less units than a leading one of the next exponent is worth. -/
theorem unitsOfMagnitude_lt {m : ℕ} (h : m / 0x800000 ≠ 0) :
    unitsOfMagnitude m < 0x800000 * 2 ^ (m / 0x800000) := by
  have hfraction : m % 0x800000 < 0x800000 := Nat.mod_lt _ (by decide)
  obtain ⟨e, he⟩ := Nat.exists_eq_succ_of_ne_zero h
  rw [unitsOfMagnitude, if_neg h, he, Nat.succ_sub_one, Nat.shiftLeft_eq, Nat.pow_succ',
    ← Nat.mul_assoc]
  exact Nat.mul_lt_mul_of_pos_right (by omega) (Nat.two_pow_pos e)

theorem strictMono_unitsOfMagnitude : StrictMono unitsOfMagnitude := by
  intro m n hmn
  have hfraction : m % 0x800000 < 0x800000 := Nat.mod_lt _ (by decide)
  rcases Nat.lt_or_eq_of_le (Nat.div_le_div_right (c := 0x800000) hmn.le) with hlt | heq
  · -- The leading one of `n` is of no less worth than all of `m`.
    have hn : n / 0x800000 ≠ 0 := Nat.ne_zero_of_lt hlt
    have hlow : 0x800000 * 2 ^ (m / 0x800000) ≤ unitsOfMagnitude n := by
      rw [unitsOfMagnitude, if_neg hn, Nat.shiftLeft_eq]
      exact Nat.mul_le_mul (Nat.le_add_right _ _) (Nat.pow_le_pow_right (by decide) (by omega))
    refine lt_of_lt_of_le ?_ hlow
    by_cases hm : m / 0x800000 = 0
    · rw [unitsOfMagnitude, if_pos hm, hm]
      simpa using hfraction
    · exact unitsOfMagnitude_lt hm
  · have hrest : m % 0x800000 < n % 0x800000 := by omega
    rw [unitsOfMagnitude, unitsOfMagnitude, heq]
    split
    · exact hrest
    · rw [Nat.shiftLeft_eq, Nat.shiftLeft_eq]
      exact Nat.mul_lt_mul_of_pos_right (by omega) (Nat.two_pow_pos _)

theorem unitsOfMagnitude_eq :
    unitsOfMagnitude x.magnitude =
      if x.exponent = 0 then x.fraction else (2 ^ 23 + x.fraction) * 2 ^ (x.exponent - 1) := by
  have hmagnitude := x.magnitude_eq
  have hfraction := x.fraction_lt
  have hexponent : x.magnitude / 0x800000 = x.exponent := by omega
  have hrest : x.magnitude % 0x800000 = x.fraction := by omega
  rw [unitsOfMagnitude, hexponent, hrest]
  split
  · rfl
  · exact Nat.shiftLeft_eq _ _

theorem finiteValue_eq : x.finiteValue = x.units * 2 ^ (-149 : ℤ) := by
  have hsign : x.units = (-1) ^ x.sign * (unitsOfMagnitude x.magnitude : ℤ) := by
    rw [units, sign_eq]
    split <;> simp
  rw [hsign, finiteValue, unitsOfMagnitude_eq]
  push_cast
  rw [mul_assoc]
  congr 1
  split
  case isTrue h =>
    norm_num [zpow_neg]
    ring
  case isFalse h =>
    obtain ⟨e, he⟩ := Nat.exists_eq_succ_of_ne_zero h
    have hpower : (2 : ℝ) ^ ((x.exponent : ℤ) - 127) = 2 ^ e * 2 ^ (-126 : ℤ) := by
      rw [he, ← zpow_natCast, ← zpow_add₀ (by norm_num)]
      congr 1
      push_cast
      ring
    rw [hpower, he, Nat.succ_sub_one]
    norm_num [zpow_neg]
    ring

/-- The number of so many units; from what infinity would have on, an infinity. -/
noncomputable def ofUnits (n : ℤ) : EReal :=
  if n ≤ -(unitsOfMagnitude infinityMagnitude : ℤ) then ⊥
  else if (unitsOfMagnitude infinityMagnitude : ℤ) ≤ n then ⊤
  else ((n * 2 ^ (-149 : ℤ) : ℝ) : EReal)

theorem strictMonoOn_ofUnits : StrictMonoOn ofUnits
    (Set.Icc (-(unitsOfMagnitude infinityMagnitude : ℤ)) (unitsOfMagnitude infinityMagnitude)) := by
  rintro a ⟨hlow, -⟩ b ⟨-, hhigh⟩ hab
  have hstep : (0 : ℝ) < 2 ^ (-149 : ℤ) := by positivity
  rw [ofUnits, ofUnits, if_neg (by omega : ¬b ≤ _), if_neg (by omega : ¬_ ≤ a)]
  split <;> split
  · exact bot_lt_top
  · exact EReal.bot_lt_coe _
  · exact EReal.coe_lt_top _
  · rw [EReal.coe_lt_coe_iff, mul_lt_mul_iff_left₀ hstep]
    exact_mod_cast hab

variable {x} {y : Single}

theorem unitsOfMagnitude_le (hx : ¬x.isNaN) :
    unitsOfMagnitude x.magnitude ≤ unitsOfMagnitude infinityMagnitude := by
  rw [strictMono_unitsOfMagnitude.le_iff_le]
  simpa [isNaN] using hx

theorem units_mem_Icc (hx : ¬x.isNaN) : x.units ∈
    Set.Icc (-(unitsOfMagnitude infinityMagnitude : ℤ)) (unitsOfMagnitude infinityMagnitude) := by
  have := unitsOfMagnitude_le hx
  rw [Set.mem_Icc, units]
  split <;> omega

theorem value?_eq_none_iff : x.value? = none ↔ x.isNaN := by
  have := x.magnitude_eq
  have := x.fraction_lt
  have : x.exponent < 2 ^ 8 := Nat.mod_lt _ (by decide)
  rw [value?, isNaN, infinityMagnitude, decide_eq_true_eq]
  split
  · simp
    omega
  · split <;> simp <;> omega

/-- What a single stands for is a matter of its units. -/
theorem value?_eq_some (hx : ¬x.isNaN) : x.value? = some (ofUnits x.units) := by
  have hinfinity : 0 < unitsOfMagnitude infinityMagnitude :=
    strictMono_unitsOfMagnitude (by decide : 0 < infinityMagnitude)
  rw [value?]
  split
  case isTrue hfinite =>
    have hlt := strictMono_unitsOfMagnitude (x.exponent_lt_iff.1 hfinite)
    have hlow : ¬x.units ≤ -(unitsOfMagnitude infinityMagnitude : ℤ) := by
      rw [units]
      split <;> omega
    have hhigh : ¬(unitsOfMagnitude infinityMagnitude : ℤ) ≤ x.units := by
      rw [units]
      split <;> omega
    rw [ofUnits, if_neg hlow, if_neg hhigh, finiteValue_eq]
  case isFalse hinfinite =>
    have heq : x.magnitude = infinityMagnitude := by
      have := x.exponent_lt_iff.not.1 hinfinite
      rw [isNaN, decide_eq_true_eq] at hx
      omega
    have hfraction : x.fraction = 0 := by
      have := x.magnitude_eq
      have := x.fraction_lt
      rw [infinityMagnitude] at heq
      omega
    rw [if_pos hfraction, sign_eq, ofUnits, units, heq]
    by_cases hneg : x.isNegative
    · simp [hneg]
    · simp [hneg]
      omega

/-! ## Values and the order of patterns -/

/-- The place of a canonical form in the total order of patterns. -/
theorem totalKey_canonicalize (x : Single) :
    x.canonicalize.totalKey =
      if x.isNaN then 0x7fc00000
      else if x.magnitude = 0 then 0
      else if x.isNegative then -1 - (x.magnitude : ℤ) else x.magnitude := by
  rw [canonicalize, isZero]
  simp only [decide_eq_true_eq]
  split
  · decide
  · split
    · decide
    · rfl

/-- Canonical numbers lie in the total order of patterns as their units do. -/
theorem totalKey_canonicalize_lt_iff_units (hx : ¬x.isNaN) (hy : ¬y.isNaN) :
    x.canonicalize.totalKey < y.canonicalize.totalKey ↔ x.units < y.units := by
  have hzero : unitsOfMagnitude 0 = 0 := rfl
  have hx0 := strictMono_unitsOfMagnitude.lt_iff_lt (a := 0) (b := x.magnitude)
  have hy0 := strictMono_unitsOfMagnitude.lt_iff_lt (a := 0) (b := y.magnitude)
  have hxy := strictMono_unitsOfMagnitude.lt_iff_lt (a := x.magnitude) (b := y.magnitude)
  have hyx := strictMono_unitsOfMagnitude.lt_iff_lt (a := y.magnitude) (b := x.magnitude)
  rw [totalKey_canonicalize, totalKey_canonicalize, if_neg hx, if_neg hy, units, units]
  split <;> split <;> split <;> split <;> omega

/-- What is not a number comes after all numbers. -/
theorem totalKey_canonicalize_lt_of_isNaN (hx : ¬x.isNaN) (hy : y.isNaN) :
    x.canonicalize.totalKey < y.canonicalize.totalKey := by
  rw [totalKey_canonicalize, totalKey_canonicalize, if_neg hx, if_pos hy]
  rw [isNaN, decide_eq_true_eq, infinityMagnitude] at hx
  split
  · decide
  · split <;> omega

/-- Canonical forms lie in the total order of patterns as what they stand for does, and
    those that are not numbers at its end. -/
theorem totalKey_canonicalize_lt_iff :
    x.canonicalize.totalKey < y.canonicalize.totalKey ↔
      (∃ v w, x.value? = some v ∧ y.value? = some w ∧ v < w) ∨
        ((∃ v, x.value? = some v) ∧ y.value? = none) := by
  by_cases hx : x.isNaN
  · have hnone := value?_eq_none_iff.2 hx
    have hlast : ¬x.canonicalize.totalKey < y.canonicalize.totalKey := by
      by_cases hy : y.isNaN
      · rw [totalKey_canonicalize, totalKey_canonicalize, if_pos hx, if_pos hy]
        exact lt_irrefl _
      · exact (totalKey_canonicalize_lt_of_isNaN hy hx).not_gt
    simp [hnone, hlast]
  · by_cases hy : y.isNaN
    · simp [value?_eq_some hx, value?_eq_none_iff.2 hy, totalKey_canonicalize_lt_of_isNaN hx hy]
    · rw [totalKey_canonicalize_lt_iff_units hx hy, value?_eq_some hx, value?_eq_some hy,
        ← strictMonoOn_ofUnits.lt_iff_lt (units_mem_Icc hx) (units_mem_Icc hy)]
      simp

/-- Canonical forms are in one place of it if they stand for the same. -/
theorem totalKey_canonicalize_eq_iff :
    x.canonicalize.totalKey = y.canonicalize.totalKey ↔ x.value? = y.value? := by
  by_cases hx : x.isNaN
  · by_cases hy : y.isNaN
    · simp [totalKey_canonicalize, hx, hy, value?_eq_none_iff.2]
    · have hne := (totalKey_canonicalize_lt_of_isNaN hy hx).ne'
      simp [hne, value?_eq_none_iff.2 hx, value?_eq_some hy]
  · by_cases hy : y.isNaN
    · have hne := (totalKey_canonicalize_lt_of_isNaN hx hy).ne
      simp [hne, value?_eq_none_iff.2 hy, value?_eq_some hx]
    · have hlt := totalKey_canonicalize_lt_iff_units hx hy
      have hgt := totalKey_canonicalize_lt_iff_units hy hx
      rw [value?_eq_some hx, value?_eq_some hy, Option.some_inj,
        strictMonoOn_ofUnits.injOn.eq_iff (units_mem_Icc hx) (units_mem_Icc hy)]
      omega

/-! ## Patterns as signed integers -/

/-- The pattern as a signed integer; of a negative one, all bits but the sign reversed. -/
def signedKey (x : Single) : Int32 :=
  x.bits.toInt32 ^^^ ((x.bits.toInt32 >>> 31).toUInt32 >>> 1).toInt32

/-- Exclusive or with all bits but the sign reverses them. -/
theorem xor_magnitude {n : ℕ} (hn : n / 2 ^ 31 = 1) :
    n ^^^ (2 ^ 31 - 1) = 2 ^ 32 - 1 - n % 2 ^ 31 := by
  have hlow : (n ^^^ (2 ^ 31 - 1)) % 2 ^ 31 = 2 ^ 31 - 1 - n % 2 ^ 31 := by
    have hnot := BitVec.toNat_not (x := BitVec.ofNat 31 n)
    rw [← BitVec.xor_allOnes, BitVec.toNat_xor, BitVec.toNat_allOnes, BitVec.toNat_ofNat] at hnot
    rw [Nat.xor_mod_two_pow, ← hnot]
    rfl
  have hhigh : (n ^^^ (2 ^ 31 - 1)) / 2 ^ 31 = 1 := by
    rw [Nat.xor_div_two_pow, hn]
    rfl
  omega

/-- The place in the total order of patterns is read off the pattern in this way. -/
theorem toInt_signedKey (x : Single) : x.signedKey.toInt = x.totalKey := by
  have hx := x.bits.toNat_lt
  have hkey : x.signedKey.toInt =
      (x.bits.toBitVec ^^^ (x.bits.toBitVec.sshiftRight 31 >>> 1)).toInt := rfl
  rw [hkey, totalKey, isNegative, magnitude]
  by_cases hneg : 0x80000000 ≤ x.bits.toNat
  · have hmsb : x.bits.toBitVec.msb = true := by
      rw [BitVec.msb_eq_decide]
      exact decide_eq_true hneg
    have hmask : x.bits.toBitVec.sshiftRight 31 >>> 1 = BitVec.ofNat 32 (2 ^ 31 - 1) := by
      have hall : ~~~x.bits.toBitVec >>> 31 = 0#32 := by
        apply BitVec.eq_of_toNat_eq
        rw [BitVec.toNat_ushiftRight, BitVec.toNat_not, Nat.shiftRight_eq_div_pow]
        change (2 ^ 32 - 1 - x.bits.toNat) / 2 ^ 31 = 0
        omega
      rw [BitVec.sshiftRight_eq_of_msb_true hmsb, hall]
      rfl
    rw [hmask, BitVec.toInt_eq_toNat_cond, BitVec.toNat_xor]
    simp only [UInt32.toNat_toBitVec, BitVec.toNat_ofNat]
    rw [Nat.mod_eq_of_lt (by decide), xor_magnitude (by omega)]
    simp [hneg]
    omega
  · have hmsb : x.bits.toBitVec.msb = false := by
      rw [BitVec.msb_eq_decide]
      exact decide_eq_false hneg
    have hmask : x.bits.toBitVec.sshiftRight 31 >>> 1 = 0#32 := by
      rw [BitVec.sshiftRight_eq_of_msb_false hmsb]
      apply BitVec.eq_of_toNat_eq
      simp [BitVec.toNat_ushiftRight, Nat.shiftRight_eq_div_pow]
      omega
    rw [hmask, BitVec.xor_zero, BitVec.toInt_eq_toNat_cond]
    simp only [UInt32.toNat_toBitVec]
    simp [hneg]
    omega

theorem compare_signedKey (x y : Single) :
    compare x.signedKey y.signedKey = compare x.totalKey y.totalKey := by
  rw [← toInt_signedKey, ← toInt_signedKey]
  change compareOfLessAndEq x.signedKey y.signedKey =
    compareOfLessAndEq x.signedKey.toInt y.signedKey.toInt
  simp only [compareOfLessAndEq, Int32.lt_iff_toInt_lt, ← Int32.toInt_inj]

end NeighborSearch.Single
