/-!
# Rounding to nearest

A quotient of natural numbers is rounded to the nearest natural number, and one that
lies halfway between two of them to the even one. A number is rounded to so many
significant binary digits by dividing it by a power of two in this way.
-/

namespace NeighborSearch.Rounding

/-- `num / den` rounded to the nearest natural number, a half to the even one. -/
def divNearest (num den : Nat) : Nat :=
  if 2 * (num % den) < den ∨ (2 * (num % den) = den ∧ num / den % 2 = 0) then
    num / den
  else
    num / den + 1

/-- The rounded quotient is at most half a unit away from the exact one. -/
theorem divNearest_within_half (num : Nat) {den : Nat} (hden : 0 < den) :
    2 * num ≤ 2 * (den * divNearest num den) + den ∧
      2 * (den * divNearest num den) ≤ 2 * num + den := by
  have hsum := Nat.div_add_mod num den
  have hlt := Nat.mod_lt num hden
  unfold divNearest
  split
  · omega
  · rw [Nat.mul_add, Nat.mul_one]
    omega

@[simp] theorem divNearest_one (n : Nat) : divNearest n 1 = n := by
  simp [divNearest, Nat.mod_one]

/-- The number of binary digits that `n` has beyond `digits`. -/
def excess (digits n : Nat) : Nat := n.log2 + 1 - digits

/-- `n` with its first `digits` significant binary digits, as the number they form and
    the number of digits that have been dropped after them. Rounding up may make the
    former one digit longer, a power of two. -/
def significant (digits n : Nat) : Nat × Nat :=
  (divNearest n (1 <<< excess digits n), excess digits n)

/-- The quotient `num / den` with its first `digits` significant binary digits, in the same
    form. The digits of its integral part are counted; one without an integral part has
    none to drop. -/
def significantQuotient (digits num den : Nat) : Nat × Nat :=
  (divNearest num (den <<< excess digits (num / den)), excess digits (num / den))

@[simp] theorem significantQuotient_one (digits n : Nat) :
    significantQuotient digits n 1 = significant digits n := by
  simp [significantQuotient, significant]

/-- `n` rounded to `digits` significant binary digits. -/
def toDigits (digits n : Nat) : Nat :=
  (significant digits n).1 <<< (significant digits n).2

end NeighborSearch.Rounding
