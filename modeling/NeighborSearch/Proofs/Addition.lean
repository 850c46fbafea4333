import Mathlib.Data.Nat.Notation
import NeighborSearch.Single

/-!
# Additions that leave patterns open

The sum of two singles is determined by what the two stand for, as far as it goes: whether a zero
is negative, and which pattern is taken for what is not a number, has no influence on the
canonical form of the sum (`Single.canonicalize_add`). What pattern a sum has that is not a
number is left open by the standard; an `Addition` takes any, and need not always take the same
one.
-/

namespace NeighborSearch

namespace Single

variable {x y x' y' : Single}

@[simp] theorem isNaN_canonicalize (x : Single) : x.canonicalize.isNaN = x.isNaN := by
  rw [canonicalize]
  split
  case isTrue hn =>
    rw [hn]
    decide
  case isFalse hn =>
    split
    case isTrue hz =>
      rw [Bool.eq_false_iff.2 hn]
      decide
    case isFalse => rfl

/-- Infinities are canonical. -/
theorem canonicalize_of_isInfinite (hx : x.isInfinite) : x.canonicalize = x := by
  have hm : x.magnitude = infinityMagnitude := of_decide_eq_true hx
  have hn : ¬x.isNaN := by simp [isNaN, hm]
  have hz : ¬x.isZero := by simp [isZero, hm, infinityMagnitude]
  rw [canonicalize, if_neg hn, if_neg hz]

theorem canonicalize_of_isZero (hx : x.isZero) : x.canonicalize = zero := by
  have hm : x.magnitude = 0 := of_decide_eq_true hx
  have hn : ¬x.isNaN := by simp [isNaN, hm]
  rw [canonicalize, if_neg hn, if_pos hx]

theorem canonicalize_of_not_isZero (hn : ¬x.isNaN) (hz : ¬x.isZero) : x.canonicalize = x := by
  rw [canonicalize, if_neg hn, if_neg hz]

@[simp] theorem isInfinite_canonicalize (x : Single) :
    x.canonicalize.isInfinite = x.isInfinite := by
  rw [canonicalize]
  split
  case isTrue hn =>
    have hlt : infinityMagnitude < x.magnitude := of_decide_eq_true hn
    rw [show x.isInfinite = false from decide_eq_false (Nat.ne_of_gt hlt)]
    decide
  case isFalse =>
    split
    case isTrue hz =>
      have hm : x.magnitude = 0 := of_decide_eq_true hz
      rw [show x.isInfinite = false from decide_eq_false (by rw [hm]; decide)]
      decide
    case isFalse => rfl

theorem units_canonicalize (hn : ¬x.isNaN) : x.canonicalize.units = x.units := by
  by_cases hz : x.isZero
  · have hm : x.magnitude = 0 := of_decide_eq_true hz
    rw [canonicalize_of_isZero hz, units, units, hm]
    split <;> split <;> rfl
  · rw [canonicalize_of_not_isZero hn hz]

theorem canonicalize_ofMagnitude_zero (negative : Bool) :
    (ofMagnitude negative 0).canonicalize = zero := by
  cases negative <;> decide

/-- The sign of a sum that is zero depends on those of the singles, but is dropped. -/
theorem canonicalize_addFinite (h : x.units + y.units = x'.units + y'.units) :
    (addFinite x y).canonicalize = (addFinite x' y').canonicalize := by
  rw [addFinite, addFinite, h]
  split
  · rw [canonicalize_ofMagnitude_zero, canonicalize_ofMagnitude_zero]
  · rfl

/-- The sum has the same canonical form if the singles are brought to theirs before. -/
theorem canonicalize_add (x y : Single) :
    (x.canonicalize + y.canonicalize).canonicalize = (x + y).canonicalize := by
  change (add _ _).canonicalize = (add _ _).canonicalize
  rw [add, add, isNaN_canonicalize, isNaN_canonicalize, isInfinite_canonicalize,
    isInfinite_canonicalize]
  split
  case isTrue => rfl
  case isFalse hn =>
    rw [Bool.or_eq_true, not_or] at hn
    split
    case isTrue hx =>
      rw [canonicalize_of_isInfinite hx]
      by_cases hy : y.isInfinite
      · rw [canonicalize_of_isInfinite hy]
      · simp only [hy, Bool.false_and]
    case isFalse =>
      split
      case isTrue hy => exact congrArg canonicalize (canonicalize_of_isInfinite hy)
      case isFalse =>
        exact canonicalize_addFinite (by rw [units_canonicalize hn.1, units_canonicalize hn.2])

end Single

/-- Additions that are right except for the pattern of a sum that is not a number. This pattern
    may be any that is not a number, and may depend on the place at which it is taken. -/
structure Addition where
  /-- The sum that is taken in a row and a column. -/
  sum : (row column : ℕ) → Single → Single → Single
  /-- It is the sum, or neither of them is a number. -/
  agrees : ∀ row column x y, sum row column x y = x + y ∨
    (sum row column x y).isNaN ∧ (x + y).isNaN

namespace Addition

/-- The addition that takes the quiet pattern for everything that is not a number. -/
def standard : Addition := ⟨fun _ _ x y => x + y, fun _ _ _ _ => .inl rfl⟩

/-- The addition that hands on the pattern of a left summand that is not a number. -/
def leftward : Addition where
  sum _ _ x y := if x.isNaN then x else x + y
  agrees _ _ x y := by
    split
    case isTrue hx =>
      have hsum : x + y = .nan := if_pos (by rw [hx, Bool.true_or])
      exact .inr ⟨hx, hsum ▸ by decide⟩
    case isFalse => exact .inl rfl

/-- What is not a number has one canonical form. -/
theorem canonicalize_sum (plus : Addition) (row column : ℕ) (x y : Single) :
    (plus.sum row column x y).canonicalize = (x + y).canonicalize := by
  rcases plus.agrees row column x y with heq | ⟨hsum, hexact⟩
  · rw [heq]
  · rw [Single.canonicalize, Single.canonicalize, if_pos hsum, if_pos hexact]

theorem isNaN_sum (plus : Addition) (row column : ℕ) (x y : Single) :
    (plus.sum row column x y).isNaN = (x + y).isNaN := by
  rw [← Single.isNaN_canonicalize, canonicalize_sum, Single.isNaN_canonicalize]

end Addition

end NeighborSearch
