import NeighborSearch.Rounding

/-!
# Single precision numbers

A *single* is a 32-bit pattern of the IEEE 754 binary32 format: a sign, eight bits of
exponent and 23 bits of fraction. Its *magnitude*, the pattern without the sign, grows
with the absolute value of the number, so patterns are compared as integers.

A finite single is a whole number of *units* of 2⁻¹⁴⁹, the smallest positive one, and
so is the exact sum of two. Addition forms this sum and rounds it to the nearest
single, of two equally near ones to the one with an even fraction; from the largest
finite single on by half a step, to infinity.

Patterns that stand for the same value are brought to one form by `canonicalize`: zero
loses its sign, and everything that is not a number becomes one quiet pattern. The
total order of patterns (`totalKey`) then orders canonical singles by value, with
what is not a number after infinity.
-/

namespace NeighborSearch

/-- A single precision number, by its pattern. -/
structure Single where
  /-- The pattern: sign, exponent and fraction, from the highest bit down. -/
  bits : UInt32
deriving DecidableEq, Repr

namespace Single

/-- The magnitude of infinity; greater ones are not numbers. -/
def infinityMagnitude : Nat := 0x7f800000

/-- Positive zero. -/
def zero : Single := ⟨0⟩

/-- The quiet pattern that stands for everything that is not a number. -/
def nan : Single := ⟨0x7fc00000⟩

/-- The single of a sign and a magnitude. -/
def ofMagnitude (negative : Bool) (magnitude : Nat) : Single :=
  ⟨UInt32.ofNat (if negative then 0x80000000 + magnitude else magnitude)⟩

variable (x y : Single)

/-- Whether the sign bit is set. -/
def isNegative : Bool := decide (0x80000000 ≤ x.bits.toNat)

/-- The pattern without the sign bit. -/
def magnitude : Nat := x.bits.toNat % 0x80000000

/-- Whether the pattern is not a number. -/
def isNaN : Bool := decide (infinityMagnitude < x.magnitude)

/-- Whether the pattern is an infinity. -/
def isInfinite : Bool := decide (x.magnitude = infinityMagnitude)

/-- Whether the pattern is a zero of either sign. -/
def isZero : Bool := decide (x.magnitude = 0)

/-! ## Values -/

/-- The absolute value of a finite magnitude, in units: the fraction alone when the
    exponent is zero, and otherwise the fraction after a leading one, doubled for every
    exponent above one. -/
def unitsOfMagnitude (m : Nat) : Nat :=
  let exponent := m / 0x800000
  let fraction := m % 0x800000
  if exponent = 0 then fraction else (0x800000 + fraction) <<< (exponent - 1)

/-- The value of a finite single, in units. -/
def units : Int :=
  if x.isNegative then -(unitsOfMagnitude x.magnitude : Int) else unitsOfMagnitude x.magnitude

/-- The magnitude nearest to a number of units, infinity if that is too large. With `q`
    the first 24 binary digits of the number and `s` the number of digits after them, it
    is `s * 0x800000 + q`: the leading one of `q` adds one to the exponent `s`. -/
def magnitudeOfUnits (n : Nat) : Nat :=
  let (q, s) := Rounding.significant 24 n
  min (s * 0x800000 + q) infinityMagnitude

/-! ## Addition -/

/-- The sum of two finite singles. A sum of zero is positive, unless both singles are
    negative zeros. -/
def addFinite : Single :=
  let sum := x.units + y.units
  if sum = 0 then
    ofMagnitude (x.isNegative && y.isNegative) 0
  else
    ofMagnitude (decide (sum < 0)) (magnitudeOfUnits sum.natAbs)

/-- The sum of two singles, rounded to nearest, a tie to even. -/
def add : Single :=
  if x.isNaN || y.isNaN then
    nan
  else if x.isInfinite then
    if y.isInfinite && x.isNegative != y.isNegative then nan else x
  else if y.isInfinite then
    y
  else
    addFinite x y

instance : Add Single := ⟨add⟩

/-! ## The canonical form -/

/-- The one pattern for the value of `x`: zero without its sign, and one quiet pattern
    for what is not a number. -/
def canonicalize : Single :=
  if x.isNaN then nan else if x.isZero then zero else x

/-- Whether `x` is the pattern that stands for its value. -/
def IsCanonical : Prop := x.canonicalize = x

instance : Decidable x.IsCanonical := inferInstanceAs (Decidable (_ = _))

/-- The place of a pattern in the total order of patterns: a positive one at its
    magnitude, a negative one below zero, the greater its magnitude the lower. -/
def totalKey : Int :=
  if x.isNegative then -1 - (x.magnitude : Int) else x.magnitude

@[simp] theorem canonicalize_canonicalize : x.canonicalize.canonicalize = x.canonicalize := by
  unfold canonicalize
  by_cases hn : x.isNaN
  · simp only [hn, if_true]
    decide
  · by_cases hz : x.isZero
    · simp only [hn, hz, if_true, Bool.false_eq_true, if_false]
      decide
    · simp [hn, hz]

theorem isCanonical_canonicalize : x.canonicalize.IsCanonical :=
  canonicalize_canonicalize x

theorem isCanonical_zero : zero.IsCanonical := by
  decide

end Single

end NeighborSearch
