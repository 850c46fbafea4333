import NeighborSearch.Rounding

/-!
# Double precision numbers

A *double* is a 64-bit pattern of the IEEE 754 binary64 format: a sign, eleven bits of
exponent and 52 bits of fraction. Only quotients of natural numbers are formed here, so
no sign is ever set. A finite double is a whole number of *units* of 2⁻¹⁰⁷⁴, the smallest
positive one.

A double is written with the fewest decimal digits that are read back as the same double,
and of those with the ones nearest to it (`Double.shortest`).
-/

namespace NeighborSearch

/-- A double precision number, by its pattern. -/
structure Double where
  /-- The pattern: sign, exponent and fraction, from the highest bit down. -/
  bits : UInt64
deriving DecidableEq, Repr

namespace Double

/-- The pattern of infinity. -/
def infinityPattern : Nat := 0x7ff0000000000000

/-- The number of units in one. -/
def unitsInOne : Nat := 1 <<< 1074

/-- The double nearest to `num / den`, of two equally near ones the one with an even
    fraction. With `q` the first 53 binary digits of the quotient in units and `s` the number
    of digits after them, its pattern is `s * 0x10000000000000 + q`: the leading one of `q` adds one
    to the exponent `s`. -/
def ofQuotient (num den : Nat) : Double :=
  let (q, s) := Rounding.significantQuotient 53 (num * unitsInOne) den
  ⟨UInt64.ofNat (min (s * 0x10000000000000 + q) infinityPattern)⟩

variable (x : Double)

/-- The bits of the exponent. -/
def exponent : Nat := x.bits.toNat / 0x10000000000000

/-- The bits of the fraction. -/
def fraction : Nat := x.bits.toNat % 0x10000000000000

/-- The distance to the next greater double, in units. -/
def step : Nat := 1 <<< (x.exponent - 1)

/-- The value of a finite double without a sign, in units. -/
def units : Nat := if x.exponent = 0 then x.fraction else (0x10000000000000 + x.fraction) * x.step

/-! ## Decimal digits -/

/-- A decimal number, by its digits and the power of ten that they are multiplied by. -/
structure Decimal where
  /-- The digits, as a number. -/
  digits : Nat
  /-- The power of ten. -/
  exponent : Int

/-- The least number that may be read as `x`, in quarters of a unit: the middle between `x`
    and the next smaller double, which is only half a step away where the exponent changes. -/
def lowest : Nat :=
  4 * x.units - if x.fraction = 0 ∧ 1 < x.exponent then x.step else 2 * x.step

/-- The greatest number that may be read as `x`, in quarters of a unit. -/
def highest : Nat := 4 * x.units + 2 * x.step

/-- Whether `num / den` quarters of a unit are read as `x`. The ends of the interval are if
    the fraction of `x` is even. -/
def readsAs (num den : Nat) : Bool :=
  if x.fraction % 2 = 0 then x.lowest * den ≤ num ∧ num ≤ x.highest * den
  else x.lowest * den < num ∧ num < x.highest * den

/-- A multiple of `10 ^ exponent` that is read as `x`, the nearest one: the greatest one
    not above `x`, or the next, of two equally near ones the even one. -/
def onGrid? (exponent : Int) : Option Decimal :=
  -- Everything in quarters of a unit, times the power of ten below the line.
  let unit := 4 * unitsInOne * Nat.pow 10 exponent.toNat
  let den := Nat.pow 10 (-exponent).toNat
  let value := 4 * x.units * den
  let low := value / unit
  let nearest := Rounding.divNearest value unit
  let other := if nearest = low then low + 1 else low
  if x.readsAs (nearest * unit) den then some ⟨nearest, exponent⟩
  else if x.readsAs (other * unit) den then some ⟨other, exponent⟩
  else none

/-- The fewest digits that are read as `x`, from the coarsest grid that has any. -/
def shortest : Decimal :=
  ((List.range 640).findSome? fun i : Nat => x.onGrid? (309 - (i : Int))).getD ⟨0, 0⟩

/-- The digits with a point after so many of them, and zeros where digits are lacking. -/
def Decimal.positional (digits : List Char) (point : Int) : List Char :=
  if 0 < point then
    let whole := digits.take point.toNat
    let fraction := digits.drop point.toNat
    whole ++ List.replicate (point.toNat - whole.length) '0' ++
      '.' :: (if fraction = [] then ['0'] else fraction)
  else
    '0' :: '.' :: List.replicate (-point).toNat '0' ++ digits

/-- The digits with a point after the first one, and the power of ten. -/
def Decimal.scientific (digits : List Char) (point : Int) : List Char :=
  let fraction := if digits.length ≤ 1 then [] else '.' :: digits.drop 1
  digits.take 1 ++ fraction ++ 'e' :: (toString (point - 1)).toList

/-- The number in words: positional if its point stands at most sixteen places after the
    begin of its digits and at most four before it, and otherwise with a power of ten. -/
def text : String :=
  if x.units = 0 then "0.0"
  else
    let shortest := x.shortest
    let digits := Nat.toDigits 10 shortest.digits
    let point := digits.length + shortest.exponent
    String.ofList <|
      if -5 < point ∧ point ≤ 16 then Decimal.positional digits point
      else Decimal.scientific digits point

end Double

end NeighborSearch
