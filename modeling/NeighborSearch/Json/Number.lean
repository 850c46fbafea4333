import NeighborSearch.Json.Value
import NeighborSearch.Rounding

/-!
# Numbers in JSON texts

A number is digits, of which the first is zero only if it is alone, then perhaps a
point with digits and an exponent. Without the latter two it is an integer if 64 bits
hold it; a negative zero is not an integer.

All other numbers are read as double precision numbers, of which only one thing
matters here: they must not be too large. They are read with as many digits as a
64-bit word holds; the digits after those count as powers of ten.
-/

namespace NeighborSearch.Json.Number

/-- The first number of digits that a significand does not hold. -/
def significandLimit : Nat := 0x10000000000000000

/-- Append digits to a significand as long as it holds them. The number of digits left
    over comes second. -/
def absorb : (significand : Nat) → List Char → Nat × Nat
  | significand, [] => (significand, 0)
  | significand, d :: digits =>
    let next := 10 * significand + (d.toNat - '0'.toNat)
    if next < significandLimit then absorb next digits else (significand, digits.length + 1)

/-- Whether `significand * 10 ^ exponent` is too large for double precision: it lies
    half a step or more beyond the largest number when significand and power are each
    rounded to 53 binary digits first. Powers beyond the 308th are out of range. -/
def isTooLarge (significand : Nat) (exponent : Int) : Bool :=
  if significand = 0 ∨ exponent < 0 then
    false
  else if 308 < exponent then
    true
  else
    decide ((1 <<< 1024) - (1 <<< 970) ≤
      Rounding.toDigits 53 significand * Rounding.toDigits 53 (Nat.pow 10 exponent.toNat))

/-- What has been read of a number: its text so far, the significand, the power of ten
    it is multiplied by, and the text that follows. -/
structure Scanned where
  text : List Char
  significand : Nat
  exponent : Int
  rest : List Char

/-- At least one digit. -/
def digits1 (cs : List Char) : Except ReadError (List Char × List Char) :=
  match cs.span Char.isDigit with
  | ([], []) => .error .endOfText
  | ([], _ :: _) => .error .malformed
  | (ds, rest) => .ok (ds, rest)

/-- The digits before the point. -/
def integerPart (cs : List Char) : Except ReadError Scanned := do
  let (ds, rest) ← digits1 cs
  match ds with
  | '0' :: _ :: _ => .error .malformed
  | _ =>
    let (significand, dropped) := absorb 0 ds
    return ⟨ds, significand, dropped, rest⟩

/-- The point and the digits after it, if there are any. -/
def fractionPart (p : Scanned) : Except ReadError Scanned :=
  match p.rest with
  | '.' :: cs => do
    let (ds, rest) ← digits1 cs
    let (significand, dropped) := absorb p.significand ds
    return ⟨p.text ++ '.' :: ds, significand, p.exponent - (ds.length - dropped : Nat), rest⟩
  | _ => .ok p

/-- The sign of an exponent, which may be left out, and what follows it. -/
def exponentSign : List Char → List Char × List Char
  | '+' :: cs => (['+'], cs)
  | '-' :: cs => (['-'], cs)
  | cs => ([], cs)

/-- The largest exponent that is told from those above it. -/
def exponentLimit : Nat := 0x7FFFFFFF

/-- The exponent that some digits write. Beyond the limit it is not counted any further,
    since the other digits of a number do not outweigh it. -/
def exponentOf (ds : List Char) : Nat :=
  ds.foldl (fun n d => min exponentLimit (10 * n + (d.toNat - '0'.toNat))) 0

/-- The exponent, if there is one. -/
def exponentPart (p : Scanned) : Except ReadError Scanned :=
  match p.rest with
  | e :: cs =>
    if e = 'e' ∨ e = 'E' then do
      let (sign, cs) := exponentSign cs
      let (ds, rest) ← digits1 cs
      let written : Int := exponentOf ds
      let exponent := p.exponent + (if sign = ['-'] then -written else written)
      return ⟨p.text ++ e :: (sign ++ ds), p.significand, exponent, rest⟩
    else .ok p
  | [] => .ok p

/-- The integer of a sign and an absolute value, if 64 bits hold it. -/
def integer? (negative : Bool) (n : Nat) : Option Int :=
  if negative then
    if 0 < n ∧ n ≤ 0x8000000000000000 then some (-(n : Int)) else none
  else
    if n < significandLimit then some n else none

/-- The number that begins with the given digits, after its sign. -/
def read (negative : Bool) (cs : List Char) : Except ReadError (Json × List Char) := do
  let whole ← integerPart cs
  let p ← exponentPart (← fractionPart whole)
  -- Neither a fraction nor an exponent, and no digit that was too much.
  if whole.exponent = 0 ∧ p.text = whole.text then
    if let some n := integer? negative whole.significand then
      return (.int n, p.rest)
  if isTooLarge p.significand p.exponent then
    throw .malformed
  return (.real (String.ofList (if negative then '-' :: p.text else p.text)), p.rest)

end NeighborSearch.Json.Number
