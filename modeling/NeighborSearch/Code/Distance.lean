import NeighborSearch.Code.Word

/-!
# Distances between codes

Two codes of one length are compared by the bits they differ in (the *bitwise*
distance) or by the bytes they differ in (the *generalized* distance).

The distances are defined one byte at a time: as natural numbers (`differingBits`,
`differingBytes`), and as the 32-bit counts that a program hands out
(`bitDistance`, `byteDistance`), which look the bits of a byte up in a table and
refuse codes of two lengths. However a code is scored elsewhere, the result is one
of these.

A code either has to have one particular length, or any length that is a multiple of
some number of bytes. A reference code of another length is refused; a candidate code
that is too short breaks the promise its caller made, which is a *violation*.
-/

namespace NeighborSearch

/-! ## Codes of the wrong size -/

/-- Why the length of a code is not the one required. -/
inductive CodeSizeError
  /-- The code should have had `expected` bytes. -/
  | mismatch (expected actual : Nat)
  /-- The length of the code should have been a multiple of `unit`. -/
  | notMultiple (unit actual : Nat)
deriving DecidableEq, Repr

namespace CodeSizeError

/-- The error in words. -/
def message : CodeSizeError → String
  | .mismatch expected actual =>
    s!"expected a code of {expected} bytes, instead got {actual}"
  | .notMultiple unit actual =>
    s!"expected a code whose length is a multiple of {unit} bytes, instead got {actual}"

/-- What is said of a caller that was bound to supply a code of the right size. -/
def violation (e : CodeSizeError) : String :=
  "binary code size violation: " ++ e.message

end CodeSizeError

/-! ## Distances -/

/-- What is counted between two codes. -/
inductive Distance
  /-- The bits in which they differ. -/
  | bitwise
  /-- The bytes in which they differ. -/
  | generalized
deriving DecidableEq, Repr

/-- The name under which a distance is chosen and shown. -/
def Distance.name : Distance → String
  | .bitwise => "bitwise"
  | .generalized => "generalized"

namespace Code

/-- The number of bits in which two codes differ, as far as both go. -/
def differingBits (x y : Code) : Nat :=
  (List.zipWith (fun a b => bitCount 8 (a ^^^ b).toNat) x y).foldr (· + ·) 0

/-- The number of bytes in which two codes differ, as far as both go. -/
def differingBytes (x y : Code) : Nat :=
  (List.zip x y).countP fun (a, b) => a ≠ b

/-- Codes are compared only if they have the same length. -/
def checkLengths (x y : Code) : Except CodeSizeError Unit :=
  if x.length = y.length then .ok () else .error (.mismatch x.length y.length)

/-- The bitwise distance of two codes of one length. -/
def bitDistance (x y : Code) : Except CodeSizeError UInt32 := do
  checkLengths x y
  return Word.total (List.zipWith (fun a b => (Word.byteCount (a ^^^ b)).toUInt32) x y)

/-- The generalized distance of two codes of one length. -/
def byteDistance (x y : Code) : Except CodeSizeError UInt32 := do
  checkLengths x y
  return UInt32.ofNat (differingBytes x y)

end Code

end NeighborSearch
