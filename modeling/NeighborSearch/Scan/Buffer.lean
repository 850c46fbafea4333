import NeighborSearch.Code.Computer
import NeighborSearch.TaskOrder

/-!
# Scanning a buffer of codes

A buffer holds codes of the length of a query back to back. A *scan* writes the
distance of code `i` to the query into entry `i` of an output buffer.

The shapes are checked before anything is written, and the query is checked by the
distance: a scan that is refused leaves the output as it was. The entries are
written in some order (`TaskOrder`); since each of them depends on its own code
only, all orders leave the same output.
-/

namespace NeighborSearch

/-- Why a buffer of codes cannot be scored against a query. -/
inductive ScanError
  /-- The query has no bytes. -/
  | emptyQuery
  /-- The buffer does not consist of whole codes. -/
  | raggedCodes (length size : Nat)
  /-- The output has not one entry for every code. -/
  | outputLength (expected actual : Nat)
  /-- More neighbors are asked for than there are codes. -/
  | notEnoughCodes (k available : Nat)
  /-- The query has a length that the distance is not defined for. -/
  | codeSize (cause : CodeSizeError)
  /-- A code of the buffer was too short for the query. A checked buffer has no such
      code. -/
  | violation (cause : CodeSizeError)
deriving DecidableEq, Repr

/-- The error in words. -/
def ScanError.message : ScanError → String
  | .emptyQuery => "query codes must not be empty"
  | .raggedCodes length size =>
    s!"code buffer of {length} bytes is not a multiple of the code size {size}"
  | .outputLength expected actual =>
    s!"output buffer has length {actual} but {expected} codes were supplied"
  | .notEnoughCodes k available =>
    s!"requested {k} neighbors but only {available} codes were supplied"
  | .codeSize cause => cause.message
  | .violation cause => cause.violation

/-- Whether the codes of a scan are scored one after the other or at once. -/
inductive Parallelism
  | sequential
  | parallel
deriving DecidableEq, Repr

/-- The order in which the entries come to be written. If the codes are scored at once, it
    is the given one, which may be any. -/
def Parallelism.order : Parallelism → TaskOrder → TaskOrder
  | .sequential, _ => .forwards
  | .parallel, order => order

/-- A computation on an output buffer, which keeps the buffer also when it fails. -/
abbrev ScanM := ExceptT ScanError (StateM (Array UInt32))

namespace Scan

/-- The number of codes in the buffer, if it consists of whole codes of the length of
    the query. -/
def countCodes (query codes : Code) : Except ScanError Nat :=
  if query.length = 0 then
    .error .emptyQuery
  else if codes.length % query.length ≠ 0 then
    .error (.raggedCodes codes.length query.length)
  else
    .ok (codes.length / query.length)

/-- The same, for an output that has to have one entry for every code. -/
def checkOutput (query codes : Code) (outLength : Nat) : Except ScanError Nat := do
  let numCodes ← countCodes query codes
  if outLength ≠ numCodes then
    throw (.outputLength numCodes outLength)
  return numCodes

/-- Write the distances of the codes at the given positions, one after the other. -/
def fill (computer : Computer) (codes : Array Code) : List Nat → ScanM Unit
  | [] => pure ()
  | i :: positions => do
    match codes[i]? with
    | none => pure ()
    | some code =>
      match computer.distance code with
      | .ok distance => modify (·.setIfInBounds i distance)
      | .error cause => throw (.violation cause)
    fill computer codes positions

/-- Write the distance of every code of the buffer to the query into the output, in
    the given order. -/
def distances (measured : Distance) (query codes : Code) (order : TaskOrder) : ScanM Unit := do
  let out ← get
  let numCodes ← checkOutput query codes out.size
  let filled ← Computer.dispatch measured query fun computer =>
    fill computer (wholeChunks query.length codes).toArray (order.tasks numCodes)
  match filled with
  | .error cause => throw (.codeSize cause)
  | .ok () => return ()

end Scan

end NeighborSearch
