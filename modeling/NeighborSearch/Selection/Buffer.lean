import NeighborSearch.Selection.Candidate
import NeighborSearch.Selection.Error
import NeighborSearch.Size

/-!
# Working memory of a selection

A selection works in buffers that are set aside beforehand, and reads and writes
pieces of them. A product that is too large to be a size, a piece that a buffer does
not have, and more entries than were reserved are *faults*. With a geometry that
fits the row, none of them occurs.
-/

namespace NeighborSearch

/-- What can go wrong with a buffer. -/
inductive Fault
  /-- A product is too large to be a size. -/
  | sizeOverflow
  /-- A buffer does not have the piece asked for. -/
  | outOfRange
  /-- A buffer has not the room reserved for so many entries. -/
  | reservationExceeded
deriving DecidableEq, Repr

/-- A fault makes a launch fail. -/
def Fault.toError : Fault → SelectError
  | .sizeOverflow => .launchFailed "a size is too large"
  | .outOfRange => .launchFailed "a buffer does not have the piece asked for"
  | .reservationExceeded => .launchFailed "a buffer has no room for so many runs"

namespace Buffer

variable {α : Type}

/-- The product of two sizes. -/
def mul (a b : Nat) : Except Fault Nat :=
  match Size.mul? a b with
  | some c => .ok c
  | none => .error .sizeOverflow

/-- The entries from `start` up to `stop`. -/
def slice (xs : Array α) (start stop : Nat) : Except Fault (Array α) :=
  if start ≤ stop ∧ stop ≤ xs.size then .ok (xs.extract start stop) else .error .outOfRange

/-- Piece `i` of the pieces of `n` entries that the buffer is cut into; the last one may
    be shorter. -/
def piece (n i : Nat) (xs : Array α) : Except Fault (Array α) :=
  if n * i < xs.size then .ok (xs.extract (n * i) (n * i + n)) else .error .outOfRange

/-- The buffer with `ys` in the place of the entries from `start` on, as far as it goes. -/
def overwrite (xs : Array α) (start : Nat) : List α → Array α
  | [] => xs
  | y :: ys => overwrite (xs.setIfInBounds start y) (start + 1) ys

/-- Put `ys` in the place of the entries from `start` on. -/
def write (xs : Array α) (start : Nat) (ys : List α) : Except Fault (Array α) :=
  if start + ys.length ≤ xs.size then .ok (overwrite xs start ys) else .error .outOfRange

/-- Set one entry. -/
def setEntry (xs : Array α) (i : Nat) (x : α) : Except Fault (Array α) :=
  if h : i < xs.size then .ok (xs.set i x h) else .error .outOfRange

@[simp] theorem size_overwrite (xs : Array α) (start : Nat) (ys : List α) :
    (overwrite xs start ys).size = xs.size := by
  induction ys generalizing xs start with
  | nil => rfl
  | cons y ys ih => rw [overwrite, ih, Array.size_setIfInBounds]

/-- What lies before the entries that are put in and after them stays as it is. -/
theorem toList_overwrite {xs : Array α} {start : Nat} {ys : List α}
    (h : start + ys.length ≤ xs.size) :
    (overwrite xs start ys).toList =
      xs.toList.take start ++ ys ++ xs.toList.drop (start + ys.length) := by
  induction ys generalizing xs start with
  | nil => simp [overwrite]
  | cons y ys ih =>
    rw [List.length_cons] at h
    have hs : start < xs.toList.length := by rw [Array.length_toList]; omega
    have hr : start + 1 + ys.length ≤ (xs.setIfInBounds start y).size := by
      rw [Array.size_setIfInBounds]; omega
    have hd : start + 1 + ys.length = start + (ys.length + 1) := by omega
    rw [overwrite, ih hr, Array.toList_setIfInBounds, List.length_cons, hd,
      List.drop_set_of_lt (by omega), List.take_add_one, List.take_set_of_le (Nat.le_refl _),
      List.getElem?_set_self hs]
    simp

end Buffer

/-- Sorted runs of candidates, side by side in one buffer, at equal distances. -/
structure RunBuffer where
  /-- The candidates. -/
  slots : Array Candidate
  /-- The lengths of the runs. -/
  lengths : Array Nat
  /-- The number of runs that there is room for. -/
  reserved : Nat

/-- Make room for `n` runs, all empty at first. The candidates stay as they are. -/
def RunBuffer.reset (b : RunBuffer) (n : Nat) : Except Fault RunBuffer :=
  if n ≤ b.reserved then
    .ok { b with lengths := Array.replicate n 0 }
  else
    .error .reservationExceeded

end NeighborSearch
