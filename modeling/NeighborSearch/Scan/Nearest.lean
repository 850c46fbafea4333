import NeighborSearch.Scan.Buffer

/-!
# Nearest codes

The `k` codes of a buffer that are nearest to a query in bitwise distance, the
nearest first and of two equally near codes the earlier one.

All codes become *neighbors*, a distance with a position. If fewer than all are
wanted, the neighbors are first rearranged so that the `k` smallest stand in front,
in any order; only these are then sorted. Which rearrangement and which sort are
used makes no difference, since no two neighbors of a buffer are equal.
-/

namespace NeighborSearch

/-- A code of a buffer, by its position, with its distance to a query. -/
structure Neighbor where
  /-- The distance to the query. -/
  distance : UInt32
  /-- The position of the code. -/
  id : Nat
deriving DecidableEq, Repr

namespace Neighbor

/-- The nearer neighbor comes first, and of two equally near ones the earlier. -/
instance : LE Neighbor where
  le a b := a.distance < b.distance ∨ a.distance = b.distance ∧ a.id ≤ b.id

instance : LT Neighbor where
  lt a b := a.distance < b.distance ∨ a.distance = b.distance ∧ a.id < b.id

instance (a b : Neighbor) : Decidable (a ≤ b) :=
  inferInstanceAs (Decidable (a.distance < b.distance ∨ a.distance = b.distance ∧ a.id ≤ b.id))

instance (a b : Neighbor) : Decidable (a < b) :=
  inferInstanceAs (Decidable (a.distance < b.distance ∨ a.distance = b.distance ∧ a.id < b.id))

/-- The neighbors in ascending order. -/
def sort (xs : List Neighbor) : List Neighbor :=
  xs.mergeSort fun a b => decide (a ≤ b)

/-- The neighbors that are smaller than the pivot. -/
def below (pivot : Neighbor) (xs : List Neighbor) : List Neighbor :=
  xs.filter fun x => decide (x < pivot)

/-- The neighbors that are not smaller than the pivot. -/
def notBelow (pivot : Neighbor) (xs : List Neighbor) : List Neighbor :=
  xs.filter fun x => !decide (x < pivot)

theorem length_below_le (pivot : Neighbor) (xs : List Neighbor) :
    (below pivot xs).length ≤ xs.length :=
  List.length_filter_le ..

theorem length_notBelow_le (pivot : Neighbor) (xs : List Neighbor) :
    (notBelow pivot xs).length ≤ xs.length :=
  List.length_filter_le ..

/-- The middle one of three neighbors. -/
def median (a b c : Neighbor) : Neighbor :=
  if a < b then
    if b < c then b else if a < c then c else a
  else
    if a < c then a else if b < c then c else b

/-- The middle one of three is one of them. -/
theorem median_eq (a b c : Neighbor) :
    median a b c = a ∨ median a b c = b ∨ median a b c = c := by
  unfold median
  repeat' split
  all_goals simp

theorem half_length_lt {xs : List Neighbor} (h : xs ≠ []) : xs.length / 2 < xs.length :=
  Nat.div_lt_self (List.length_pos_iff.2 h) (Nat.lt_succ_self 1)

/-- The neighbor at which a list is parted: the middle one of the first, the central and
    the last, so that a list in order is parted evenly. -/
def pivot (xs : List Neighbor) (h : xs ≠ []) : Neighbor :=
  median (xs.head h) (xs.get ⟨xs.length / 2, half_length_lt h⟩) (xs.getLast h)

theorem pivot_mem (xs : List Neighbor) (h : xs ≠ []) : pivot xs h ∈ xs := by
  unfold pivot
  rcases median_eq (xs.head h) _ (xs.getLast h) with e | e | e <;> rw [e]
  · exact List.head_mem h
  · exact List.get_mem _ _
  · exact List.getLast_mem h

theorem length_erase_pivot_lt (xs : List Neighbor) (h : xs ≠ []) :
    (xs.erase (pivot xs h)).length < xs.length := by
  rw [List.length_erase_of_mem (pivot_mem xs h)]
  exact Nat.sub_one_lt_of_lt (List.length_pos_iff.2 h)

/-- The neighbors rearranged so that the one of the given rank in ascending order
    stands at that place, none greater before it and none smaller after it: the list is
    parted at a pivot, and the part that the rank falls into is rearranged in the same
    way. -/
def partAt (rank : Nat) (xs : List Neighbor) : List Neighbor :=
  if h : xs ≠ [] then
    let middle := pivot xs h
    let smaller := below middle (xs.erase middle)
    let greater := notBelow middle (xs.erase middle)
    if rank < smaller.length then
      partAt rank smaller ++ middle :: greater
    else
      smaller ++ middle :: partAt (rank - smaller.length - 1) greater
  else
    []
termination_by xs.length
decreasing_by
  · exact Nat.lt_of_le_of_lt (length_below_le ..) (length_erase_pivot_lt xs h)
  · exact Nat.lt_of_le_of_lt (length_notBelow_le ..) (length_erase_pivot_lt xs h)

end Neighbor

namespace Scan

/-- The distances of all codes of the buffer, or why the scan is refused. -/
def allDistances (measured : Distance) (query codes : Code) (numCodes : Nat)
    (order : TaskOrder) : Except ScanError (Array UInt32) :=
  match (distances measured query codes order).run (Array.replicate numCodes 0) with
  | (.ok (), out) => .ok out
  | (.error e, _) => .error e

/-- The `k` nearest codes, found by the given rearrangement and sort. -/
def nearestBy (rearrange : (rank : Nat) → List Neighbor → List Neighbor)
    (sort : List Neighbor → List Neighbor) (query codes : Code) (k : Nat)
    (order : TaskOrder) : Except ScanError (List Neighbor) := do
  let numCodes ← countCodes query codes
  if k > numCodes then
    throw (.notEnoughCodes k numCodes)
  if k = 0 then
    return []
  let distances ← allDistances .bitwise query codes numCodes order
  let neighbors := distances.toList.zipIdx.map fun (distance, id) => ⟨distance, id⟩
  if k < neighbors.length then
    -- All that are needed stand among the first `k`, in no particular order.
    return sort ((rearrange (k - 1) neighbors).take k)
  else
    return sort neighbors

/-- The `k` nearest codes of the buffer to the query, in ascending order. -/
def nearest (query codes : Code) (k : Nat) (order : TaskOrder) :
    Except ScanError (List Neighbor) :=
  nearestBy Neighbor.partAt Neighbor.sort query codes k order

end Scan

end NeighborSearch
