import NeighborSearch.Selection.Geometry

/-!
# Memory that a selection reserves

A selection reserves memory for its output, and every group of rows reserves working memory of
its own. Each request may be refused; the selection then fails, and tells how many bytes it did
not get. `Grants` are the answers to all its requests, given beforehand, whenever they are made.
-/

namespace NeighborSearch.Selection

/-- A piece of memory that a selection reserves. -/
inductive Reservation
  /-- For the selected distances. -/
  | distances
  /-- For their columns. -/
  | indices
  /-- For the tiles of the lanes of a group. -/
  | staging (group : Nat)
  /-- For the runs that the lanes of a group leave. -/
  | front (group : Nat)
  /-- For the runs that the first merges of a group leave. -/
  | back (group : Nat)
  /-- For the lengths of the former. -/
  | frontLengths (group : Nat)
  /-- For the lengths of the latter. -/
  | backLengths (group : Nat)
deriving DecidableEq

/-- Which pieces of memory can be had. -/
abbrev Grants := Reservation → Bool

/-- Reserve memory for `count` things of `width` bytes each. -/
def reserve (granted : Grants) (r : Reservation) (count width : Nat) : Except SelectError Unit :=
  if granted r then .ok () else .error (.outOfMemory (min (count * width) Size.largest))

/-- Reserve the working memory of group `i`. -/
def reserveScratch (granted : Grants) (g : Geometry) (i : Nat) : Except SelectError Unit := do
  reserve granted (.staging i) (g.lanes * g.tile) 4
  reserve granted (.front i) (g.lanes * g.capacity) 8
  reserve granted (.back i) (g.lanes * g.capacity) 8
  reserve granted (.frontLengths i) g.lanes 8
  reserve granted (.backLengths i) (ceilDiv g.lanes 2) 8

end NeighborSearch.Selection
