import NeighborSearch.Selection.Buffer
import NeighborSearch.Selection.Config

/-!
# How a row is cut up

A row is cut into *lanes*, slices of one length of which the last may be shorter. A
lane takes its columns a *tile* at a time and keeps as many candidates as it can
contribute to the result, at most `k` and at most as many as it has columns.
-/

namespace NeighborSearch

/-- How a row is cut up. -/
structure Geometry where
  /-- The number of lanes, none of them empty. -/
  lanes : Nat
  /-- The number of columns of a lane. -/
  laneLen : Nat
  /-- The number of columns that a lane takes at a time. -/
  tile : Nat
  /-- The number of candidates that a lane keeps. -/
  capacity : Nat
deriving DecidableEq, Repr

/-- `a / b`, rounded up. -/
def ceilDiv (a b : Nat) : Nat := (a + (b - 1)) / b

namespace Geometry

/-- The geometry for rows of `ncols` columns of which `k` are selected, for
    `1 ≤ k ≤ ncols`. The length of a lane is what the number of lanes asked for makes
    it; rounded up, it may leave fewer lanes. -/
def fit (ncols k : Nat) (config : LaunchConfig) : Geometry :=
  let laneLen := ceilDiv ncols (min config.lanes.toNat ncols)
  { lanes := ceilDiv ncols laneLen
    laneLen := laneLen
    tile := min config.tile.toNat laneLen
    capacity := min k laneLen }

end Geometry

/-- The working memory of a group of rows. -/
structure Scratch where
  /-- Room for one tile of every lane. -/
  staging : Array Single
  /-- The runs that the lanes leave. -/
  front : RunBuffer
  /-- The runs that the first merges leave. -/
  back : RunBuffer

/-- Fresh working memory for rows cut up in the given way. -/
def Scratch.allocate (g : Geometry) : Except Fault Scratch := do
  let slots ← Buffer.mul g.lanes g.capacity
  let staged ← Buffer.mul g.lanes g.tile
  return {
    staging := Array.replicate staged .zero
    front := ⟨Array.replicate slots .blank, #[], g.lanes⟩
    back := ⟨Array.replicate slots .blank, #[], ceilDiv g.lanes 2⟩ }

end NeighborSearch
