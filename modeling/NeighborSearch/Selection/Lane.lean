import NeighborSearch.Chunk
import NeighborSearch.Selection.BoundedHeap
import NeighborSearch.Selection.Geometry

/-!
# What a lane does

Lane `i` of a row takes its columns a tile at a time: it adds the bias to the values
of the tile, in its own piece of the staging memory, and offers the sums to a bounded
heap in its own piece of the front buffer. It leaves the candidates it has kept there
as run `i`, in ascending order.

Lanes may be run with any `Operations` for the sums and for the pushes, in any monad in
which buffers may fail; those of a selection are the `standard` ones.

`laneCandidates` is the list of the candidates that a lane offers, in the order of its
columns.
-/

namespace NeighborSearch

/-- The sums of the values of some columns with their biases. -/
def biased (values bias : List Single) : List Single :=
  List.zipWith (· + ·) values bias

/-- The sums as candidates, the first one of the given column. -/
def candidatesFrom (column : Nat) (sums : List Single) : List Candidate :=
  sums.zipIdx.map fun (sum, i) => .of sum (UInt32.ofNat (column + i))

/-- The candidates that the columns of a lane make, the first one of the given column. -/
def laneCandidates (column : Nat) (values bias : List Single) : List Candidate :=
  candidatesFrom column (biased values bias)

namespace Lane

/-- A lane at work: its heap, its staging memory and the next column. -/
structure State (n : Nat) where
  heap : BoundedHeap n
  staging : Array Single
  column : Nat

/-- What lanes are run with. -/
structure Operations (μ : Type → Type) where
  /-- The sum of the value in some column and its bias. -/
  add : (column : Nat) → Single → Single → Single
  /-- Push a candidate into the heap of a lane. -/
  push : {n : Nat} → (lane : Nat) → BoundedHeap n → Candidate → μ (BoundedHeap n)

namespace Operations

/-- Pushes of which nothing comes but what becomes of the heap. -/
def adding (add : (column : Nat) → Single → Single → Single) : Operations (Except Fault) where
  add
  push _ heap c := .ok (heap.push c)

/-- The operations of a selection. -/
def standard : Operations (Except Fault) := adding fun _ x y => x + y

variable {μ : Type → Type} (ops : Operations μ)

/-- The sums of the values of some columns with their biases, the first one in the given
    column. -/
def sums (column : Nat) (values bias : List Single) : List Single :=
  List.zipWith (fun value y => ops.add value.2 value.1 y) (values.zipIdx column) bias

variable [Monad μ] [MonadLiftT (Except Fault) μ]

/-- Take one tile: stage the sums of its values with their biases, and push them. -/
def takeTile {n : Nat} (lane : Nat) : State n → (values bias : List Single) → μ (State n)
  | ⟨heap, staging, column⟩, values, bias => do
    let staging ← Buffer.write staging 0 (ops.sums column values bias)
    let sums ← Buffer.slice staging 0 values.length
    let offered := candidatesFrom column sums.toList
    let heap ← offered.foldlM (ops.push lane) heap
    return ⟨heap, staging, column + offered.length⟩

/-- Take the tiles one after the other. -/
def takeTiles {n : Nat} (lane : Nat) (s : State n) : List (List Single × List Single) → μ (State n)
  | [] => return s
  | (values, bias) :: tiles => do takeTiles lane (← ops.takeTile lane s values bias) tiles

/-- The work of lane `i` of a row. -/
def run (g : Geometry) (row bias : Array Single) (i : Nat) : Scratch → μ Scratch
  | ⟨staging, ⟨slots, lengths, reserved⟩, back⟩ => do
    let values ← Buffer.piece g.laneLen i row
    let laneBias ← Buffer.piece g.laneLen i bias
    -- The heap and the sums lie in pieces that no other lane touches.
    let storage ← Buffer.piece g.capacity i slots
    let staged ← Buffer.piece g.tile i staging
    let column ← Buffer.mul i g.laneLen
    let tiles := (chunks g.tile values.toList).zip (chunks g.tile laneBias.toList)
    let done ← ops.takeTiles i ⟨.empty storage.toVector, staged, column⟩ tiles
    let slots ← Buffer.write slots (g.capacity * i) done.heap.sortedSlots
    let lengths ← Buffer.setEntry lengths i done.heap.size
    let staging ← Buffer.write staging (g.tile * i) done.staging.toList
    return ⟨staging, ⟨slots, lengths, reserved⟩, back⟩

/-- The work of all lanes of a row, in the given order. -/
def runAll (g : Geometry) (row bias : Array Single) (order : List Nat) (s : Scratch) :
    μ Scratch := do
  let front ← s.front.reset g.lanes
  order.foldlM (fun s i => ops.run g row bias i s) { s with front }

end Operations

/-- The work of lane `i` of a row in a selection. -/
def run (g : Geometry) (row bias : Array Single) (i : Nat) : Scratch → Except Fault Scratch :=
  Operations.standard.run g row bias i

/-- The work of all lanes of a row in a selection, in the given order. -/
def runAll (g : Geometry) (row bias : Array Single) (order : List Nat) :
    Scratch → Except Fault Scratch :=
  Operations.standard.runAll g row bias order

end Lane

end NeighborSearch
