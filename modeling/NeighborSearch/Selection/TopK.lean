import NeighborSearch.Selection.Lane
import NeighborSearch.Selection.Matrix
import NeighborSearch.Selection.Merge
import NeighborSearch.Selection.Reservation
import NeighborSearch.TaskOrder

/-!
# The smallest biased distances of every row

To every row of a matrix of distances a bias is added, one for every column. Of the
sums of a row the `k` smallest are selected, in ascending order, each with its column;
of equal ones the lower column comes first.

A row is selected by its lanes and by merges (`Platform.selectRow`), without the biased
row ever being formed as a whole. Rows are worked on in groups that share their working
memory. Groups, the lanes of a row and the merges of a level may run at the same time: a
`Schedule` is the order in which they happen to. How singles are added and which memory
can be had is a matter of the `Platform`.

`Selection.reference` says what is selected: sort the candidates of the row and take
the first `k`.
-/

namespace NeighborSearch

/-- The orders in which what may run at the same time is done. -/
structure Schedule where
  /-- The groups of rows. -/
  groups : TaskOrder
  /-- The lanes, for every row. -/
  lanes : (row : Nat) → TaskOrder
  /-- The merges, for every row and level. -/
  merges : (row level : Nat) → TaskOrder

/-- Everything from first to last. -/
def Schedule.inOrder : Schedule where
  groups := .forwards
  lanes _ := .forwards
  merges _ _ := .forwards

/-- The result of a selection: for every row `k` distances in ascending order, and the
    columns they came from. -/
structure TopK where
  /-- The distances, row after row. -/
  distances : Array Single
  /-- The columns, row after row. -/
  indices : Array UInt32
  /-- The number of rows. -/
  nrows : Nat
  /-- The number of entries of a row. -/
  k : Nat
deriving DecidableEq

/-- The distances and the columns of a row. -/
def TopK.row? (t : TopK) (row : Nat) : Option (Array Single × Array UInt32) := do
  guard (row < t.nrows)
  let start ← Size.mul? row t.k
  let stop ← Size.mul? (row + 1) t.k
  guard (stop ≤ t.distances.size ∧ stop ≤ t.indices.size)
  return (t.distances.extract start stop, t.indices.extract start stop)

namespace Selection

/-- The candidates of the `k` smallest sums of a row, found by sorting all of them. -/
def reference (k : Nat) (row bias : List Single) : List Candidate :=
  (Candidate.sort (laneCandidates 0 row bias)).take k

/-- That `k` candidates can be selected from rows of `ncols` columns with a bias of
    `biasLength` entries. -/
def checkArguments (ncols biasLength k : Nat) : Except SelectError Unit :=
  if k = 0 then
    .error (.invalidArgument .zeroCount)
  else if k > ncols then
    .error (.invalidArgument (.countExceeds k ncols))
  else if biasLength ≠ ncols then
    .error (.invalidArgument (.biasLength biasLength ncols))
  else if ncols - 1 ≥ 0x100000000 then
    .error (.invalidArgument (.tooManyCandidates ncols))
  else
    .ok ()

/-- A fault makes the launch fail. -/
def orFail {α : Type} : Except Fault α → Except SelectError α
  | .ok a => .ok a
  | .error fault => .error fault.toError

/-- What the groups write: the distances and the columns of the selected candidates. -/
structure Output where
  distances : Array Single
  indices : Array UInt32

/-- What a selection runs on. -/
structure Platform where
  /-- The sum of the value in some row and column and its bias. -/
  add : (row column : Nat) → Single → Single → Single
  /-- Which pieces of memory can be had. -/
  granted : Grants

namespace Platform

/-- Singles are added one way everywhere, and all memory can be had. -/
def standard : Platform := ⟨fun _ _ x y => x + y, fun _ => true⟩

/-- Only some pieces of memory can be had. -/
def granting (granted : Grants) : Platform := { standard with granted }

variable (p : Platform)

/-- Select from row number `q`, with the given working memory. -/
def selectRow (schedule : Schedule) (g : Geometry) (k : Nat) (bias : Array Single) (q : Nat)
    (row : Array Single) (s : Scratch) : Except SelectError (List Candidate × Scratch) := do
  let lanes := Lane.Operations.adding (p.add q)
  let ⟨staging, front, back⟩ ←
    orFail (lanes.runAll g row bias ((schedule.lanes q).tasks g.lanes) s)
  let (last, front, back) ←
    orFail (Merge.levels k (schedule.merges q) g.lanes 0 g.capacity front back)
  let candidates ← Merge.selected k last
  return (candidates, ⟨staging, front, back⟩)

/-- Select from rows one after the other, from row number `q` on. -/
def selectRows (schedule : Schedule) (g : Geometry) (k : Nat) (bias : Array Single) :
    (q : Nat) → List (List Single) → Scratch → Except SelectError (List Candidate)
  | _, [], _ => .ok []
  | q, row :: rows, s => do
    let (candidates, s) ← p.selectRow schedule g k bias q row.toArray s
    return candidates ++ (← selectRows schedule g k bias (q + 1) rows s)

/-- The work of group `i`, in working memory of its own: select from its rows, and write
    what is selected to its own piece of the output. -/
def runGroup (schedule : Schedule) (g : Geometry) (m : Matrix Single) (k : Nat)
    (bias : Array Single) (rowsPerGroup i : Nat) : Output → Except SelectError Output
  | ⟨distances, indices⟩ => do
    reserveScratch p.granted g i
    let entries ← orFail (Buffer.mul rowsPerGroup m.ncols)
    let results ← orFail (Buffer.mul rowsPerGroup k)
    let rows ← orFail (Buffer.piece entries i m.entries)
    -- All rows of the group are worked on in the same memory, which is not cleared.
    let scratch ← orFail (Scratch.allocate g)
    let candidates ← p.selectRows schedule g k bias (rowsPerGroup * i)
      (wholeChunks m.ncols rows.toList) scratch
    let distances ← orFail (Buffer.write distances (results * i) (candidates.map (·.distance)))
    let indices ← orFail (Buffer.write indices (results * i) (candidates.map (·.index)))
    return ⟨distances, indices⟩

/-- Select from every row of the matrix, under a given schedule. -/
def fusedTopK (schedule : Schedule) (m : Matrix Single) (bias : Array Single) (k : Nat)
    (config : LaunchConfig) : Except SelectError TopK := do
  checkArguments m.ncols bias.size k
  let g := Geometry.fit m.ncols k config
  match Size.mul? m.nrows k with
  | none => throw (.outOfMemory Size.largest)
  | some size =>
    reserve p.granted .distances size 4
    reserve p.granted .indices size 4
    let out : Output := ⟨Array.replicate size .zero, Array.replicate size 0⟩
    -- No group is larger than the matrix, so that its extents do not overflow.
    let rowsPerGroup := min config.rowsPerGroup.toNat m.nrows
    let groups := schedule.groups.tasks (ceilDiv m.nrows rowsPerGroup)
    let out ← groups.foldlM (fun out i => p.runGroup schedule g m k bias rowsPerGroup i out) out
    return ⟨out.distances, out.indices, m.nrows, k⟩

end Platform

/-- Select from row number `q`, with the given working memory. -/
def selectRow (schedule : Schedule) (g : Geometry) (k : Nat) (bias : Array Single) (q : Nat)
    (row : Array Single) (s : Scratch) : Except SelectError (List Candidate × Scratch) :=
  Platform.standard.selectRow schedule g k bias q row s

/-- Select from rows one after the other, from row number `q` on. -/
def selectRows (schedule : Schedule) (g : Geometry) (k : Nat) (bias : Array Single) (q : Nat)
    (rows : List (List Single)) (s : Scratch) : Except SelectError (List Candidate) :=
  Platform.standard.selectRows schedule g k bias q rows s

/-- The work of group `i`, in working memory of its own. -/
def runGroup (schedule : Schedule) (g : Geometry) (m : Matrix Single) (k : Nat)
    (bias : Array Single) (rowsPerGroup i : Nat) (out : Output) : Except SelectError Output :=
  Platform.standard.runGroup schedule g m k bias rowsPerGroup i out

/-- Select from every row of the matrix, under a given schedule. -/
def fusedTopKUnder (schedule : Schedule) (m : Matrix Single) (bias : Array Single) (k : Nat)
    (config : LaunchConfig) : Except SelectError TopK :=
  Platform.standard.fusedTopK schedule m bias k config

/-- Select from every row of the matrix with the memory that can be had. -/
def fusedTopKGranted (granted : Grants) (schedule : Schedule) (m : Matrix Single)
    (bias : Array Single) (k : Nat) (config : LaunchConfig) : Except SelectError TopK :=
  (Platform.granting granted).fusedTopK schedule m bias k config

/-- Select the `k` smallest biased distances of every row of the matrix. -/
def fusedTopK (m : Matrix Single) (bias : Array Single) (k : Nat) (config : LaunchConfig) :
    Except SelectError TopK :=
  fusedTopKUnder .inOrder m bias k config

end Selection

end NeighborSearch
