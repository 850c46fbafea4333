import NeighborSearch.Bindings
import NeighborSearch.Device.Stream
import NeighborSearch.Selection.TopK

/-!
# What a device is asked to do

A device holds matrices and vectors under names, and streams to launch selections and
other kernels on. The commands that concern stored values only are carried out here;
they are the same however launches are run.
-/

namespace NeighborSearch

/-- What a launch results in. -/
inductive Outcome
  /-- The result of a selection. -/
  | topK (t : TopK)
  /-- The number of lanes a kernel was given. -/
  | lanes (n : Nat)

/-- A command that concerns stored values. -/
inductive StoreCommand
  /-- Store a matrix. -/
  | matrix (name : String) (entries : Array Single) (nrows ncols : Nat)
  /-- Store a vector. -/
  | vector (name : String) (entries : Array Single)
  /-- Select at once, on no stream. -/
  | select (matrix bias : String) (k : Nat)
  /-- Show a row of a matrix. -/
  | row (matrix : String) (row : Nat)

/-- What to launch. -/
inductive Request
  /-- The selection of the `k` smallest biased entries of every row. -/
  | select (matrix bias : String) (k : Nat)
  /-- Some kernel. -/
  | kernel (kernel : Kernel Outcome)

/-- A command to a device. -/
inductive Command
  /-- Concern stored values. -/
  | store (c : StoreCommand)
  /-- Make a new stream of this name. -/
  | openStream (stream : String)
  /-- Drop a stream, once its launches are done. -/
  | closeStream (stream : String)
  /-- Launch on a stream, and keep the pending result under a name. -/
  | launch (stream : String) (request : Request) (pending : String)
  /-- Wait for a pending result. -/
  | wait (pending : String)
  /-- Drop a pending result. -/
  | forget (pending : String)
  /-- Wait until everything launched on a stream is done, and ask for its error. -/
  | synchronize (stream : String)
  /-- Describe a stream. -/
  | describe (stream : String)

/-- The answer to a command. -/
inductive Answer
  /-- It is done. -/
  | done
  /-- The extents of a matrix. -/
  | extents (nrows ncols : Nat)
  /-- The number of entries of a vector. -/
  | length (n : Nat)
  /-- The result of a launch or a selection. -/
  | outcome (o : Outcome)
  /-- A row, if the matrix has it. -/
  | row (entries : Option (Array Single))
  /-- A description. -/
  | description (text : String)
  /-- The entries do not make a matrix. -/
  | misshapen (e : ShapeError)
  /-- The launch or the selection failed. -/
  | failed (e : SelectError)
  /-- Nothing has this name. -/
  | unknown (name : String)

/-- The answer of a result. -/
def Answer.ofResult : Except SelectError Outcome → Answer
  | .ok o => .outcome o
  | .error e => .failed e

/-- The stored values, by their names. -/
structure Store where
  matrices : Bindings (Matrix Single)
  vectors : Bindings (Array Single)

namespace Store

/-- Nothing is stored. -/
def empty : Store := ⟨[], []⟩

/-- The matrix and the vector of some names. -/
def operands (s : Store) (matrix bias : String) :
    Except Answer (Matrix Single × Array Single) := do
  let some m := s.matrices.get? matrix | throw (.unknown matrix)
  let some b := s.vectors.get? bias | throw (.unknown bias)
  return (m, b)

/-- Carry out a command that concerns stored values. -/
def perform (config : LaunchConfig) (s : Store) : StoreCommand → Store × Answer
  | .matrix name entries nrows ncols =>
    match Matrix.ofArray? entries nrows ncols with
    | .ok m => ({ s with matrices := s.matrices.put name m }, .extents m.nrows m.ncols)
    | .error e => (s, .misshapen e)
  | .vector name entries =>
    ({ s with vectors := s.vectors.put name entries }, .length entries.size)
  | .select matrix bias k =>
    match s.operands matrix bias with
    | .error a => (s, a)
    | .ok (m, b) => (s, .ofResult (.topK <$> Selection.fusedTopK m b k config))
  | .row matrix row =>
    match s.matrices.get? matrix with
    | some m => (s, .row (m.row? row))
    | none => (s, .unknown matrix)

/-- The kernel that a request asks for, with the values stored now. A selection with
    wrong arguments is refused. -/
def kernel (s : Store) : Request → Except Answer (Kernel Outcome)
  | .kernel kernel => .ok kernel
  | .select matrix bias k => do
    let (m, b) ← s.operands matrix bias
    match Selection.checkArguments m.ncols b.size k with
    | .error e => throw (.failed e)
    | .ok () =>
      return fun config => .returned (.topK <$> Selection.fusedTopK m b k config)

end Store

end NeighborSearch
