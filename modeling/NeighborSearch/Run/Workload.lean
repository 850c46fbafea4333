import NeighborSearch.Device.Session
import NeighborSearch.Random.Source
import NeighborSearch.Run.Error
import NeighborSearch.Scan.Nearest

/-!
# Workloads

A *workload* is a run with its data: what is done in every measurement. To perform it
gives a *checksum* of the result, and the workload as it is afterwards; an output buffer
and a device are used again by the next measurement.

The data is drawn when the workload is prepared, for a scan the query before the codes,
for a selection the matrix before the bias. Nothing is drawn for a run whose data could
not be counted or kept in memory.
-/

namespace NeighborSearch

/-- The sum of some numbers, as far as 64 bits hold it. -/
def checksum (numbers : List Nat) : UInt64 := UInt64.ofNat (numbers.foldr (· + ·) 0)

/-- A run with its data. -/
inductive Workload
  /-- Write the distances of all codes to an output buffer. -/
  | distances (measured : Distance) (query codes : Code) (parallelism : Parallelism)
    (out : Array UInt32)
  /-- Find the nearest codes. -/
  | nearest (measured : Distance) (query codes : Code) (k : Nat) (parallelism : Parallelism)
  /-- Select on a device that holds the data. -/
  | select (device : Session) (k : Nat)

/-! ## Devices that hold the data of a selection -/

namespace Session

/-- Carry out a command that is expected neither to fail nor to wait for ever. -/
def expect (s : Session) (c : Command) : Except RunError (Session × Answer) :=
  match s.perform c with
  | none => .error (.select .streamClosed)
  | some (_, .failed e) => .error (.select e)
  | some (_, .misshapen e) => .error (.shape e)
  | some (s, answer) => .ok (s, answer)

/-- A device with a stream that holds the data of a selection. -/
def ofData (device : DeviceConfig) (entries bias : Array Single) (rows cols : Nat) :
    Except RunError Session := do
  let (s, _) ← (start device).expect (.store (.matrix "distances" entries rows cols))
  let (s, _) ← s.expect (.store (.vector "bias" bias))
  let (s, _) ← s.expect (.openStream "stream")
  return s

/-- Launch a selection from the data, wait until the stream is done, and then for the
    result. -/
def selectOnce (s : Session) (k : Nat) : Except RunError (TopK × Session) := do
  let (s, _) ← s.expect (.launch "stream" (.select "distances" "bias" k) "result")
  -- An error of the launch is reported here, before its result is asked for.
  let (s, _) ← s.expect (.synchronize "stream")
  let (s, answer) ← s.expect (.wait "result")
  match answer with
  | .outcome (.topK t) => return (t, s)
  | _ => throw (.select .streamClosed)

end Session

/-! ## Measurements -/

namespace Workload

/-- Do once what is measured: the checksum of the result, and the workload afterwards. The
    distances of all codes are summed up, or those of the nearest codes with their
    positions, or the selected columns. Codes that are scored at once are scored in the
    given order. -/
def perform : Workload → (order : TaskOrder) → Except RunError (UInt64 × Workload)
  | distances measured query codes parallelism out, order =>
    match (Scan.distances measured query codes (parallelism.order order)).run out with
    | (.ok (), out) =>
      .ok (checksum (out.toList.map (·.toNat)), distances measured query codes parallelism out)
    | (.error e, _) => .error (.scan e)
  | nearest .generalized _ _ _ _, _ => .error (.rejected .nearestNeedsBitwise)
  | nearest .bitwise query codes k parallelism, order =>
    match Scan.nearest query codes k (parallelism.order order) with
    | .ok neighbors =>
      .ok (checksum (neighbors.map fun n => n.distance.toNat + n.id),
        nearest .bitwise query codes k parallelism)
    | .error e => .error (.scan e)
  | select device k, _ =>
    match device.selectOnce k with
    | .ok (t, device) => .ok (checksum (t.indices.toList.map (·.toNat)), select device k)
    | .error e => .error e

end Workload

/-! ## Preparation -/

variable {σ : Type} [RandomSource σ]

/-- Whether the codes of a scan are scored one after the other or at once. -/
def HammingRun.parallelism (run : HammingRun) : Parallelism :=
  if run.parallel then .parallel else .sequential

/-- That the codes, of one byte an entry, and the distances, of four, fit into memory. The
    query is no longer than the codes. -/
def HammingRun.DataFits (run : HammingRun) : Prop :=
  Size.FitsMemory (run.codeSize.toNat * run.numCodes.toNat) 1 ∧
    Size.FitsMemory run.numCodes.toNat 4

instance (run : HammingRun) : Decidable run.DataFits :=
  inferInstanceAs (Decidable (_ ∧ _))

/-- The scan with its data. -/
def HammingRun.prepare (run : HammingRun) (source : σ) : Except RunError Workload × σ :=
  match Size.mul? run.codeSize.toNat run.numCodes.toNat with
  | none => (.error (.tooManyBytes run.numCodes run.codeSize), source)
  | some length =>
    if run.DataFits then
      -- The query comes first in the stream of the source, then the codes.
      let (query, source) := RandomSource.bytes run.codeSize.toNat source
      let (codes, source) := RandomSource.bytes length source
      let workload : Workload :=
        match run.k with
        | none =>
          .distances run.distance query codes run.parallelism
            (Array.replicate run.numCodes.toNat 0)
        | some k => .nearest run.distance query codes k.toNat run.parallelism
      (.ok workload, source)
    else
      (.error .beyondMemory, source)

/-- That the matrix, of four bytes an entry, fits into memory. The bias is no longer than
    the matrix. -/
def SelectRun.DataFits (run : SelectRun) : Prop :=
  Size.FitsMemory (run.rows.toNat * run.cols.toNat) 4

instance (run : SelectRun) : Decidable run.DataFits :=
  inferInstanceAs (Decidable (Size.FitsMemory _ _))

/-- The selection with its data, on a device of its own. -/
def SelectRun.prepare (run : SelectRun) (source : σ) : Except RunError Workload × σ :=
  match Size.mul? run.rows.toNat run.cols.toNat with
  | none => (.error (.tooManyEntries run.rows run.cols), source)
  | some length =>
    if run.DataFits then
      let (entries, source) := RandomSource.singles RandomSource.normal length source
      let (bias, source) := RandomSource.singles RandomSource.halfNormal run.cols.toNat source
      match Session.ofData run.device entries bias run.rows.toNat run.cols.toNat with
      | .ok device => (.ok (.select device run.k.toNat), source)
      | .error e => (.error e, source)
    else
      (.error .beyondMemory, source)

/-- The run with its data. -/
def Run.prepare : Run → σ → Except RunError Workload × σ
  | .hamming run, source => run.prepare source
  | .select run, source => run.prepare source

/-- That the data of the run fits into memory. -/
def Run.DataFits : Run → Prop
  | .hamming run => run.DataFits
  | .select run => run.DataFits

instance : (run : Run) → Decidable run.DataFits
  | .hamming run => inferInstanceAs (Decidable run.DataFits)
  | .select run => inferInstanceAs (Decidable run.DataFits)

/-- How often the run is measured. -/
def Run.numMeasurements : Run → PosSize
  | .hamming run => run.numMeasurements
  | .select run => run.numMeasurements

/-- That the latencies of the run, of sixteen bytes each, fit into memory. -/
def Run.LatenciesFit (run : Run) : Prop := Size.FitsMemory run.numMeasurements.toNat 16

instance (run : Run) : Decidable run.LatenciesFit :=
  inferInstanceAs (Decidable (Size.FitsMemory _ _))

end NeighborSearch
