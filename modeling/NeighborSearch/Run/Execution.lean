import NeighborSearch.Run.File
import NeighborSearch.Run.Summary
import NeighborSearch.Run.Workload

/-!
# Executing runs

A run is checked, prepared from a source of data and measured so often as it says. Its
result has the latency of every measurement, and the checksum of the last one. It is
executed on a *machine*, which takes the time, and whose processors come to score the codes
of a parallel scan in one order or another.

The runs of a file are executed one after the other, each with a source of its own: its
seed is that of the file plus its position. The first run that fails ends the file.
-/

namespace NeighborSearch

/-- What runs are executed on. -/
structure Machine (m : Type → Type) where
  /-- The value that is computed, and how long that took, in microseconds. -/
  time : {α : Type} → (Unit → α) → m (α × Size)
  /-- The order in which the codes of the next scan come to be scored, if that is done at
      once. -/
  schedule : m TaskOrder

/-- The machine whose clock is always at zero, and which scores the last code first. -/
def Machine.still {m : Type → Type} [Monad m] : Machine m where
  time f := pure (f (), 0)
  schedule := pure .backwards

/-- The result of a run. -/
structure RunResult where
  /-- The run. -/
  run : Run
  /-- The latency of every measurement, in microseconds. -/
  latencies : List Size
  /-- The latencies in summary. -/
  summary : Summary
  /-- The checksum of the last measurement. -/
  checksum : UInt64

/-- The result of a run that has been measured. -/
def RunResult.ofMeasurements (run : Run) (latencies : List Size) (checksum : UInt64) :
    Except RunError RunResult :=
  match Summary.ofLatencies? latencies with
  | some summary => .ok ⟨run, latencies, summary, checksum⟩
  | none => .error .unmeasured

section

variable {m : Type → Type} [Monad m] (machine : Machine m)

/-- Perform a workload so many times: the latencies, and the checksum of the last time,
    the given one if there is none. -/
def Workload.measure : (times : Nat) → (checksum : UInt64) → Workload →
    m (Except RunError (List Size × UInt64))
  | 0, checksum, _ => return .ok ([], checksum)
  | times + 1, _, workload => do
    let order ← machine.schedule
    let (outcome, latency) ← machine.time fun _ => workload.perform order
    match outcome with
    | .error e => return .error e
    | .ok (checksum, workload) =>
      match ← workload.measure times checksum with
      | .error e => return .error e
      | .ok (latencies, checksum) => return .ok (latency :: latencies, checksum)

variable {σ : Type} [RandomSource σ]

/-- Execute a run with data from a source. -/
def Run.execute (run : Run) (source : σ) : m (Except RunError RunResult × σ) :=
  match run.check with
  | .error why => return (.error (.rejected why), source)
  | .ok () =>
    match run.prepare source with
    | (.error e, source) => return (.error e, source)
    | (.ok workload, source) =>
      -- Room for all latencies is made before the first measurement.
      if run.LatenciesFit then do
        match ← workload.measure machine run.numMeasurements.toNat 0 with
        | .error e => return (.error e, source)
        | .ok (latencies, checksum) =>
          return (RunResult.ofMeasurements run latencies checksum, source)
      else
        return (.error .beyondMemory, source)

variable (σ)

/-- Execute runs one after the other, the first one with the given seed and every other
    with the next one. -/
def Run.executeAll : (seed : UInt64) → List Run → m (Except RunError (List RunResult))
  | _, [] => return .ok []
  | seed, run :: runs => do
    -- What is left of the source is not used: the next run has one of its own.
    let (outcome, _) ← run.execute machine (RandomSource.seed seed : σ)
    match outcome with
    | .error e => return .error e
    | .ok result =>
      match ← executeAll (seed + 1) runs with
      | .error e => return .error e
      | .ok results => return .ok (result :: results)

/-- Execute the runs of a file. -/
def RunFile.execute (file : RunFile) (seed : UInt64) : m (Except RunError (List RunResult)) :=
  Run.executeAll machine σ seed file.runs

end

/-! ## Results in JSON -/

/-- A summary in JSON. -/
def Summary.toJson (s : Summary) : Json :=
  .ofMembers [("min", .ofNat s.min.toNat), ("median", .ofNat s.median.toNat),
    ("mean", .real s.mean.text), ("max", .ofNat s.max.toNat)]

/-- A result in JSON. -/
def RunResult.toJson (r : RunResult) : Json :=
  .ofMembers [("run", r.run.toJson), ("latencies", .ofItems (r.latencies.map (.ofNat ·.toNat))),
    ("summary", r.summary.toJson), ("checksum", .ofNat r.checksum.toNat)]

end NeighborSearch
