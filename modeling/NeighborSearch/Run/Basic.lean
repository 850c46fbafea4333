import NeighborSearch.Code.Distance
import NeighborSearch.Selection.Config

/-!
# Runs

A *run* is a piece of work on generated data that is measured a number of times: a scan
of codes, for all distances or for the nearest codes only, or a selection from a
matrix. `Run.check` refuses the runs that cannot succeed, whatever the data.
-/

namespace NeighborSearch

/-- A scan of generated codes. -/
structure HammingRun where
  /-- The number of bytes of a code. -/
  codeSize : PosSize
  /-- The number of codes. -/
  numCodes : PosSize
  /-- What is counted between the codes. -/
  distance : Distance
  /-- The number of nearest codes to find; without one, all distances are computed. -/
  k : Option PosSize
  /-- Whether codes are scored at once. -/
  parallel : Bool
  /-- How often the scan is measured. -/
  numMeasurements : PosSize
deriving DecidableEq

/-- A selection from a generated matrix. -/
structure SelectRun where
  /-- The number of rows. -/
  rows : PosSize
  /-- The number of columns. -/
  cols : PosSize
  /-- The number of entries to select from every row. -/
  k : PosSize
  /-- The device to select on. -/
  device : DeviceConfig
  /-- How often the selection is measured. -/
  numMeasurements : PosSize
deriving DecidableEq

/-- A run. -/
inductive Run
  | hamming (run : HammingRun)
  | select (run : SelectRun)
deriving DecidableEq

/-- Why a run cannot succeed. -/
inductive RunRejection
  /-- Nearest codes are found by bitwise distance only. -/
  | nearestNeedsBitwise
  /-- More nearest codes are asked for than there are codes. -/
  | moreThanCodes (k numCodes : PosSize)
  /-- Bytes are compared in codes of whole words only. -/
  | raggedCodeSize (codeSize : PosSize)
  /-- More entries are asked for than a row has. -/
  | moreThanColumns (k cols : PosSize)
deriving DecidableEq

/-- The rejection in words. -/
def RunRejection.message : RunRejection → String
  | .nearestNeedsBitwise => "nearest neighbor search requires the bitwise distance"
  | .moreThanCodes k numCodes => s!"k ({k}) exceeds the number of codes ({numCodes})"
  | .raggedCodeSize codeSize =>
    "generalized Hamming distance requires a code size that is a multiple of 8, " ++
      s!"instead got {codeSize}"
  | .moreThanColumns k cols => s!"k ({k}) exceeds the number of columns ({cols})"

namespace HammingRun

/-- That nearest codes can be found, if they are asked for. -/
def checkNearest (run : HammingRun) : Except RunRejection Unit :=
  match run.k with
  | none => .ok ()
  | some k =>
    if run.distance = .generalized then .error .nearestNeedsBitwise
    else if run.numCodes.toNat < k.toNat then .error (.moreThanCodes k run.numCodes)
    else .ok ()

/-- That the scan can succeed. -/
def check (run : HammingRun) : Except RunRejection Unit := do
  run.checkNearest
  if run.distance = .generalized ∧ run.codeSize.toNat % 8 ≠ 0 then
    throw (.raggedCodeSize run.codeSize)

/-- The scan in words. -/
def describe (run : HammingRun) : String :=
  s!"{run.distance.name} hamming, {run.numCodes} codes of {run.codeSize} bytes" ++
    match run.k with
    | some k => s!", k = {k}"
    | none => ""

end HammingRun

namespace SelectRun

/-- That the selection can succeed. -/
def check (run : SelectRun) : Except RunRejection Unit :=
  if run.cols.toNat < run.k.toNat then .error (.moreThanColumns run.k run.cols) else .ok ()

/-- The selection in words. -/
def describe (run : SelectRun) : String :=
  s!"select, {run.rows} x {run.cols}, k = {run.k}"

end SelectRun

namespace Run

/-- That the run can succeed. -/
def check : Run → Except RunRejection Unit
  | hamming run => run.check
  | select run => run.check

/-- The run in words. -/
def describe : Run → String
  | hamming run => run.describe
  | select run => run.describe

end Run

end NeighborSearch
