import NeighborSearch.Run.Basic
import NeighborSearch.Scan.Buffer
import NeighborSearch.Selection.Error
import NeighborSearch.Selection.Matrix

/-!
# Why a run fails

A run is refused before any data is drawn, or needs more data than can be counted, or
more than can be kept in memory, or fails while it is measured. A run that passes its
check does the last only for rows that are too long to number their columns.
-/

namespace NeighborSearch

/-- Why a run has no result. -/
inductive RunError
  /-- The run cannot succeed. -/
  | rejected (why : RunRejection)
  /-- There are more bytes in the codes than can be counted. -/
  | tooManyBytes (numCodes codeSize : PosSize)
  /-- There are more entries in the matrix than can be counted. -/
  | tooManyEntries (rows cols : PosSize)
  /-- The data, or the latencies, do not fit into memory: the program breaks off. -/
  | beyondMemory
  /-- The scan failed. -/
  | scan (e : ScanError)
  /-- The data does not make a matrix. -/
  | shape (e : ShapeError)
  /-- The selection failed. -/
  | select (e : SelectError)
  /-- Nothing was measured. -/
  | unmeasured
deriving DecidableEq

/-- The error in words. -/
def RunError.message : RunError → String
  | .rejected why => why.message
  | .tooManyBytes numCodes codeSize =>
    s!"{numCodes} codes of {codeSize} bytes overflow the address space"
  | .tooManyEntries rows cols => s!"a {rows} x {cols} matrix overflows the address space"
  | .beyondMemory => "capacity overflow"
  | .scan e => e.message
  | .shape e => e.message
  | .select e => e.message
  | .unmeasured => "run produced no measurements"

end NeighborSearch
