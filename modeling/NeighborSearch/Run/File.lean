import NeighborSearch.Json.Decode
import NeighborSearch.Run.Json

/-!
# Run files

A run file is a JSON text with a list of runs. It is accepted only if every run in it
can succeed; the first one that cannot is reported with its position.
-/

namespace NeighborSearch

/-- The contents of a run file. -/
structure RunFile where
  /-- The runs, in the order of the file. -/
  runs : List Run
deriving DecidableEq

/-- Why a text is refused as a run file. -/
inductive RunFileError
  /-- It is not JSON, or JSON of another shape. -/
  | undecodable (e : DecodeError)
  /-- The run at this position cannot succeed. -/
  | rejected (position : Nat) (why : RunRejection)
deriving DecidableEq

/-- What is said of a rejected run. -/
def RunFileError.rejection (position : Nat) (why : RunRejection) : String :=
  s!"run {position}: " ++ why.message

namespace RunFile

/-- How a run file is written. -/
def shape : Json.Shape (Option (List Run)) RunFile where
  name := "struct RunFile"
  start := none
  member runs name v :=
    match name with
    | "runs" => Json.once name runs (v.list Run.ofJson)
    | _ => .error (.data (.unknownField name ["runs"]))
  finish runs := return ⟨← Json.required "runs" runs⟩
  items := return ⟨← Json.itemOf "struct RunFile with 1 element" (Json.list Run.ofJson)⟩

/-- The run file that a value is, its runs unchecked. -/
def ofJson (v : Json) : Decoded RunFile := shape.decode .direct v

/-- A run file in JSON. -/
def toJson (file : RunFile) : Json :=
  .ofMembers [("runs", .ofItems (file.runs.map Run.toJson))]

/-- That all runs can succeed, the first one being at the given position. -/
def checkFrom : (position : Nat) → List Run → Except RunFileError Unit
  | _, [] => .ok ()
  | position, run :: runs =>
    match run.check with
    | .error why => .error (.rejected position why)
    | .ok () => checkFrom (position + 1) runs

/-- The run file that a text is. -/
def parse (text : String) : Except RunFileError RunFile :=
  match Json.decodeText ofJson text with
  | .error e => .error (.undecodable e)
  | .ok file => do
    checkFrom 0 file.runs
    return file

end RunFile

end NeighborSearch
