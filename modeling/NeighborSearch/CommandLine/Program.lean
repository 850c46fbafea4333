import NeighborSearch.CommandLine.Arguments
import NeighborSearch.Json.Write
import NeighborSearch.Run.Execution

/-!
# The program

The program reads a run file, executes its runs and writes the results, if that is asked
for. Results are written after the last run only: a run that fails leaves no file behind.

What the program needs of its surroundings is a `Surroundings`: files, and a machine.
-/

namespace NeighborSearch

/-- What the program needs of its surroundings. -/
structure Surroundings (m : Type → Type) where
  /-- The text of a file, or why it cannot be read. -/
  read : (path : String) → m (Except String String)
  /-- Make a text that of a file, or tell why it cannot be written. -/
  write : (path text : String) → m (Except String Unit)
  /-- What runs are executed on. -/
  machine : Machine m

/-- Why the program fails. -/
inductive ProgramError
  /-- The run file cannot be read. -/
  | unreadable (path why : String)
  /-- The run file is refused. -/
  | invalid (path : String) (e : RunFileError)
  /-- A run failed. -/
  | run (e : RunError)
  /-- The results cannot be written. -/
  | unwritable (path why : String)
deriving DecidableEq

/-- What is said of a text that is refused. -/
def DecodeError.message : DecodeError → String
  | .text .endOfText => "the text ends too early"
  | .text .malformed => "the text is not JSON"
  | .data e => e.message

/-- The refusal of a run file in words. -/
def RunFileError.message : RunFileError → String
  | .undecodable e => e.message
  | .rejected position why => rejection position why

/-- The error in words. -/
def ProgramError.message : ProgramError → String
  | .unreadable path why => s!"failed to read {path}: {why}"
  | .invalid path e => s!"invalid run file {path}: " ++ e.message
  | .run e => e.message
  | .unwritable path why => s!"failed to write {path}: {why}"

namespace Program

variable {m : Type → Type} [Monad m] (around : Surroundings m)

/-- The run file at a path. -/
def load (path : String) : m (Except ProgramError RunFile) := do
  match ← around.read path with
  | .error why => return .error (.unreadable path why)
  | .ok text =>
    match RunFile.parse text with
    | .error e => return .error (.invalid path e)
    | .ok file => return .ok file

/-- The text of the results of a file. -/
def report (results : List RunResult) : String :=
  (Json.ofItems (results.map RunResult.toJson)).pretty

/-- Write the results, if that is asked for. -/
def save (output : Option String) (results : List RunResult) : m (Except ProgramError Unit) := do
  match output with
  | none => return .ok ()
  | some path =>
    match ← around.write path (report results) with
    | .error why => return .error (.unwritable path why)
    | .ok () => return .ok ()

/-- Do what is asked for, with data from sources of the given kind. -/
def run (σ : Type) [RandomSource σ] (options : Options) :
    m (Except ProgramError (List RunResult)) := do
  match ← load around options.input with
  | .error e => return .error e
  | .ok file =>
    match ← file.execute around.machine σ options.seed with
    | .error e => return .error (.run e)
    | .ok results =>
      -- Nothing has been written up to here.
      match ← save around options.output results with
      | .error e => return .error e
      | .ok () => return .ok results

/-- The exit status of an outcome; 101 where the program breaks off. -/
def status {α : Type} : Except ProgramError α → UInt32
  | .ok _ => 0
  | .error (.run .beyondMemory) => 101
  | .error _ => 1

end Program

end NeighborSearch
