import NeighborSearch.CommandLine.FileSystem
import NeighborSearch.Random.ChaCha

/-!
# The command line

The surroundings of the program: the files of the system, its clock, and the streams that
errors and help are written to. The codes of a parallel scan are scored one after the other
here too, the last one first.
-/

namespace NeighborSearch

/-- What is said when help is asked for. -/
def helpText : String :=
  "Run the Hamming scan and top-k selection workloads described by a JSON file.\n\n" ++
  "Usage: --input <INPUT> [--output <OUTPUT>] [--seed <SEED>]\n\n" ++
  "Options:\n" ++
  "      --input <INPUT>    JSON file with a list of runs\n" ++
  "      --output <OUTPUT>  Write the results of every run to this file as JSON\n" ++
  "      --seed <SEED>      Seed for the generated codes and distances\n" ++
  s!"                         [default: {Given.defaultSeed}]\n" ++
  "  -h, --help             Print help"

/-- A failure of the system in words. -/
def systemText : IO.Error → String
  | .noFileOrDirectory _ code details | .inappropriateType _ code details
  | .permissionDenied _ code details | .resourceExhausted _ code details
  | .resourceBusy code details | .illegalOperation code details | .hardwareFault code details
  | .otherError code details | .invalidArgument _ code details =>
    s!"{details} (os error {code})"
  | e => toString e

/-- Try to do something with the file at a path; what goes wrong is put into words. -/
def tried {α : Type} (path : String) (act : IO α) : IO (Except String α) := do
  if path.toList.contains '\x00' then return .error FileError.nulInPath.message
  try
    return .ok (← act)
  catch e =>
    return .error (systemText e)

/-- The surroundings as the system offers them. -/
def system : Surroundings IO where
  read path := do
    match ← tried path (IO.FS.withFile path .read (·.readBinToEnd)) with
    | .error why => return .error why
    | .ok bytes =>
      match String.fromUTF8? bytes with
      | some text => return .ok text
      | none => return .error FileError.notText.message
  write path text := tried path (IO.FS.writeFile path text)
  machine := {
    time f := do
      let start ← IO.monoNanosNow
      let value ← IO.lazyPure f
      let stop ← IO.monoNanosNow
      return (value, UInt64.ofNat (min ((stop - start) / 1000) Size.largest))
    schedule := pure .backwards }

end NeighborSearch

open NeighborSearch

/-- Run the program on the arguments of the command line. -/
def main (arguments : List String) : IO UInt32 := do
  match Options.parse arguments with
  | .error .helpWanted =>
    IO.println helpText
    return 0
  | .error e =>
    IO.eprintln s!"error: {e.message}"
    return 2
  | .ok options =>
    let outcome ← Program.run system ChaCha options
    match outcome with
    | .ok results => IO.eprintln s!"completed {results.length} runs"
    | .error e => IO.eprintln e.message
    return Program.status outcome
