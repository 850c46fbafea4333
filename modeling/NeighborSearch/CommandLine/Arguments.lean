import NeighborSearch.Size

/-!
# Arguments of the command line

Three settings are given by name, `--input`, `--output` and `--seed`, each with a value
in the next argument or in the same one after an equals sign. `--help` and `-h` ask for
help. Only the input is required.

A setting whose value stands apart is *pending* until the next setting, the request for
help or the end: only then is it checked that there is a value, that the setting has not
been given before, and that the value is one. So an argument that is not known is reported
before anything that is wrong with a pending setting.
-/

namespace NeighborSearch

/-- What can be set. -/
inductive Setting
  /-- The run file to read. -/
  | input
  /-- The file to write the results to. -/
  | output
  /-- The seed of the generated data. -/
  | seed
deriving DecidableEq, Repr

/-- The name of a setting. -/
def Setting.name : Setting → String
  | .input => "input"
  | .output => "output"
  | .seed => "seed"

/-- The setting of a name. -/
def Setting.ofName? : String → Option Setting
  | "input" => some .input
  | "output" => some .output
  | "seed" => some .seed
  | _ => none

/-- Why arguments are refused. -/
inductive UsageError
  /-- Help is asked for. -/
  | helpWanted
  /-- Nothing has this name, or a value stands where none is expected. -/
  | unknown (argument : String)
  /-- A value is given with the request for help. -/
  | unwantedValue
  /-- A setting has no value. -/
  | missingValue (setting : Setting)
  /-- The value of a setting is empty. -/
  | emptyValue (setting : Setting)
  /-- A setting is given a second time. -/
  | repeated (setting : Setting)
  /-- The value is not a seed. -/
  | invalidSeed (value : String)
  /-- No input is given. -/
  | missingInput
deriving DecidableEq, Repr

/-- The error in words. -/
def UsageError.message : UsageError → String
  | .helpWanted => "help is asked for"
  | .unknown argument => s!"unexpected argument '{argument}'"
  | .unwantedValue => "'--help' takes no value"
  | .missingValue setting | .emptyValue setting =>
    s!"a value is required for '--{setting.name}'"
  | .repeated setting => s!"'--{setting.name}' cannot be given more than once"
  | .invalidSeed value => s!"invalid value '{value}' for '--seed'"
  | .missingInput => "'--input' has to be given"

/-- What the program is asked to do. -/
structure Options where
  /-- The run file to read. -/
  input : String
  /-- The file to write the results to. -/
  output : Option String
  /-- The seed of the generated data. -/
  seed : Size
deriving DecidableEq

/-! ## Single arguments -/

/-- An argument, by its form. -/
inductive Argument
  /-- Two dashes, after which only values follow. -/
  | separator
  /-- A name after two dashes, and the value after an equals sign. -/
  | long (name : String) (value : Option String)
  /-- Letters after a dash, of which the first one decides. -/
  | short (letter : Char)
  /-- Anything else, also a dash alone. -/
  | plain

/-- The form of an argument. -/
def Argument.ofChars : List Char → Argument
  | ['-', '-'] => .separator
  | '-' :: '-' :: cs =>
    match cs.span (· != '=') with
    | (name, []) => .long (String.ofList name) none
    | (name, _ :: value) => .long (String.ofList name) (some (String.ofList value))
  | '-' :: letter :: _ => .short letter
  | _ => .plain

/-- The seed that is written in decimal digits, perhaps after a plus sign. -/
def seedOfChars? (cs : List Char) : Option Size :=
  let digits := match cs with
    | '+' :: digits => digits
    | digits => digits
  let n := Nat.ofDigitChars 10 digits 0
  if digits ≠ [] ∧ digits.all Char.isDigit ∧ n < Size.limit then some (UInt64.ofNat n) else none

/-! ## Settings one after the other -/

/-- The settings that have been given. -/
structure Given where
  input : Option String
  output : Option String
  seed : Option Size

namespace Given

/-- Nothing has been given. -/
def nothing : Given := ⟨none, none, none⟩

/-- The path that is given for a setting for the first time. -/
def path (setting : Setting) (before : Option String) (value : String) :
    Except UsageError String :=
  if before.isSome then .error (.repeated setting)
  else if value.isEmpty then .error (.emptyValue setting)
  else .ok value

/-- Give a setting a value. -/
def add (given : Given) (setting : Setting) (value : String) : Except UsageError Given :=
  match setting with
  | .input => do return { given with input := some (← path .input given.input value) }
  | .output => do return { given with output := some (← path .output given.output value) }
  | .seed =>
    if given.seed.isSome then .error (.repeated .seed)
    else
      match seedOfChars? value.toList with
      | some seed => .ok { given with seed := some seed }
      | none => .error (.invalidSeed value)

/-- A setting that has been named, with the value that followed. -/
structure Pending where
  setting : Setting
  value : Option String

/-- The settings with a pending one among them. -/
def settle (given : Given) : Option Pending → Except UsageError Given
  | none => .ok given
  | some ⟨setting, none⟩ => .error (.missingValue setting)
  | some ⟨setting, some value⟩ => given.add setting value

/-- The seed where none is given. -/
def defaultSeed : Size := 186080425

/-- What is asked for by all settings together. -/
def finish (given : Given) : Except UsageError Options :=
  match given.input with
  | none => .error .missingInput
  | some input => .ok ⟨input, given.output, given.seed.getD defaultSeed⟩

end Given

namespace Options

/-- What is asked for by the remaining arguments. -/
def parseFrom (given : Given) (pending : Option Given.Pending) :
    List String → Except UsageError Options
  | [] => do (← given.settle pending).finish
  | argument :: arguments =>
    match Argument.ofChars argument.toList with
    | .separator =>
      match arguments with
      | [] => do (← given.settle pending).finish
      -- No value is expected after the dashes, not even that of a pending setting.
      | next :: _ => .error (.unknown next)
    | .long name value =>
      match Setting.ofName? name, value with
      | some setting, none => do
        parseFrom (← given.settle pending) (some ⟨setting, none⟩) arguments
      | some setting, some value => do
        parseFrom (← (← given.settle pending).add setting value) none arguments
      | none, value =>
        if name = "help" then
          match value with
          | none => do
            let _ ← given.settle pending
            throw .helpWanted
          | some _ => .error .unwantedValue
        else .error (.unknown argument)
    | .short letter =>
      if letter = 'h' then do
        let _ ← given.settle pending
        throw .helpWanted
      else .error (.unknown argument)
    | .plain =>
      match pending with
      | some ⟨setting, none⟩ => parseFrom given (some ⟨setting, some argument⟩) arguments
      | _ => .error (.unknown argument)

/-- What is asked for by the arguments. -/
def parse (arguments : List String) : Except UsageError Options :=
  parseFrom .nothing none arguments

end Options

end NeighborSearch
