import NeighborSearch.Json.Value
import NeighborSearch.Text.Shown

/-!
# Values of the wrong shape

A value that is JSON may still not be what it is read as. A `DataError` is what is
wrong with it; `DecodeError` is either this or an error of the text.
-/

namespace NeighborSearch

/-- What is wrong with a value. -/
inductive DataError
  /-- A member that has to be there is not. -/
  | missingField (name : String)
  /-- A member occurs a second time. -/
  | duplicateField (name : String)
  /-- There is no member of this name. -/
  | unknownField (name : String) (known : List String)
  /-- There is no alternative of this name. -/
  | unknownVariant (name : String) (known : List String)
  /-- The value is of another kind than the one expected. -/
  | invalidType (found expected : String)
  /-- The value is of the kind expected, but not one of those allowed. -/
  | invalidValue (found expected : String)
  /-- An array has a number of items that it must not have. -/
  | invalidLength (length : Nat) (expected : String)
  /-- The value as a whole breaks a rule, in the words of that rule. -/
  | rejected (reason : String)
deriving DecidableEq, Repr

namespace DataError

/-- A name as it is set off in messages. -/
def ticked (name : String) : String := "`" ++ name ++ "`"

/-- The names that there are, as alternatives. -/
def oneOf : List String → String
  | [] => "nothing"
  | [a] => ticked a
  | [a, b] => ticked a ++ " or " ++ ticked b
  | names => "one of " ++ String.intercalate ", " (names.map ticked)

/-- The error in words. -/
def message : DataError → String
  | .missingField name => "missing field " ++ ticked name
  | .duplicateField name => "duplicate field " ++ ticked name
  | .unknownField name known => "unknown field " ++ ticked name ++ ", expected " ++ oneOf known
  | .unknownVariant name known => "unknown variant " ++ ticked name ++ ", expected " ++ oneOf known
  | .invalidType found expected => "invalid type: " ++ found ++ ", expected " ++ expected
  | .invalidValue found expected => "invalid value: " ++ found ++ ", expected " ++ expected
  | .invalidLength length expected => s!"invalid length {length}, expected " ++ expected
  | .rejected reason => reason

end DataError

/-- Why a text does not give a value of the type wanted. -/
inductive DecodeError
  /-- It is not JSON. -/
  | text (e : ReadError)
  /-- It is JSON of another shape. -/
  | data (e : DataError)
deriving DecidableEq, Repr

/-- The result of decoding a value. -/
abbrev Decoded := Except DecodeError

namespace Json

/-- What a value is called in messages. -/
def found : Json → String
  | .null => "null"
  | .bool b => "boolean " ++ DataError.ticked (if b then "true" else "false")
  | .int n => "integer " ++ DataError.ticked (toString n)
  | .real _ => "floating point"
  | .string s => "string " ++ Text.shown s
  | .array .. => "sequence"
  | .object .. => "map"
  | .cut _ => "nothing"

/-- The error of a value that is of another kind than expected, or is no value. -/
def mismatch (v : Json) (expected : String) : DecodeError :=
  match v with
  | .cut e => .text e
  | v => .data (.invalidType v.found expected)

end Json

end NeighborSearch
