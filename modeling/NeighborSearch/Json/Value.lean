/-!
# JSON values, whole or cut off

A JSON text denotes a value, or it breaks off: it ends too early, or goes on in a way
that no JSON text does. What has been read before that point is kept, with the error
in the place of what could not be read. So whoever takes a value apart from left to
right meets the errors of the text and those of its own in the order in which they
stand.

Arrays and objects say themselves whether they are whole: the error of an item or a
member is that of everything around it, and nothing follows a broken item.
-/

namespace NeighborSearch

/-- Why a text is not JSON. -/
inductive ReadError
  /-- The text ends before the value does. -/
  | endOfText
  /-- The text goes on as no JSON text does. -/
  | malformed
deriving DecidableEq, Repr

/-- A JSON value, as far as it could be read. -/
inductive Json
  | null
  | bool (b : Bool)
  /-- A number written without fraction and exponent, in the range of 64-bit integers. -/
  | int (n : Int)
  /-- Any other number, as it is written. -/
  | real (text : String)
  | string (s : String)
  /-- The items, and what cut the array off. -/
  | array (items : List Json) (stop : Option ReadError)
  /-- The members in the order of the text, and what cut the object off. -/
  | object (members : List (String × Json)) (stop : Option ReadError)
  /-- No value. -/
  | cut (e : ReadError)

namespace Json

/-- The array of the given items. -/
def ofItems (items : List Json) : Json := .array items none

/-- The object of the given members. -/
def ofMembers (members : List (String × Json)) : Json := .object members none

/-- The natural number. -/
def ofNat (n : Nat) : Json := .int n

/-- What cut the value off, if it is not whole. -/
def fault? : Json → Option ReadError
  | .array _ stop | .object _ stop => stop
  | .cut e => some e
  | .null | .bool _ | .int _ | .real _ | .string _ => none

end Json

end NeighborSearch
