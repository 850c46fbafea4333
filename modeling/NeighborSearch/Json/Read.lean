import NeighborSearch.Json.Number
import NeighborSearch.Json.Quoted

/-!
# Reading JSON texts

A value is read from the front of a text. Arrays and objects may be nested 127 deep;
what opens a deeper one is as wrong as any other character that no value begins with.
The reader of the values inside an array or object is handed to the reader of that,
so reading goes down with the depth that is left, and along with the text. No array and
no object has more in it than the text has characters: this is the `room` for items and
members, which is never used up.

A *document* is a text that holds one value. Whether anything but blanks follows the
value is noted, for whoever gets that far.
-/

namespace NeighborSearch.Json

/-- What is read from the front of a text, and what follows it. -/
abbrev Reader := List Char → Json × List Char

/-- Whether the character is one of the four blanks of JSON texts. -/
def isBlank (c : Char) : Bool := c = ' ' || c = '\n' || c = '\t' || c = '\r'

/-- The text after its blanks. -/
def skipBlanks (cs : List Char) : List Char := cs.dropWhile isBlank

/-- The value of a word, from after its first letter on. -/
def readWord (value : Json) : (word : List Char) → Reader
  | [], cs => (value, cs)
  | _ :: _, [] => (.cut .endOfText, [])
  | w :: word, c :: cs => if c = w then readWord value word cs else (.cut .malformed, cs)

/-- A result that may be an error, as a value that may be cut off. -/
def orCut : Except ReadError (Json × List Char) → Json × List Char
  | .ok r => r
  | .error e => (.cut e, [])

/-- The items of an array, from the beginning of one on, at most as many as there is room
    for. -/
def readItems (item : Reader) :
    (room : Nat) → List Char → List Json × Option ReadError × List Char
  | 0, cs => ([], some .malformed, cs)
  | room + 1, cs =>
    let (v, rest) := item cs
    match v.fault? with
    | some e => ([v], some e, rest)
    | none =>
      match skipBlanks rest with
      | [] => ([v], some .endOfText, [])
      | ']' :: rest => ([v], none, rest)
      | ',' :: rest =>
        -- A comma promises an item: a bracket in its place is an error there.
        match skipBlanks rest with
        | ']' :: rest => ([v, .cut .malformed], some .malformed, rest)
        | rest =>
          let (vs, stop, rest) := readItems item room rest
          (v :: vs, stop, rest)
      | rest => ([v], some .malformed, rest)

/-- An array, from after its bracket on. -/
def readArray (room : Nat) (item : Reader) : Reader := fun cs =>
  match skipBlanks cs with
  | [] => (.array [] (some .endOfText), [])
  | ']' :: rest => (.array [] none, rest)
  | rest =>
    let (items, stop, rest) := readItems item room rest
    (.array items stop, rest)

/-- The value of a member, from after its name on. -/
def readMemberValue (item : Reader) : Reader := fun cs =>
  match skipBlanks cs with
  | [] => (.cut .endOfText, [])
  | ':' :: rest => item rest
  | rest => (.cut .malformed, rest)

/-- The members of an object, from the beginning of one on, at most as many as there is
    room for. -/
def readMembers (item : Reader) :
    (room : Nat) → List Char → List (String × Json) × Option ReadError × List Char
  | 0, cs => ([], some .malformed, cs)
  | _ + 1, [] => ([], some .endOfText, [])
  | room + 1, '"' :: cs =>
    match Quoted.decode cs with
    | .error e => ([], some e, cs)
    | .ok (name, rest) =>
      let (v, rest) := readMemberValue item rest
      match v.fault? with
      | some e => ([(name, v)], some e, rest)
      | none =>
        match skipBlanks rest with
        | [] => ([(name, v)], some .endOfText, [])
        | '\x7d' :: rest => ([(name, v)], none, rest)
        | ',' :: rest =>
          let (members, stop, rest) := readMembers item room (skipBlanks rest)
          ((name, v) :: members, stop, rest)
        | rest => ([(name, v)], some .malformed, rest)
  | _ + 1, cs => ([], some .malformed, cs)

/-- An object, from after its brace on. -/
def readObject (room : Nat) (item : Reader) : Reader := fun cs =>
  match skipBlanks cs with
  | [] => (.object [] (some .endOfText), [])
  | '\x7d' :: rest => (.object [] none, rest)
  | rest =>
    let (members, stop, rest) := readMembers item room rest
    (.object members stop, rest)

/-- A value, with the given reader of the values inside it; without one, nothing may be
    inside. -/
def readValueWith (room : Nat) (inside : Option Reader) : Reader := fun cs =>
  match skipBlanks cs with
  | [] => (.cut .endOfText, [])
  | 'n' :: rest => readWord .null ['u', 'l', 'l'] rest
  | 't' :: rest => readWord (.bool true) ['r', 'u', 'e'] rest
  | 'f' :: rest => readWord (.bool false) ['a', 'l', 's', 'e'] rest
  | '"' :: rest => orCut ((Quoted.decode rest).map fun (s, rest) => (.string s, rest))
  | '-' :: rest => orCut (Number.read true rest)
  | '[' :: rest =>
    match inside with
    | some item => readArray room item rest
    | none => (.cut .malformed, rest)
  | '\x7b' :: rest =>
    match inside with
    | some item => readObject room item rest
    | none => (.cut .malformed, rest)
  | c :: rest =>
    if c.isDigit then orCut (Number.read false (c :: rest)) else (.cut .malformed, rest)

/-- A value in which arrays and objects are nested at most `depth` deep. -/
def readValue (room : Nat) : (depth : Nat) → Reader
  | 0 => readValueWith room none
  | depth + 1 => readValueWith room (some (readValue room depth))

/-- How deep arrays and objects may be nested. -/
def maxDepth : Nat := 127

/-- A text that holds one value. -/
structure Document where
  /-- The value, as far as it could be read. -/
  value : Json
  /-- Whether something follows the value. -/
  trailing : Bool

/-- The document of a text. -/
def Document.ofString (text : String) : Document :=
  let cs := text.toList
  let (value, rest) := readValue cs.length maxDepth cs
  ⟨value, decide (skipBlanks rest ≠ [])⟩

end NeighborSearch.Json
