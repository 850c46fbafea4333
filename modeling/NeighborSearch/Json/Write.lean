import NeighborSearch.Json.Quoted

/-!
# Writing JSON texts

A value is written in one line without blanks, or over several lines with every item
and member on a line of its own, indented by two blanks for every array and object
around it. Empty arrays and objects are written as their brackets alone.
-/

namespace NeighborSearch.Json

/-- How a value is laid out: on one line, or over lines, at some depth. -/
inductive Layout
  | oneLine
  | lines (depth : Nat)

namespace Layout

/-- The layout inside an array or object. -/
def deeper : Layout → Layout
  | oneLine => oneLine
  | lines depth => lines (depth + 1)

/-- What stands before an item, and before a closing bracket. -/
def lineBreak : Layout → List Char
  | oneLine => []
  | lines depth => '\n' :: List.replicate (2 * depth) ' '

/-- What stands between the name of a member and its value. -/
def colon : Layout → List Char
  | oneLine => [':']
  | lines _ => [':', ' ']

end Layout

/-- An integer in decimal digits. -/
def intChars : Int → List Char
  | .ofNat n => Nat.toDigits 10 n
  | .negSucc n => '-' :: Nat.toDigits 10 (n + 1)

mutual

/-- The text of a value. What a value lacks is not written. -/
def chars (layout : Layout) : Json → List Char
  | .null | .cut _ => ['n', 'u', 'l', 'l']
  | .bool true => ['t', 'r', 'u', 'e']
  | .bool false => ['f', 'a', 'l', 's', 'e']
  | .int n => intChars n
  | .real text => text.toList
  | .string s => Quoted.encode s
  | .array [] _ => ['[', ']']
  | .array (v :: vs) _ =>
    '[' :: layout.deeper.lineBreak ++ chars layout.deeper v ++ itemChars layout.deeper vs ++
      layout.lineBreak ++ [']']
  | .object [] _ => ['\x7b', '\x7d']
  | .object ((name, v) :: ms) _ =>
    '\x7b' :: layout.deeper.lineBreak ++ Quoted.encode name ++ layout.colon ++
      chars layout.deeper v ++ memberChars layout.deeper ms ++ layout.lineBreak ++ ['\x7d']

/-- The text of the items after the first one. -/
def itemChars (layout : Layout) : List Json → List Char
  | [] => []
  | v :: vs => ',' :: layout.lineBreak ++ chars layout v ++ itemChars layout vs

/-- The text of the members after the first one. -/
def memberChars (layout : Layout) : List (String × Json) → List Char
  | [] => []
  | (name, v) :: ms =>
    ',' :: layout.lineBreak ++ Quoted.encode name ++ layout.colon ++ chars layout v ++
      memberChars layout ms

end

/-- The text of a value on one line. -/
def compact (v : Json) : String := String.ofList (v.chars .oneLine)

/-- The text of a value over several lines. -/
def pretty (v : Json) : String := String.ofList (v.chars (.lines 0))

end NeighborSearch.Json
