import NeighborSearch.Json.Error
import NeighborSearch.Json.Read
import NeighborSearch.Size

/-!
# Decoding JSON values

A value is decoded from left to right: what is wrong with an earlier part of it is
reported before what is wrong with a later one, and what cuts the text off comes in its
place among them. A decoder looks at no more than it needs; that a value is of the
wrong kind is seen from where it begins.

A record is written as an object or as an array. In an object its members may stand in
any order; in an array they stand in the order of the record, and those at the end may
be left out if there are defaults for them.

A text is decoded as the value that it holds; what is left of it is looked at last.
-/

namespace NeighborSearch.Json

/-! ## Simple values -/

/-- A size. -/
def size (v : Json) : Decoded Size :=
  match v with
  | .int (.ofNat n) => .ok (UInt64.ofNat n)
  | .int _ => .error (.data (.invalidValue v.found "usize"))
  | v => .error (v.mismatch "usize")

/-- A size other than zero. -/
def posSize (v : Json) : Decoded PosSize :=
  match v with
  | .int (.ofNat n) =>
    match PosSize.ofSize? (UInt64.ofNat n) with
    | some n => .ok n
    | none => .error (.data (.invalidValue v.found "a nonzero usize"))
  | .int _ => .error (.data (.invalidValue v.found "a nonzero usize"))
  | v => .error (v.mismatch "a nonzero usize")

/-- A truth value. -/
def boolean (v : Json) : Decoded Bool :=
  match v with
  | .bool b => .ok b
  | v => .error (v.mismatch "a boolean")

/-- A value or nothing, which is written as `null`. -/
def nullable {α : Type} (read : Json → Decoded α) (v : Json) : Decoded (Option α) :=
  match v with
  | .null => .ok none
  | v => some <$> read v

/-- That nothing is cut off. -/
def whole (stop : Option ReadError) : Decoded Unit :=
  match stop with
  | some e => .error (.text e)
  | none => .ok ()

/-- Any number of values. -/
def list {α : Type} (read : Json → Decoded α) (v : Json) : Decoded (List α) :=
  match v with
  | .array items stop => do
    let values ← items.mapM read
    whole stop
    return values
  | v => .error (v.mismatch "a sequence")

/-! ## Records -/

/-- When a value is decoded. -/
inductive Setting
  /-- While its text is read. -/
  | direct
  /-- After the text of something around it has been read as a whole. -/
  | collected

/-- The items of an array that have not been taken yet, and the number of those that
    have. -/
structure Items where
  left : List Json
  stop : Option ReadError
  taken : Nat

/-- A computation that takes items one after the other. -/
abbrev FromItems := StateT Items Decoded

/-- The next item, if there is one. -/
def nextItem : FromItems (Option Json) := do
  let items ← get
  match items.left with
  | v :: left =>
    set (⟨left, items.stop, items.taken + 1⟩ : Items)
    return some v
  | [] =>
    whole items.stop
    return none

/-- The member that the next item holds, or its default if there is none. -/
def itemOr {α : Type} (default : α) (read : Json → Decoded α) : FromItems α := do
  match ← nextItem with
  | some v => read v
  | none => return default

/-- The member that the next item has to hold. The array is too short without one. -/
def itemOf {α : Type} (expected : String) (read : Json → Decoded α) : FromItems α := do
  match ← nextItem with
  | some v => read v
  | none => throw (.data (.invalidLength (← get).taken expected))

/-- The number of members of a record, in words. -/
def elements (count : Nat) : String :=
  if count = 1 then "1 element" else s!"{count} elements"

/-- That all items have been taken. While the text is read, more of them are simply not
    what was expected there; otherwise they are counted. -/
def noMoreItems (setting : Setting) : FromItems Unit := do
  let items ← get
  if items.left ≠ [] then
    match setting with
    | .direct => throw (.text .malformed)
    | .collected =>
      throw (.data (.invalidLength (items.taken + items.left.length)
        (elements items.taken ++ " in sequence")))
  whole items.stop

/-- The second time a member occurs, it is refused; the first time it is read. -/
def once {α : Type} (name : String) (before : Option α) (read : Decoded α) :
    Decoded (Option α) :=
  match before with
  | some _ => .error (.data (.duplicateField name))
  | none => some <$> read

/-- A member that has to be there. -/
def required {α : Type} (name : String) (member : Option α) : Decoded α :=
  match member with
  | some a => .ok a
  | none => .error (.data (.missingField name))

/-- How a record of type `α` is written. While its members are collected from an object,
    those found so far are a `σ`. -/
structure Shape (σ α : Type) where
  /-- What the record is called in messages. -/
  name : String
  /-- No members found yet. -/
  start : σ
  /-- Take a member of the given name and value. -/
  member : σ → String → Json → Decoded σ
  /-- The record of the members found. -/
  finish : σ → Decoded α
  /-- The record of the items of an array. -/
  items : FromItems α

variable {σ α : Type}

/-- The record of some members, after all of which the object may be cut off. -/
def Shape.ofMembers (shape : Shape σ α) (members : List (String × Json))
    (stop : Option ReadError) : Decoded α := do
  let found ← members.foldlM (fun found (name, v) => shape.member found name v) shape.start
  whole stop
  shape.finish found

/-- The record of some items, after all of which the array may be cut off. -/
def Shape.ofItems (shape : Shape σ α) (setting : Setting) (items : List Json)
    (stop : Option ReadError) : Decoded α := do
  let (record, left) ← shape.items.run ⟨items, stop, 0⟩
  let _ ← (noMoreItems setting).run left
  return record

/-- The record that a value is. -/
def Shape.decode (shape : Shape σ α) (setting : Setting) (v : Json) : Decoded α :=
  match v with
  | .object members stop => shape.ofMembers members stop
  | .array items stop => shape.ofItems setting items stop
  | v => .error (v.mismatch shape.name)

/-! ## Texts -/

/-- The value that a text holds, decoded. That something follows it, or that it is cut
    off in a part that the decoder has passed over, is found last. -/
def decodeText {α : Type} (read : Json → Decoded α) (text : String) : Decoded α := do
  let document := Document.ofString text
  let a ← read document.value
  whole document.value.fault?
  if document.trailing then
    throw (.text .malformed)
  return a

end NeighborSearch.Json
