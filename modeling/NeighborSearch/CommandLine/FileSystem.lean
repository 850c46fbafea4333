import NeighborSearch.CommandLine.Program

/-!
# File systems as values

In a file system there are files and directories, each at a place of its own: the names on
the way to it from the root. A path is followed name by name, from the root if it begins
with a slash, else from the current directory, and every name but the last has to lead to a
directory. Empty names and single dots stay where they are; two dots lead back, and stay at
the root.

Paths and names are limited in length, and the character that ends a path for the system
cannot be in one. A path is looked at as a whole before it is followed, a name when it is
looked up: what is wrong on the way to it comes first.

A file system is all that the program needs of its surroundings (`FileSystem.surroundings`).
-/

namespace NeighborSearch

/-- Why a file cannot be read or written. -/
inductive FileError
  /-- There is no such file, or no such directory on the way to it. -/
  | notFound
  /-- Something on the way to the file is not a directory. -/
  | notADirectory
  /-- It is a directory. -/
  | isADirectory
  /-- The path, or a name in it, is too long. -/
  | nameTooLong
  /-- There is a character in the path that no path has. -/
  | nulInPath
  /-- Its bytes are not a text. -/
  | notText
deriving DecidableEq, Repr

/-- The error in words. -/
def FileError.message : FileError → String
  | .notFound => "No such file or directory (os error 2)"
  | .notADirectory => "Not a directory (os error 20)"
  | .isADirectory => "Is a directory (os error 21)"
  | .nameTooLong => "File name too long (os error 36)"
  | .nulInPath => "file name contained an unexpected NUL byte"
  | .notText => "stream did not contain valid UTF-8"

/-- A place, by the names on the way to it from the root. -/
abbrev Place := List String

namespace Place

/-- The place that a name leads to. -/
def step (here : Place) (name : String) : Place :=
  if name = "" ∨ name = "." then here
  else if name = ".." then here.dropLast
  else here ++ [name]

/-- The names in a path. -/
def names (path : String) : List String := (path.toList.splitOn '/').map String.ofList

/-- The place where a path begins: the root if it begins with a slash. -/
def start (current : Place) (path : String) : Place :=
  if path.startsWith "/" then [] else current

/-- The names in a path without the empty ones at its end. -/
def trimmedNames (path : String) : List String :=
  ((names path).reverse.dropWhile (· = "")).reverse

/-- The number of bytes of the longest names. -/
def longestName : Nat := 255

/-- The number of bytes of the longest paths. -/
def longestPath : Nat := 4095

/-- That a path can be followed. -/
def checkPath (path : String) : Except FileError Unit :=
  if path.toList.contains '\x00' then .error .nulInPath
  else if longestPath < path.utf8ByteSize then .error .nameTooLong
  else .ok ()

/-- That a name can be looked up. -/
def checkName (name : String) : Except FileError Unit :=
  if longestName < name.utf8ByteSize then .error .nameTooLong else .ok ()

end Place

/-- What there may be at a place. -/
inductive Entry
  | file (bytes : ByteArray)
  | directory

/-- Whether there is a directory. -/
def Entry.isDirectory : Entry → Bool
  | .file _ => false
  | .directory => true

/-- Files and directories, by their places, and the current directory. -/
structure FileSystem where
  /-- What there is at a place. -/
  get? : Place → Option Entry
  /-- The place of the current directory. -/
  current : Place
  /-- The root is a directory. -/
  root_eq : get? [] = some .directory
  /-- Whatever there is, is in a directory. -/
  above_eq : ∀ (above : Place) (name : String), get? (above ++ [name]) ≠ none →
    get? above = some .directory

namespace FileSystem

/-- The file system of these files, in which there are no directories but those on the way to
    them and to the current one. -/
def ofFiles (current : Place) (files : List (Place × ByteArray)) : FileSystem where
  get? p :=
    if p <+: current ∨ ∃ file ∈ files, p <+: file.1.dropLast then some .directory
    else (files.lookup p).map .file
  current
  root_eq := if_pos (.inl List.nil_prefix)
  above_eq above name h := by
    have habove : above <+: above ++ [name] := List.prefix_append above [name]
    refine if_pos ?_
    split at h
    case isTrue hway =>
      refine hway.imp habove.trans ?_
      rintro ⟨file, hfile, hprefix⟩
      exact ⟨file, hfile, habove.trans hprefix⟩
    case isFalse =>
      cases hlookup : files.lookup (above ++ [name]) with
      | none => exact absurd (by rw [hlookup]; rfl) h
      | some bytes =>
        obtain ⟨before, after, rfl, -⟩ := List.lookup_eq_some_iff.1 hlookup
        have hup : (above ++ [name]).dropLast = above := List.dropLast_concat
        have hway : above <+: (above ++ [name]).dropLast := (congrArg _ hup).mpr above.prefix_refl
        exact .inr ⟨(above ++ [name], bytes), by simp, hway⟩

variable (s : FileSystem)

/-- Whether there is a directory at a place. -/
def isDirectory (p : Place) : Bool := (s.get? p).any Entry.isDirectory

/-- That a place is a directory. -/
def enter (p : Place) : Except FileError Unit :=
  match s.get? p with
  | some .directory => .ok ()
  | some (.file _) => .error .notADirectory
  | none => .error .notFound

/-- The place that is reached by following names. -/
def follow : (here : Place) → List String → Except FileError Place
  | here, [] => .ok here
  | here, name :: names => do
    s.enter here
    Place.checkName name
    follow (here.step name) names

/-- The place that a path leads to. -/
def resolve (path : String) : Except FileError Place :=
  s.follow (.start s.current path) (Place.names path)

/-- The text of the file that a path leads to. -/
def read (path : String) : Except FileError String := do
  Place.checkPath path
  let p ← s.resolve path
  match s.get? p with
  | none => throw .notFound
  | some .directory => throw .isADirectory
  | some (.file bytes) =>
    match String.fromUTF8? bytes with
    | some text => return text
    | none => throw .notText

/-- That a file may be put at a place: it is in a directory, and is no directory itself. -/
def Admits (p : Place) : Prop := s.isDirectory p.dropLast = true ∧ s.isDirectory p = false

instance (p : Place) : Decidable (s.Admits p) := inferInstanceAs (Decidable (_ ∧ _))

theorem isDirectory_eq_true_iff {s : FileSystem} {p : Place} :
    s.isDirectory p = true ↔ s.get? p = some .directory := by
  rw [isDirectory]
  match s.get? p with
  | none | some (.file _) => exact ⟨nofun, nofun⟩
  | some .directory => exact ⟨fun _ => rfl, fun _ => rfl⟩

/-- The file system with these bytes in the file at a place. -/
def put (p : Place) (bytes : ByteArray) (h : s.Admits p) : FileSystem where
  get? q := if q = p then some (.file bytes) else s.get? q
  current := s.current
  root_eq := by
    rw [if_neg ?_]
    · exact s.root_eq
    · rintro rfl
      exact absurd (isDirectory_eq_true_iff.2 s.root_eq) (by simp [h.2])
  above_eq above name hne := by
    have habove : s.get? above = some .directory := by
      split at hne
      case isTrue hp =>
        have hdirectory := h.1
        rw [← hp, List.dropLast_concat] at hdirectory
        exact isDirectory_eq_true_iff.1 hdirectory
      case isFalse => exact s.above_eq above name hne
    rw [if_neg ?_]
    · exact habove
    · rintro rfl
      exact absurd (isDirectory_eq_true_iff.2 habove) (by simp [h.2])

/-- The file system with a text in the file that a path leads to. A path that ends in a slash,
    and so in an empty name, leads to no file, whatever its last name. -/
def write (path text : String) : Except FileError FileSystem := do
  Place.checkPath path
  let names := Place.trimmedNames path
  let above ← s.follow (.start s.current path) names.dropLast
  s.enter above
  if names ≠ Place.names path then throw .isADirectory
  let name := names.getLast?.getD ""
  Place.checkName name
  if h : s.Admits (above.step name) then
    return s.put (above.step name) text.toUTF8 h
  else
    throw .isADirectory

/-- The program may read and write the files of a file system; time stands still. -/
def surroundings : Surroundings (StateM FileSystem) where
  read path := do
    return (← get).read path |>.mapError FileError.message
  write path text := do
    match (← get).write path text with
    | .ok s =>
      set s
      return .ok ()
    | .error e => return .error e.message
  machine := .still

end FileSystem

end NeighborSearch
