import NeighborSearch.Json.Config
import NeighborSearch.Run.Basic

/-!
# Runs in JSON

A run is an object with its kind among its members, or an array with its kind in front.
The kind decides what the other members mean. Since it may come last, the others are
collected first, and decoded only when the text of the run is complete; the kind alone
is decoded where it stands. Members that a run does not have are passed over.
-/

namespace NeighborSearch

open Json (Shape once required itemOr itemOf nullable)

/-! ## Distances -/

namespace Distance

/-- The names of the distances. -/
def names : List String := [bitwise.name, generalized.name]

/-- The distance of a name. -/
def ofName (name : String) : Decoded Distance :=
  match name with
  | "bitwise" => .ok .bitwise
  | "generalized" => .ok .generalized
  | _ => .error (.data (.unknownVariant name names))

/-- The distance that a value is: its name, or an object with its name and nothing. -/
def ofJson (v : Json) : Decoded Distance :=
  match v with
  | .string name => ofName name
  | .object [(name, nothing)] _ => do
    let distance ← ofName name
    match nothing with
    | .null | .object [] _ => return distance
    | v => throw (v.mismatch "unit")
  | .object _ _ => .error (.data (.invalidValue v.found "map with a single key"))
  | v => .error (v.mismatch "string or map")

end Distance

/-! ## The members of runs -/

/-- How often a run is measured where nothing else is asked for. -/
def defaultMeasurements : PosSize := ⟨5, by decide⟩

namespace HammingRun

/-- The members of a scan as they are found. -/
structure Found where
  codeSize : Option PosSize
  numCodes : Option PosSize
  distance : Option Distance
  k : Option (Option PosSize)
  parallel : Option Bool
  numMeasurements : Option PosSize

/-- How a scan is written. -/
def shape : Shape Found HammingRun where
  name := "struct HammingRun"
  start := ⟨none, none, none, none, none, none⟩
  member found name v :=
    match name with
    | "code_size" => do
      return { found with codeSize := ← once name found.codeSize v.posSize }
    | "num_codes" => do
      return { found with numCodes := ← once name found.numCodes v.posSize }
    | "distance" => do
      return { found with distance := ← once name found.distance (Distance.ofJson v) }
    | "k" => do
      return { found with k := ← once name found.k (v.nullable Json.posSize) }
    | "parallel" => do
      return { found with parallel := ← once name found.parallel v.boolean }
    | "num_measurements" => do
      return { found with numMeasurements := ← once name found.numMeasurements v.posSize }
    | _ => .ok found
  finish found := do
    let codeSize ← required "code_size" found.codeSize
    let numCodes ← required "num_codes" found.numCodes
    return {
      codeSize, numCodes
      distance := found.distance.getD .bitwise
      k := found.k.join
      parallel := found.parallel.getD false
      numMeasurements := found.numMeasurements.getD defaultMeasurements }
  items := do
    let expected := "struct HammingRun with 6 elements"
    let codeSize ← itemOf expected Json.posSize
    let numCodes ← itemOf expected Json.posSize
    let distance ← itemOr .bitwise Distance.ofJson
    let k ← itemOr none (nullable Json.posSize)
    let parallel ← itemOr false Json.boolean
    let numMeasurements ← itemOr defaultMeasurements Json.posSize
    return { codeSize, numCodes, distance, k, parallel, numMeasurements }

/-- The members of a scan in JSON. -/
def members (run : HammingRun) : List (String × Json) :=
  [("code_size", .ofNat run.codeSize.toNat), ("num_codes", .ofNat run.numCodes.toNat),
    ("distance", .string run.distance.name)] ++
  (match run.k with
    | some k => [("k", .ofNat k.toNat)]
    | none => []) ++
  [("parallel", .bool run.parallel), ("num_measurements", .ofNat run.numMeasurements.toNat)]

end HammingRun

namespace SelectRun

/-- The members of a selection as they are found. -/
structure Found where
  rows : Option PosSize
  cols : Option PosSize
  k : Option PosSize
  device : Option DeviceConfig
  numMeasurements : Option PosSize

/-- How a selection is written. -/
def shape : Shape Found SelectRun where
  name := "struct SelectRun"
  start := ⟨none, none, none, none, none⟩
  member found name v :=
    match name with
    | "rows" => do
      return { found with rows := ← once name found.rows v.posSize }
    | "cols" => do
      return { found with cols := ← once name found.cols v.posSize }
    | "k" => do
      return { found with k := ← once name found.k v.posSize }
    | "device" => do
      return { found with device := ← once name found.device (DeviceConfig.ofJson .collected v) }
    | "num_measurements" => do
      return { found with numMeasurements := ← once name found.numMeasurements v.posSize }
    | _ => .ok found
  finish found := do
    let rows ← required "rows" found.rows
    let cols ← required "cols" found.cols
    let k ← required "k" found.k
    return {
      rows, cols, k
      device := found.device.getD .standard
      numMeasurements := found.numMeasurements.getD defaultMeasurements }
  items := do
    let expected := "struct SelectRun with 5 elements"
    let rows ← itemOf expected Json.posSize
    let cols ← itemOf expected Json.posSize
    let k ← itemOf expected Json.posSize
    let device ← itemOr .standard (DeviceConfig.ofJson .collected)
    let numMeasurements ← itemOr defaultMeasurements Json.posSize
    return { rows, cols, k, device, numMeasurements }

/-- The members of a selection in JSON. -/
def members (run : SelectRun) : List (String × Json) :=
  [("rows", .ofNat run.rows.toNat), ("cols", .ofNat run.cols.toNat), ("k", .ofNat run.k.toNat),
    ("device", run.device.toJson), ("num_measurements", .ofNat run.numMeasurements.toNat)]

end SelectRun

/-! ## Runs -/

namespace Run

/-- The kinds of runs. -/
inductive Kind
  | hamming
  | select

/-- The name of the member with the kind. -/
def kindField : String := "kind"

/-- The kind that a value names. -/
def Kind.ofJson (v : Json) : Decoded Kind :=
  match v with
  | .string "hamming" => .ok .hamming
  | .string "select" => .ok .select
  | .string name => .error (.data (.unknownVariant name ["hamming", "select"]))
  | v => .error (v.mismatch "variant identifier")

/-- The members of a run, gone through as they stand: the kind is decoded, all others
    only have to be whole. -/
def splitKind : (kind : Option Kind) → List (String × Json) →
    Decoded (Option Kind × List (String × Json))
  | kind, [] => .ok (kind, [])
  | kind, (name, v) :: members => do
    if name = kindField then
      let kind ← once name kind (Kind.ofJson v)
      splitKind kind members
    else
      -- What this member is depends on the kind, which may follow.
      Json.whole v.fault?
      let (kind, others) ← splitKind kind members
      return (kind, (name, v) :: others)

/-- The run of a kind that the value of its other members is. -/
def ofKind : Kind → Json → Decoded Run
  | .hamming, v => hamming <$> HammingRun.shape.decode .collected v
  | .select, v => select <$> SelectRun.shape.decode .collected v

/-- The run that a value is. -/
def ofJson (v : Json) : Decoded Run :=
  match v with
  | .object members stop => do
    let (kind, others) ← splitKind none members
    Json.whole stop
    ofKind (← required kindField kind) (.ofMembers others)
  | .array [] stop => do
    Json.whole stop
    throw (.data (.missingField kindField))
  | .array (first :: rest) stop => do
    let kind ← Kind.ofJson first
    Json.whole stop
    ofKind kind (.ofItems rest)
  | v => .error (v.mismatch "internally tagged enum Run")

/-- A run in JSON: its kind, and then its other members. -/
def toJson : Run → Json
  | hamming run => .ofMembers ((kindField, .string "hamming") :: run.members)
  | select run => .ofMembers ((kindField, .string "select") :: run.members)

end Run

end NeighborSearch
