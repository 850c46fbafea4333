import NeighborSearch.Json.Decode
import NeighborSearch.Selection.Config

/-!
# Configurations in JSON

A launch configuration is written as the builder with its parameters, and read as a
builder that is then built: so it may leave parameters out, and it is refused in the
words of the builder. Members that are not parameters are refused.
-/

namespace NeighborSearch

namespace Builder

/-- The names of the members. -/
def fieldNames : List String := [Parameter.lanes.name, Parameter.tile.name,
  Parameter.rowsPerGroup.name]

/-- The members of a builder as they are found. -/
structure Found where
  lanes : Option (Option Size)
  tile : Option (Option Size)
  rowsPerGroup : Option (Option Size)

/-- How a builder is written. -/
def shape : Json.Shape Found Builder where
  name := "struct Builder"
  start := ⟨none, none, none⟩
  member found name v :=
    match name with
    | "lanes" => do
      return { found with lanes := ← Json.once name found.lanes (v.nullable Json.size) }
    | "tile" => do
      return { found with tile := ← Json.once name found.tile (v.nullable Json.size) }
    | "rows_per_group" => do
      return { found with
        rowsPerGroup := ← Json.once name found.rowsPerGroup (v.nullable Json.size) }
    | _ => .error (.data (.unknownField name fieldNames))
  finish found := return ⟨found.lanes.join, found.tile.join, found.rowsPerGroup.join⟩
  items := do
    let lanes ← Json.itemOr none (Json.nullable Json.size)
    let tile ← Json.itemOr none (Json.nullable Json.size)
    let rowsPerGroup ← Json.itemOr none (Json.nullable Json.size)
    return ⟨lanes, tile, rowsPerGroup⟩

/-- The builder that a value is. -/
def ofJson (setting : Json.Setting) (v : Json) : Decoded Builder :=
  shape.decode setting v

/-- A builder in JSON: the parameters that are set. -/
def toJson (b : Builder) : Json :=
  let member (parameter : Parameter) : Option (String × Json) :=
    (b.get parameter).map fun value => (parameter.name, .ofNat value.toNat)
  .ofMembers ([.lanes, .tile, .rowsPerGroup].filterMap member)

end Builder

namespace LaunchConfig

/-- The launch configuration that a value is: the one that its builder builds. -/
def ofJson (setting : Json.Setting) (v : Json) : Decoded LaunchConfig := do
  let b ← Builder.ofJson setting v
  match b.build with
  | .ok config => return config
  | .error e => throw (.data (.rejected e.message))

/-- A launch configuration in JSON. -/
def toJson (c : LaunchConfig) : Json := (Builder.ofConfig c).toJson

end LaunchConfig

namespace DeviceConfig

/-- The members of a device configuration as they are found. -/
structure Found where
  numThreads : Option (Option PosSize)
  launch : Option LaunchConfig

/-- How a device configuration is written. -/
def shape (setting : Json.Setting) : Json.Shape Found DeviceConfig where
  name := "struct DeviceConfig"
  start := ⟨none, none⟩
  member found name v :=
    match name with
    | "num_threads" => do
      return { found with
        numThreads := ← Json.once name found.numThreads (v.nullable Json.posSize) }
    | "launch" => do
      return { found with launch := ← Json.once name found.launch (LaunchConfig.ofJson setting v) }
    | _ => .error (.data (.unknownField name ["num_threads", "launch"]))
  finish found := return ⟨found.numThreads.join, found.launch.getD .standard⟩
  items := do
    let numThreads ← Json.itemOr none (Json.nullable Json.posSize)
    let launch ← Json.itemOr .standard (LaunchConfig.ofJson setting)
    return ⟨numThreads, launch⟩

/-- The device configuration that a value is. -/
def ofJson (setting : Json.Setting) (v : Json) : Decoded DeviceConfig :=
  (shape setting).decode setting v

/-- A device configuration in JSON. -/
def toJson (c : DeviceConfig) : Json :=
  .ofMembers [
    ("num_threads", match c.numThreads with
      | some n => .ofNat n.toNat
      | none => .null),
    ("launch", c.launch.toJson)]

end DeviceConfig

end NeighborSearch
