import NeighborSearch.Size

/-!
# Launch configurations

The geometry of a selection is set by three parameters. A `Builder` holds those that
have been set, to any size; `Builder.build` puts in the defaults and checks the
bounds, in the order of the parameters. A `LaunchConfig` carries the proofs that its
parameters are within their bounds, so every one of them, however it was obtained,
is fit to run with.
-/

namespace NeighborSearch

/-- A parameter of a launch. -/
inductive Parameter
  /-- The number of slices a row is cut into. -/
  | lanes
  /-- The number of columns that a lane takes at a time. -/
  | tile
  /-- The number of rows that are worked on one after the other. -/
  | rowsPerGroup
deriving DecidableEq, Repr

/-- The name of a parameter. -/
def Parameter.name : Parameter → String
  | .lanes => "lanes"
  | .tile => "tile"
  | .rowsPerGroup => "rows_per_group"

/-- Why a parameter is refused. -/
inductive ConfigError
  /-- The parameter is zero. -/
  | zero (parameter : Parameter)
  /-- The parameter is beyond its limit. -/
  | tooLarge (parameter : Parameter) (value limit : Nat)
deriving DecidableEq, Repr

/-- The error in words. -/
def ConfigError.message : ConfigError → String
  | .zero parameter => s!"parameter \"{parameter.name}\" invalid because it cannot be zero"
  | .tooLarge parameter value limit =>
    s!"parameter \"{parameter.name}\" ({value}) must not exceed {limit}"

/-- The greatest number of lanes. -/
def maxLanes : Nat := 1024

/-- The greatest tile. -/
def maxTile : Nat := 0x1000000

/-- A geometry to launch a selection with. -/
structure LaunchConfig where
  /-- The number of slices a row is cut into, at most. -/
  lanes : PosSize
  /-- The number of columns that a lane takes at a time. -/
  tile : PosSize
  /-- The number of rows that are worked on one after the other. -/
  rowsPerGroup : PosSize
  lanes_le : lanes.toNat ≤ maxLanes
  tile_le : tile.toNat ≤ maxTile
deriving DecidableEq

/-- The geometry used where nothing else is asked for. -/
def LaunchConfig.standard : LaunchConfig where
  lanes := ⟨32, by decide⟩
  tile := ⟨2048, by decide⟩
  rowsPerGroup := ⟨1, by decide⟩
  lanes_le := by decide
  tile_le := by decide

instance : Inhabited LaunchConfig := ⟨.standard⟩

/-- The parameters of a launch that have been set. -/
structure Builder where
  /-- The number of lanes, if set. -/
  lanes : Option Size
  /-- The tile, if set. -/
  tile : Option Size
  /-- The rows of a group, if set. -/
  rowsPerGroup : Option Size
deriving DecidableEq

namespace Builder

/-- Nothing is set. -/
def empty : Builder := ⟨none, none, none⟩

/-- Set one parameter. -/
def set (b : Builder) (parameter : Parameter) (value : Size) : Builder :=
  match parameter with
  | .lanes => { b with lanes := some value }
  | .tile => { b with tile := some value }
  | .rowsPerGroup => { b with rowsPerGroup := some value }

/-- What a parameter has been set to. -/
def get (b : Builder) : Parameter → Option Size
  | .lanes => b.lanes
  | .tile => b.tile
  | .rowsPerGroup => b.rowsPerGroup

/-- The value of a parameter that must not be zero, or its default. -/
def nonzero (parameter : Parameter) (value : Option Size) (default : PosSize) :
    Except ConfigError PosSize :=
  match value with
  | none => .ok default
  | some value =>
    match PosSize.ofSize? value with
    | some value => .ok value
    | none => .error (.zero parameter)

/-- That a parameter does not exceed its limit. -/
def atMost (parameter : Parameter) (value : PosSize) (limit : Nat) :
    Except ConfigError (PLift (value.toNat ≤ limit)) :=
  if h : value.toNat ≤ limit then .ok ⟨h⟩ else .error (.tooLarge parameter value.toNat limit)

/-- The configuration with the parameters that are set, and the defaults for the
    others. -/
def build (b : Builder) : Except ConfigError LaunchConfig := do
  let lanes ← nonzero .lanes b.lanes LaunchConfig.standard.lanes
  let ⟨lanes_le⟩ ← atMost .lanes lanes maxLanes
  let tile ← nonzero .tile b.tile LaunchConfig.standard.tile
  let ⟨tile_le⟩ ← atMost .tile tile maxTile
  let rowsPerGroup ← nonzero .rowsPerGroup b.rowsPerGroup LaunchConfig.standard.rowsPerGroup
  return { lanes, tile, rowsPerGroup, lanes_le, tile_le }

/-- The builder in which the parameters of a configuration are set. -/
def ofConfig (c : LaunchConfig) : Builder :=
  ⟨some c.lanes.val, some c.tile.val, some c.rowsPerGroup.val⟩

end Builder

/-- The configuration of a device. -/
structure DeviceConfig where
  /-- The number of threads asked for; without one, the device chooses. -/
  numThreads : Option PosSize
  /-- The geometry of everything launched on the device. -/
  launch : LaunchConfig
deriving DecidableEq

/-- The configuration used where nothing else is asked for. -/
def DeviceConfig.standard : DeviceConfig := ⟨none, .standard⟩

/-- The most threads that a device has. -/
def DeviceConfig.maxThreads : Nat := 65535

/-- The number of threads that the device has, unless it chooses that. -/
def DeviceConfig.threads? (c : DeviceConfig) : Option Nat :=
  c.numThreads.map fun n => min n.toNat maxThreads

end NeighborSearch
