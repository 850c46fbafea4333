import NeighborSearch.Json.Config
import NeighborSearch.Proofs.Json.Record
import NeighborSearch.Proofs.Selection.Builder

/-!
# Configurations place by place

What a builder, a launch configuration or a device configuration is decoded from is told by what
the value holds at the places of its members (`Builder.ofJson_eq_ok_iff`,
`LaunchConfig.ofJson_eq_ok_iff`, `DeviceConfig.ofJson_eq_ok_iff`). A launch configuration has the
places of the builder that builds it, with the standard values where the builder has nothing.
-/

namespace NeighborSearch

open Json

/-- Where a builder has a parameter. -/
def Parameter.place : Parameter → Json.Place
  | .lanes => ⟨"lanes", 0⟩
  | .tile => ⟨"tile", 1⟩
  | .rowsPerGroup => ⟨"rows_per_group", 2⟩

namespace Builder

variable {b : Builder} {members : List (String × Json)} {values : List Json}
  {setting : Json.Setting}

theorem foldlM_member_eq_ok_iff {found found' : Found} :
    members.foldlM (fun found m => shape.member found m.1 m.2) found = .ok found' ↔
      (∀ m ∈ members, m.1 ∈ fieldNames) ∧
        collect "lanes" (nullable size) found.lanes members = .ok found'.lanes ∧
        collect "tile" (nullable size) found.tile members = .ok found'.tile ∧
        collect "rows_per_group" (nullable size) found.rowsPerGroup members =
          .ok found'.rowsPerGroup := by
  induction members generalizing found with
  | nil =>
    obtain ⟨_, _, _⟩ := found
    obtain ⟨_, _, _⟩ := found'
    simp [pure, Except.pure]
  | cons m members ih =>
    obtain ⟨name, v⟩ := m
    rw [List.foldlM_cons, bind_eq_ok_iff]
    simp only [ih]
    simp only [shape]
    split
    all_goals
      simp [collect_cons_self, collect_cons_of_ne, bind_eq_ok_iff, functor_map_eq_ok_iff,
        fieldNames, Parameter.name]
      tauto

theorem ofMembers_eq_ok_iff :
    shape.ofMembers members none = .ok b ↔ (∀ m ∈ members, m.1 ∈ fieldNames) ∧
      ∀ p : Parameter,
        p.place.Holds (nullable size) (some none) (.ofMembers members) (b.get p) := by
  simp only [Shape.ofMembers_eq_ok_iff, foldlM_member_eq_ok_iff, Place.holds_some_iff,
    Parameter.forall_iff, get, Parameter.place]
  constructor
  · rintro ⟨⟨lanes, tile, rowsPerGroup⟩, ⟨hnames, hlanes, htile, hrows⟩, hb⟩
    obtain rfl := Except.ok.inj hb
    exact ⟨hnames, ⟨lanes, hlanes, (join_eq_getD _).symm⟩, ⟨tile, htile, (join_eq_getD _).symm⟩,
      ⟨rowsPerGroup, hrows, (join_eq_getD _).symm⟩⟩
  · rintro ⟨hnames, ⟨lanes, hlanes, hlanes'⟩, ⟨tile, htile, htile'⟩, ⟨rows, hrows, hrows'⟩⟩
    refine ⟨⟨lanes, tile, rows⟩, ⟨hnames, hlanes, htile, hrows⟩, ?_⟩
    simp only [shape, join_eq_getD, hlanes', htile', hrows']
    rfl

theorem ofItems_eq_ok_iff :
    shape.ofItems setting values none = .ok b ↔ values.length ≤ fieldNames.length ∧
      ∀ p : Parameter, p.place.Holds (nullable size) (some none) (.ofItems values) (b.get p) := by
  obtain ⟨lanes, tile, rowsPerGroup⟩ := b
  simp only [Shape.ofItems_eq_ok_iff, shape, run_bind_eq_ok_iff, run_itemOr_eq_ok_iff, and_assoc,
    exists_and_left, exists_eq_left, run_pure_eq_ok_iff, itemHolds_tail_iff, Prod.mk.injEq]
  simp [run_noMoreItems_eq_ok_iff, Nat.sub_sub, Nat.sub_eq_zero_iff_le, fieldNames,
    Parameter.forall_iff, Place.holds_ofItems_iff, get, Parameter.place]
  tauto

/-- A builder is decoded from a value that has nothing but parameters, if it holds what is set in
    the builder. -/
theorem ofJson_eq_ok_iff {v : Json} (hwhole : v.fault? = none) :
    ofJson setting v = .ok b ↔ v.Within fieldNames ∧
      ∀ p : Parameter, p.place.Holds (nullable size) (some none) v (b.get p) := by
  rw [ofJson]
  apply Shape.decode_eq_ok_iff
  case hobject => exact fun _ => ofMembers_eq_ok_iff
  case harray => exact fun _ => ofItems_eq_ok_iff
  case hcontainer => exact fun h => h.1.isContainer
  case hwhole => exact hwhole

end Builder

/-! ## Launch configurations -/

/-- The value of a parameter as it is written: the standard one where there is `null`. -/
def Parameter.ofJson (p : Parameter) (v : Json) : Decoded Size :=
  (·.getD (LaunchConfig.standard.get p).val) <$> nullable size v

namespace LaunchConfig

variable {c : LaunchConfig} {setting : Json.Setting} {v : Json}

theorem ofJson_eq_ok_iff_build :
    ofJson setting v = .ok c ↔ ∃ b, Builder.ofJson setting v = .ok b ∧ b.build = .ok c := by
  rw [ofJson, bind_eq_ok_iff]
  refine exists_congr fun b => and_congr_right fun _ => ?_
  cases b.build with
  | ok c' =>
    exact ⟨fun h => congrArg Except.ok (Except.ok.inj h),
      fun h => congrArg Except.ok (Except.ok.inj h)⟩
  | error e => exact ⟨nofun, nofun⟩

/-- A launch configuration is decoded from a value that has nothing but parameters, if it holds
    the values of the configuration. -/
theorem ofJson_eq_ok_iff (hwhole : v.fault? = none) :
    ofJson setting v = .ok c ↔ v.Within Builder.fieldNames ∧
      ∀ p : Parameter, p.place.Holds p.ofJson (some (standard.get p).val) v (c.get p).val := by
  simp only [ofJson_eq_ok_iff_build, Builder.ofJson_eq_ok_iff hwhole, Builder.build_eq_ok_iff]
  have hplace : ∀ p : Parameter, p.place.Holds p.ofJson (some (standard.get p).val) v
      (c.get p).val ↔ ∃ set, p.place.Holds (nullable size) (some none) v set ∧
        set.getD (standard.get p).val = (c.get p).val :=
    fun p => Place.holds_map_iff (d := none)
  simp only [hplace]
  constructor
  · rintro ⟨b, ⟨hwithin, hholds⟩, hvalues⟩
    exact ⟨hwithin, fun p => ⟨b.get p, hholds p, hvalues p⟩⟩
  · rintro ⟨hwithin, h⟩
    obtain ⟨lanes, hlanes⟩ := h .lanes
    obtain ⟨tile, htile⟩ := h .tile
    obtain ⟨rows, hrows⟩ := h .rowsPerGroup
    refine ⟨⟨lanes, tile, rows⟩, ⟨hwithin, ?_⟩, ?_⟩ <;> rintro (_ | _ | _)
    exacts [hlanes.1, htile.1, hrows.1, hlanes.2, htile.2, hrows.2]

end LaunchConfig

/-! ## Device configurations -/

namespace DeviceConfig

variable {c : DeviceConfig} {setting : Json.Setting} {v : Json} {members : List (String × Json)}
  {values : List Json}

/-- The names of the members. -/
def fieldNames : List String := ["num_threads", "launch"]

/-- Where a device configuration has the number of threads. -/
def threadsPlace : Json.Place := ⟨"num_threads", 0⟩

/-- Where a device configuration has the launch configuration. -/
def launchPlace : Json.Place := ⟨"launch", 1⟩

theorem foldlM_member_eq_ok_iff {found found' : Found} :
    members.foldlM (fun found m => (shape setting).member found m.1 m.2) found = .ok found' ↔
      (∀ m ∈ members, m.1 ∈ fieldNames) ∧
        collect "num_threads" (nullable posSize) found.numThreads members =
          .ok found'.numThreads ∧
        collect "launch" (LaunchConfig.ofJson setting) found.launch members =
          .ok found'.launch := by
  induction members generalizing found with
  | nil =>
    obtain ⟨_, _⟩ := found
    obtain ⟨_, _⟩ := found'
    simp [pure, Except.pure]
  | cons m members ih =>
    obtain ⟨name, v⟩ := m
    rw [List.foldlM_cons, bind_eq_ok_iff]
    simp only [ih]
    simp only [shape]
    split
    all_goals
      simp [collect_cons_self, collect_cons_of_ne, bind_eq_ok_iff, functor_map_eq_ok_iff,
        fieldNames]
      tauto

theorem ofMembers_eq_ok_iff :
    (shape setting).ofMembers members none = .ok c ↔ (∀ m ∈ members, m.1 ∈ fieldNames) ∧
      threadsPlace.Holds (nullable posSize) (some none) (.ofMembers members) c.numThreads ∧
      launchPlace.Holds (LaunchConfig.ofJson setting) (some .standard) (.ofMembers members)
        c.launch := by
  simp only [Shape.ofMembers_eq_ok_iff, foldlM_member_eq_ok_iff, Place.holds_some_iff,
    threadsPlace, launchPlace]
  constructor
  · rintro ⟨⟨numThreads, launch⟩, ⟨hnames, hthreads, hlaunch⟩, hc⟩
    obtain rfl := Except.ok.inj hc
    exact ⟨hnames, ⟨numThreads, hthreads, (join_eq_getD _).symm⟩, ⟨launch, hlaunch, rfl⟩⟩
  · rintro ⟨hnames, ⟨numThreads, hthreads, hthreads'⟩, ⟨launch, hlaunch, hlaunch'⟩⟩
    refine ⟨⟨numThreads, launch⟩, ⟨hnames, hthreads, hlaunch⟩, ?_⟩
    simp only [shape, join_eq_getD, hthreads', hlaunch']
    rfl

theorem ofItems_eq_ok_iff :
    (shape setting).ofItems setting values none = .ok c ↔ values.length ≤ fieldNames.length ∧
      threadsPlace.Holds (nullable posSize) (some none) (.ofItems values) c.numThreads ∧
      launchPlace.Holds (LaunchConfig.ofJson setting) (some .standard) (.ofItems values)
        c.launch := by
  obtain ⟨numThreads, launch⟩ := c
  simp only [Shape.ofItems_eq_ok_iff, shape, run_bind_eq_ok_iff, run_itemOr_eq_ok_iff, and_assoc,
    exists_and_left, exists_eq_left, run_pure_eq_ok_iff, itemHolds_tail_iff, Prod.mk.injEq]
  simp [run_noMoreItems_eq_ok_iff, Nat.sub_sub, Nat.sub_eq_zero_iff_le, fieldNames,
    Place.holds_ofItems_iff, threadsPlace, launchPlace]
  tauto

/-- A device configuration is decoded from a value that has nothing but its two members, if it
    holds them. -/
theorem ofJson_eq_ok_iff (hwhole : v.fault? = none) :
    ofJson setting v = .ok c ↔ v.Within fieldNames ∧
      threadsPlace.Holds (nullable posSize) (some none) v c.numThreads ∧
      launchPlace.Holds (LaunchConfig.ofJson setting) (some .standard) v c.launch := by
  rw [ofJson]
  apply Shape.decode_eq_ok_iff
  case hobject => exact fun _ => ofMembers_eq_ok_iff
  case harray => exact fun _ => ofItems_eq_ok_iff
  case hcontainer => exact fun h => h.1.isContainer
  case hwhole => exact hwhole

end DeviceConfig

end NeighborSearch
