import Mathlib.Algebra.Ring.Nat
import NeighborSearch.Proofs.Json.Config
import NeighborSearch.Proofs.Json.Inner
import NeighborSearch.Proofs.Run.File
import NeighborSearch.Proofs.Run.Record

/-!
# Where launch configurations come from

A launch configuration is the standard one, or built from a builder whose setters have been
called, or decoded: from a text of its own, or from inside a device configuration or a run of a
file. On all of these routes there is a builder that has built it
(`LaunchConfig.Obtained.fromBuilder`), so none of them hands on what a builder would refuse.
-/

namespace NeighborSearch

open Json

/-! ## Routes -/

namespace LaunchConfig

/-- The ways in which a launch configuration is obtained. -/
inductive Obtained : LaunchConfig → Prop
  | standard : Obtained .standard
  | built {calls : List (Parameter × Size)} {c : LaunchConfig}
      (h : (Builder.afterCalls calls).build = .ok c) : Obtained c
  | decoded {text : String} {c : LaunchConfig} (h : decodeText (ofJson .direct) text = .ok c) :
      Obtained c
  | inDevice {text : String} {device : DeviceConfig}
      (h : decodeText (DeviceConfig.ofJson .direct) text = .ok device) : Obtained device.launch
  | inRunFile {text : String} {file : RunFile} {run : SelectRun}
      (h : RunFile.parse text = .ok file) (hrun : .select run ∈ file.runs) :
      Obtained run.device.launch

/-- That a builder has built the configuration: one in which nothing is set, one whose setters
    have been called, or one that has been decoded. -/
def FromBuilder (c : LaunchConfig) : Prop :=
  ∃ b : Builder, b.build = .ok c ∧
    ((∃ calls, b = Builder.afterCalls calls) ∨ ∃ setting v, Builder.ofJson setting v = .ok b)

theorem fromBuilder_standard : FromBuilder .standard :=
  ⟨.empty, rfl, .inl ⟨[], rfl⟩⟩

theorem fromBuilder_of_ofJson {setting : Json.Setting} {v : Json} {c : LaunchConfig}
    (h : ofJson setting v = .ok c) : c.FromBuilder := by
  obtain ⟨b, hb, hbuild⟩ := ofJson_eq_ok_iff_build.1 h
  exact ⟨b, hbuild, .inr ⟨setting, v, hb⟩⟩

theorem fromBuilder_of_device {setting : Json.Setting} {v : Json} {device : DeviceConfig}
    (hspelled : v.IsSpelled) (h : DeviceConfig.ofJson setting v = .ok device) :
    device.launch.FromBuilder := by
  obtain ⟨-, -, hlaunch⟩ := (DeviceConfig.ofJson_eq_ok_iff hspelled.fault?_eq_none).1 h
  obtain ⟨w, -, hw⟩ | hdefault := hlaunch.exists_inner
  · exact fromBuilder_of_ofJson hw
  · rw [← Option.some.inj hdefault]
    exact fromBuilder_standard

theorem fromBuilder_of_run {v : Json} {run : SelectRun} (hspelled : v.IsSpelled)
    (h : Run.ofJson v = .ok (.select run)) : run.device.launch.FromBuilder := by
  obtain ⟨-, -, hrun⟩ := (Run.ofJson_eq_ok_iff hspelled.fault?_eq_none).1 h
  obtain ⟨w, hmem, hw⟩ | hdefault := hrun.device.exists_inner
  · exact fromBuilder_of_device (hspelled.inner hmem) hw
  · rw [← Option.some.inj hdefault]
    exact fromBuilder_standard

/-- On every route there is a builder. -/
theorem Obtained.fromBuilder {c : LaunchConfig} (h : Obtained c) : c.FromBuilder := by
  cases h with
  | standard => exact fromBuilder_standard
  | @built calls c h => exact ⟨_, h, .inl ⟨calls, rfl⟩⟩
  | decoded h =>
    obtain ⟨s, -, h⟩ := decodeText_eq_ok_iff.1 h
    exact fromBuilder_of_ofJson h
  | inDevice h =>
    obtain ⟨s, -, h⟩ := decodeText_eq_ok_iff.1 h
    exact fromBuilder_of_device ⟨_, s, rfl⟩ h
  | @inRunFile text file run h hrun =>
    obtain ⟨s, -, h⟩ := decodeText_eq_ok_iff.1 (RunFile.parse_eq_ok_iff.1 h).1
    have hspelled : s.value.IsSpelled := ⟨_, s, rfl⟩
    obtain ⟨-, hruns⟩ := (RunFile.ofJson_eq_ok_iff hspelled.fault?_eq_none).1 h
    obtain ⟨w, hmem, hw⟩ | hdefault := hruns.exists_inner
    · obtain ⟨-, -, hmap⟩ := mapM_of_list hw
      obtain ⟨v, hv, hread⟩ := exists_of_mapM hmap hrun
      exact fromBuilder_of_run ((hspelled.inner hmem).inner hv) hread
    · cases hdefault

theorem ofJson_of_build_error {setting : Json.Setting} {v : Json} {b : Builder} {e : ConfigError}
    (hb : Builder.ofJson setting v = .ok b) (he : b.build = .error e) :
    ofJson setting v = .error (.data (.rejected e.message)) := by
  rw [ofJson, hb, ok_bind, he]
  rfl

/-- What calls of the setters of a builder come to. -/
structure SettersDecide : Prop where
  /-- Only the last value counts that a parameter is set to. -/
  last : ∀ calls calls', (∀ p, Builder.lastSet? calls p = Builder.lastSet? calls' p) →
    (Builder.afterCalls calls).build = (Builder.afterCalls calls').build
  /-- A configuration is built if none of these values is zero or beyond the limit of its
      parameter. -/
  built : ∀ calls, (∃ c, (Builder.afterCalls calls).build = .ok c) ↔
    ∀ p value, Builder.lastSet? calls p = some value → p.Allows value
  /-- Otherwise the first parameter that is wrong is reported. -/
  first : ∀ calls e, (Builder.afterCalls calls).build = .error e ↔
    Parameter.all.findSome? (fun p => (Builder.lastSet? calls p).bind p.violation?) = some e
  /-- The configuration has these values, and the standard ones for parameters that are not
      set. -/
  values : ∀ calls c, (Builder.afterCalls calls).build = .ok c ↔
    ∀ p, (Builder.lastSet? calls p).getD (standard.get p).val = (c.get p).val

/-- Decoding a configuration is decoding a builder and building. -/
structure DecodedByBuilding : Prop where
  text : ∀ text c, decodeText (ofJson .direct) text = .ok c ↔
    ∃ b, decodeText (Builder.ofJson .direct) text = .ok b ∧ b.build = .ok c
  /-- If only the building fails, the error is that of the builder, in its words. -/
  text_error : ∀ text b e, decodeText (Builder.ofJson .direct) text = .ok b →
    b.build = .error e → decodeText (ofJson .direct) text = .error (.data (.rejected e.message))
  /-- The same is true of values inside of a text. -/
  value : ∀ setting v c, ofJson setting v = .ok c ↔
    ∃ b, Builder.ofJson setting v = .ok b ∧ b.build = .ok c
  value_error : ∀ setting v b e, Builder.ofJson setting v = .ok b → b.build = .error e →
    ofJson setting v = .error (.data (.rejected e.message))

/-- The configuration has been built, and is within the bounds. -/
structure Valid (c : LaunchConfig) : Prop where
  from_builder : c.FromBuilder
  lanes_pos : 0 < c.lanes.toNat
  lanes_le : c.lanes.toNat ≤ 1024
  tile_pos : 0 < c.tile.toNat
  tile_le : c.tile.toNat ≤ 2 ^ 24
  rowsPerGroup_pos : 0 < c.rowsPerGroup.toNat
  /-- The builder with its values builds it again. -/
  rebuilt : (Builder.ofConfig c).build = .ok c

theorem settersDecide : SettersDecide where
  last calls calls' h := by
    refine congrArg Builder.build (Builder.ext_get fun p => ?_)
    rw [Builder.get_afterCalls, Builder.get_afterCalls, h]
  built calls := by simp only [Builder.exists_build_iff, Builder.get_afterCalls]
  first calls e := by
    simp only [Builder.build_eq_error_iff, Builder.violation?, Builder.get_afterCalls]
  values calls c := by simp only [Builder.build_eq_ok_iff, Builder.get_afterCalls]

theorem decodedByBuilding : DecodedByBuilding where
  text text c := by
    simp only [decodeText_eq_ok_iff, ofJson_eq_ok_iff_build]
    constructor
    · rintro ⟨s, hs, b, hb, hc⟩
      exact ⟨b, ⟨s, hs, hb⟩, hc⟩
    · rintro ⟨b, ⟨s, hs, hb⟩, hc⟩
      exact ⟨s, hs, b, hb, hc⟩
  text_error text b e hb he := by
    obtain ⟨s, rfl, hread⟩ := decodeText_eq_ok_iff.1 hb
    rw [s.decodeText_text, ofJson_of_build_error hread he]
  value setting v c := ofJson_eq_ok_iff_build
  value_error setting v b e := ofJson_of_build_error

theorem Obtained.valid {c : LaunchConfig} (h : Obtained c) : c.Valid where
  from_builder := h.fromBuilder
  lanes_pos := c.lanes.toNat_pos
  lanes_le := c.lanes_le
  tile_pos := c.tile.toNat_pos
  tile_le := c.tile_le
  rowsPerGroup_pos := c.rowsPerGroup.toNat_pos
  rebuilt := Builder.build_ofConfig c

/-- Launch configurations are valid on every route: whether a builder has been set up call by
    call, or has been decoded, and wherever the configuration was found. -/
theorem valid_on_every_route :
    SettersDecide ∧ DecodedByBuilding ∧ ∀ c, Obtained c → c.Valid :=
  ⟨settersDecide, decodedByBuilding, fun _ => Obtained.valid⟩

/-- The lanes are set to zero first, and to something else in the end. -/
def lanesTwice : List (Parameter × Size) := [(.lanes, 0), (.tile, 4096), (.lanes, 16)]

/-- No lanes at all. -/
def noLanes : Builder := ⟨some 0, none, none⟩

/-- The first value of the lanes does not matter, and that there are no lanes is an error when
    they are decoded. -/
theorem build_lanesTwice :
    (∀ p, Builder.lastSet? lanesTwice p =
      Builder.lastSet? [(.lanes, 16), (.tile, 4096)] p) ∧
    (Builder.afterCalls lanesTwice).build =
      (Builder.afterCalls [(.lanes, 16), (.tile, 4096)]).build ∧
    (∃ c, (Builder.afterCalls lanesTwice).build = .ok c) ∧
    noLanes.build = .error (.zero .lanes) ∧
    decodeText (Builder.ofJson .direct) noLanes.toJson.compact = .ok noLanes ∧
    decodeText (ofJson .direct) noLanes.toJson.compact =
      .error (.data (.rejected (ConfigError.zero .lanes).message)) ∧
    Obtained .standard ∧ FromBuilder .standard := by
  obtain ⟨hsetters, hdecoded, hobtained⟩ := valid_on_every_route
  have hlast : ∀ p, Builder.lastSet? lanesTwice p =
      Builder.lastSet? [(.lanes, 16), (.tile, 4096)] p := by
    intro p
    cases p <;> rfl
  have htext : decodeText (Builder.ofJson .direct) noLanes.toJson.compact = .ok noLanes := by
    rw [Json.compact, decodeText_chars _ (noLanes.plain_toJson 126), noLanes.ofJson_toJson]
  refine ⟨hlast, hsetters.last _ _ hlast, (hsetters.built lanesTwice).2 ?_, rfl, htext,
    hdecoded.text_error _ noLanes _ htext rfl, .standard, (hobtained _ .standard).from_builder⟩
  intro p value hvalue
  cases p with
  | lanes =>
    obtain rfl : 16 = value := Option.some.inj hvalue
    exact ⟨by decide, fun limit hlimit => Option.some.inj hlimit ▸ (by decide)⟩
  | tile =>
    obtain rfl : 4096 = value := Option.some.inj hvalue
    exact ⟨by decide, fun limit hlimit => Option.some.inj hlimit ▸ (by decide)⟩
  | rowsPerGroup => cases hvalue

end LaunchConfig

end NeighborSearch
