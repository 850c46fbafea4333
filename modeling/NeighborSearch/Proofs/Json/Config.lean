import NeighborSearch.Json.Config
import NeighborSearch.Proofs.Json.Read

/-!
# Configurations are read back

A builder is read back from the parameters that are set in it, whatever their values are. A
launch configuration is written as the builder with all of its parameters, which builds it
again (`Builder.build_ofConfig`), and a device configuration with its number of threads, or
with `null` where it leaves that to the device.
-/

namespace NeighborSearch

@[simp] theorem PosSize.ofSize?_val (n : PosSize) : ofSize? n.val = some n := dif_pos n.pos

/-! ## Simple values and records -/

namespace Json

variable {σ α : Type} {read : Json → Decoded α}

@[simp] theorem size_ofNat (n : Size) : size (.ofNat n.toNat) = .ok n :=
  congrArg Except.ok UInt64.ofNat_toNat

@[simp] theorem posSize_ofNat (n : PosSize) : posSize (.ofNat n.toNat) = .ok n := by
  have hval : UInt64.ofNat n.toNat = n.val := UInt64.ofNat_toNat
  have hint : ofNat n.toNat = .int (.ofNat n.toNat) := rfl
  simp only [hint, posSize, hval, PosSize.ofSize?_val]

@[simp] theorem nullable_null : nullable read .null = .ok none := rfl

@[simp] theorem nullable_ofNat (n : ℕ) : nullable read (.ofNat n) = some <$> read (.ofNat n) :=
  rfl

/-- The members of a whole object are taken one after the other. -/
theorem Shape.decode_ofMembers (shape : Shape σ α) (setting : Setting)
    (members : List (String × Json)) :
    shape.decode setting (.ofMembers members) =
      (members.foldlM (fun found m => shape.member found m.1 m.2) shape.start >>= shape.finish) :=
  rfl

end Json

/-! ## Builders -/

namespace Builder

theorem plain_toJson (b : Builder) (depth : ℕ) : Json.Plain (depth + 1) b.toJson := by
  refine .object fun m hm => ?_
  obtain ⟨parameter, -, hm⟩ := List.mem_filterMap.1 hm
  obtain ⟨value, -, rfl⟩ := Option.map_eq_some_iff.1 hm
  exact .ofNat value.toNat_lt

/-- A builder is read back from the parameters that are set in it. -/
theorem ofJson_toJson (setting : Json.Setting) (b : Builder) :
    ofJson setting b.toJson = .ok b := by
  obtain ⟨lanes, tile, rowsPerGroup⟩ := b
  rw [ofJson, toJson, Json.Shape.decode_ofMembers]
  cases lanes <;> cases tile <;> cases rowsPerGroup <;>
    simp [shape, get, Parameter.name, Json.once, bind, Except.bind, pure, Except.pure,
      Functor.map, Except.map]

@[simp] theorem nonzero_val (parameter : Parameter) (value default : PosSize) :
    nonzero parameter (some value.val) default = .ok value := by
  rw [nonzero, PosSize.ofSize?_val]

theorem atMost_eq_ok {parameter : Parameter} {value : PosSize} {limit : ℕ}
    (h : value.toNat ≤ limit) : atMost parameter value limit = .ok ⟨h⟩ :=
  dif_pos h

/-- The parameters of a configuration build it again. -/
theorem build_ofConfig (c : LaunchConfig) : (ofConfig c).build = .ok c := by
  rw [build, ofConfig, nonzero_val, ok_bind, atMost_eq_ok c.lanes_le, ok_bind, nonzero_val]
  simp only [ok_bind]
  rw [atMost_eq_ok c.tile_le, ok_bind, nonzero_val]
  rfl

end Builder

/-! ## Configurations -/

namespace LaunchConfig

theorem plain_toJson (c : LaunchConfig) (depth : ℕ) : Json.Plain (depth + 1) c.toJson :=
  (Builder.ofConfig c).plain_toJson depth

/-- A launch configuration is read back from its parameters. -/
theorem ofJson_toJson (setting : Json.Setting) (c : LaunchConfig) :
    ofJson setting c.toJson = .ok c := by
  rw [ofJson, toJson, Builder.ofJson_toJson, ok_bind, Builder.build_ofConfig]
  rfl

end LaunchConfig

namespace DeviceConfig

theorem plain_toJson (c : DeviceConfig) (depth : ℕ) : Json.Plain (depth + 2) c.toJson := by
  obtain ⟨numThreads, launch⟩ := c
  refine .object fun m hm => ?_
  rcases List.mem_cons.1 hm with rfl | hm
  · cases numThreads with
    | none => exact .null
    | some n => exact .ofNat n.toNat_lt_limit
  · rw [List.mem_singleton.1 hm]
    exact launch.plain_toJson depth

/-- A device configuration is read back. -/
theorem ofJson_toJson (setting : Json.Setting) (c : DeviceConfig) :
    ofJson setting c.toJson = .ok c := by
  obtain ⟨numThreads, launch⟩ := c
  rw [ofJson, toJson, Json.Shape.decode_ofMembers]
  cases numThreads <;>
    simp [shape, LaunchConfig.ofJson_toJson, Json.once, bind, Except.bind, pure,
      Except.pure, Functor.map, Except.map]

end DeviceConfig

end NeighborSearch
