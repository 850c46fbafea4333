import Mathlib.Data.List.Basic
import NeighborSearch.Proofs.Outcome
import NeighborSearch.Selection.Config

/-!
# Builders and what they build

The calls of the setters of a builder come down to the last value that each parameter is set to
(`Builder.get_afterCalls`). A builder builds a configuration unless one of these values breaks
a rule (`Builder.build_eq_error_iff`), and the configuration has the values that are set, and
the standard ones elsewhere (`Builder.build_eq_ok_iff`).
-/

namespace NeighborSearch

/-! ## Parameters -/

namespace Parameter

/-- All parameters, in the order in which they are checked. -/
def all : List Parameter := [.lanes, .tile, .rowsPerGroup]

theorem forall_iff {P : Parameter → Prop} : (∀ p, P p) ↔ P .lanes ∧ P .tile ∧ P .rowsPerGroup :=
  ⟨fun h => ⟨h _, h _, h _⟩, fun ⟨hlanes, htile, hrows⟩ p => by cases p <;> assumption⟩

/-- The greatest value of a parameter, if it is limited. -/
def limit? : Parameter → Option ℕ
  | .lanes => some maxLanes
  | .tile => some maxTile
  | .rowsPerGroup => none

/-- That a parameter may have a value: it is not zero, and within the limit. -/
def Allows (p : Parameter) (value : Size) : Prop :=
  value ≠ 0 ∧ ∀ limit ∈ p.limit?, value.toNat ≤ limit

/-- What is wrong with a value of a parameter. -/
def violation? (p : Parameter) (value : Size) : Option ConfigError :=
  if value = 0 then some (.zero p)
  else (p.limit?.filter (· < value.toNat)).map fun limit => .tooLarge p value.toNat limit

theorem violation?_eq_none_iff (p : Parameter) (value : Size) :
    p.violation? value = none ↔ p.Allows value := by
  rw [violation?, Allows]
  split
  case isTrue h => simp [h]
  case isFalse h =>
    cases p.limit? <;> simp [h, Option.filter]

end Parameter

theorem PosSize.ext_val {m n : PosSize} (h : m.val = n.val) : m = n := by
  cases m
  cases n
  cases h
  rfl

namespace LaunchConfig

/-- The value of a parameter. -/
def get (c : LaunchConfig) : Parameter → PosSize
  | .lanes => c.lanes
  | .tile => c.tile
  | .rowsPerGroup => c.rowsPerGroup

theorem ext_get {c c' : LaunchConfig} (h : ∀ p, (c.get p).val = (c'.get p).val) : c = c' := by
  have hget : ∀ p, c.get p = c'.get p := fun p => PosSize.ext_val (h p)
  obtain ⟨lanes, tile, rowsPerGroup, _, _⟩ := c
  obtain ⟨lanes', tile', rowsPerGroup', _, _⟩ := c'
  obtain rfl : lanes = lanes' := hget .lanes
  obtain rfl : tile = tile' := hget .tile
  obtain rfl : rowsPerGroup = rowsPerGroup' := hget .rowsPerGroup
  rfl

/-- The parameters of a configuration have values that they may have. -/
theorem allows (c : LaunchConfig) (p : Parameter) : p.Allows (c.get p).val := by
  refine ⟨fun h => ?_, fun limit hlimit => ?_⟩
  · have hpos := (c.get p).pos
    rw [h] at hpos
    exact absurd hpos (Nat.lt_irrefl 0)
  · cases p with
    | lanes =>
      obtain rfl := Option.some.inj hlimit
      exact c.lanes_le
    | tile =>
      obtain rfl := Option.some.inj hlimit
      exact c.tile_le
    | rowsPerGroup => cases hlimit

end LaunchConfig

/-! ## Calls of the setters -/

namespace Builder

/-- The builder after calls of its setters, which are none to begin with. -/
def afterCalls (calls : List (Parameter × Size)) : Builder :=
  calls.foldl (fun b call => b.set call.1 call.2) empty

/-- The last value that a parameter is set to. -/
def lastSet? (calls : List (Parameter × Size)) (p : Parameter) : Option Size :=
  (calls.reverse.find? (·.1 = p)).map (·.2)

theorem get_set (b : Builder) (p q : Parameter) (value : Size) :
    (b.set q value).get p = if q = p then some value else b.get p := by
  cases p <;> cases q <;> rfl

theorem get_foldl_set (calls : List (Parameter × Size)) (b : Builder) (p : Parameter) :
    (calls.foldl (fun b call => b.set call.1 call.2) b).get p =
      (lastSet? calls p).or (b.get p) := by
  induction calls generalizing b with
  | nil => rfl
  | cons call calls ih =>
    rw [List.foldl_cons, ih, get_set, lastSet?, lastSet?, List.reverse_cons, List.find?_append]
    cases calls.reverse.find? (·.1 = p) with
    | some last => rfl
    | none => by_cases hp : call.1 = p <;> simp [hp]

/-- Calls come down to the last one for each parameter. -/
theorem get_afterCalls (calls : List (Parameter × Size)) (p : Parameter) :
    (afterCalls calls).get p = lastSet? calls p := by
  have hempty : empty.get p = none := by cases p <;> rfl
  rw [afterCalls, get_foldl_set, hempty, Option.or_none]

theorem ext_get {b b' : Builder} (h : ∀ p, b.get p = b'.get p) : b = b' := by
  obtain ⟨lanes, tile, rowsPerGroup⟩ := b
  obtain ⟨lanes', tile', rowsPerGroup'⟩ := b'
  obtain rfl : lanes = lanes' := h .lanes
  obtain rfl : tile = tile' := h .tile
  obtain rfl : rowsPerGroup = rowsPerGroup' := h .rowsPerGroup
  rfl

/-! ## Building -/

/-- What is wrong with a builder in the first place. -/
def violation? (b : Builder) : Option ConfigError :=
  Parameter.all.findSome? fun p => (b.get p).bind p.violation?

theorem nonzero_cases (p : Parameter) (value : Option Size) (default : PosSize) :
    (∃ n, nonzero p value default = .ok n ∧ n.val = value.getD default.val ∧ value ≠ some 0) ∨
      (nonzero p value default = .error (.zero p) ∧ value = some 0) := by
  cases value with
  | none => exact .inl ⟨default, rfl, rfl, nofun⟩
  | some value =>
    by_cases hzero : value = 0
    · subst hzero
      exact .inr ⟨rfl, rfl⟩
    · have hpos : 0 < value.toNat := Nat.pos_of_ne_zero fun h => hzero (UInt64.toNat_inj.1 h)
      refine .inl ⟨⟨value, hpos⟩, ?_, rfl, fun h => hzero (Option.some.inj h)⟩
      simp only [nonzero, PosSize.ofSize?, dif_pos hpos]

theorem violation?_of_ne_zero {p : Parameter} {value : Size} (h : value ≠ 0) :
    p.violation? value =
      (p.limit?.filter (· < value.toNat)).map fun limit => .tooLarge p value.toNat limit :=
  if_neg h

/-- A parameter with a limit is put in and checked, or something is wrong with it. -/
theorem checked_cases {p : Parameter} {limit : ℕ} (hlimit : p.limit? = some limit)
    (value : Option Size) {default : PosSize} (hdefault : default.toNat ≤ limit) :
    (∃ n, ∃ hn : n.toNat ≤ limit, nonzero p value default = .ok n ∧
        atMost p n limit = .ok ⟨hn⟩ ∧ n.val = value.getD default.val ∧
        value.bind p.violation? = none) ∨
      ∃ e, value.bind p.violation? = some e ∧ (nonzero p value default = .error e ∨
        ∃ n, nonzero p value default = .ok n ∧ atMost p n limit = .error e) := by
  obtain ⟨n, hn, hval, hzero⟩ | ⟨herror, rfl⟩ := nonzero_cases p value default
  case inr => exact .inr ⟨.zero p, rfl, .inl herror⟩
  have hviolation : ∀ v, value = some v → p.violation? v =
      if limit < n.toNat then some (.tooLarge p n.toNat limit) else none := by
    rintro v rfl
    obtain rfl : n.val = v := hval
    rw [violation?_of_ne_zero fun h => hzero (congrArg some h), hlimit, PosSize.toNat]
    by_cases hlt : limit < n.val.toNat
    · simp [hlt]
    · simp only [Option.filter, hlt, decide_false, Bool.false_eq_true, if_false, Option.map_none]
  by_cases hle : n.toNat ≤ limit
  · refine .inl ⟨n, hle, hn, dif_pos hle, hval, ?_⟩
    cases value with
    | none => rfl
    | some value => exact (hviolation value rfl).trans (if_neg (Nat.not_lt.2 hle))
  · refine .inr ⟨.tooLarge p n.toNat limit, ?_, .inr ⟨n, hn, dif_neg hle⟩⟩
    cases value with
    | none => exact absurd (hval ▸ hdefault : n.val.toNat ≤ limit) hle
    | some value => exact (hviolation value rfl).trans (if_pos (Nat.lt_of_not_le hle))

/-- A builder builds a configuration with the values that are set, and the standard ones
    elsewhere, or fails with what is wrong in the first place. -/
theorem build_cases (b : Builder) :
    (∃ c, b.build = .ok c ∧ b.violation? = none ∧
        ∀ p, (c.get p).val = (b.get p).getD (LaunchConfig.standard.get p).val) ∨
      ∃ e, b.build = .error e ∧ b.violation? = some e := by
  have hviolation : b.violation? = ((b.lanes.bind Parameter.lanes.violation?).or
      ((b.tile.bind Parameter.tile.violation?).or
        (b.rowsPerGroup.bind Parameter.rowsPerGroup.violation?))) := by
    simp only [violation?, Parameter.all, List.findSome?_cons, List.findSome?_nil, get]
    cases b.lanes.bind Parameter.lanes.violation? <;>
      cases b.tile.bind Parameter.tile.violation? <;>
      cases b.rowsPerGroup.bind Parameter.rowsPerGroup.violation? <;> rfl
  rw [hviolation, build]
  obtain ⟨lanes, hlanes, hput, hcheck, hlanesVal, hfine⟩ | ⟨e, hwrong, hput | ⟨n, hput, hcheck⟩⟩ :=
    checked_cases (p := .lanes) rfl b.lanes LaunchConfig.standard.lanes_le
  case inr.inl => exact .inr ⟨e, by rw [hput]; rfl, by rw [hwrong]; rfl⟩
  case inr.inr => exact .inr ⟨e, by rw [hput, ok_bind, hcheck]; rfl, by rw [hwrong]; rfl⟩
  rw [hput, ok_bind, hcheck, ok_bind, hfine, Option.none_or]
  dsimp only
  obtain ⟨tile, htile, hput, hcheck, htileVal, hfine⟩ | ⟨e, hwrong, hput | ⟨n, hput, hcheck⟩⟩ :=
    checked_cases (p := .tile) rfl b.tile LaunchConfig.standard.tile_le
  case inr.inl => exact .inr ⟨e, by rw [hput]; rfl, by rw [hwrong]; rfl⟩
  case inr.inr => exact .inr ⟨e, by rw [hput, ok_bind, hcheck]; rfl, by rw [hwrong]; rfl⟩
  rw [hput, ok_bind, hcheck, ok_bind, hfine, Option.none_or]
  obtain ⟨rows, hput, hrowsVal, hzero⟩ | ⟨hput, hzero⟩ :=
    nonzero_cases .rowsPerGroup b.rowsPerGroup LaunchConfig.standard.rowsPerGroup
  case inr => exact .inr ⟨_, by rw [hput]; rfl, by rw [hzero]; rfl⟩
  refine .inl ⟨⟨lanes, tile, rows, hlanes, htile⟩, by rw [hput]; rfl, ?_, fun p => ?_⟩
  · cases hrows : b.rowsPerGroup with
    | none => rfl
    | some value => exact violation?_of_ne_zero fun h => hzero (by rw [hrows, h])
  · cases p with
    | lanes => exact hlanesVal
    | tile => exact htileVal
    | rowsPerGroup => exact hrowsVal

theorem build_eq_error_iff {b : Builder} {e : ConfigError} :
    b.build = .error e ↔ b.violation? = some e := by
  obtain ⟨c, hbuild, hfine, -⟩ | ⟨e', hbuild, hwrong⟩ := b.build_cases
  · simp [hbuild, hfine]
  · simp [hbuild, hwrong]

theorem violation?_eq_none_iff {b : Builder} :
    b.violation? = none ↔ ∀ p value, b.get p = some value → p.Allows value := by
  rw [violation?, List.findSome?_eq_none_iff]
  refine ⟨fun h p value hget => ?_, fun h p _ => ?_⟩
  · have hp : p ∈ Parameter.all := by cases p <;> decide
    have hnone := h p hp
    rw [hget] at hnone
    exact (Parameter.violation?_eq_none_iff p value).1 hnone
  · cases hget : b.get p with
    | none => rfl
    | some value => exact (Parameter.violation?_eq_none_iff p value).2 (h p value hget)

/-- A builder builds a configuration exactly if each parameter may have the value that it is set
    to. -/
theorem exists_build_iff {b : Builder} :
    (∃ c, b.build = .ok c) ↔ ∀ p value, b.get p = some value → p.Allows value := by
  rw [← violation?_eq_none_iff]
  obtain ⟨c, hbuild, hfine, -⟩ | ⟨e, hbuild, hwrong⟩ := b.build_cases
  · simp [hbuild, hfine]
  · simp [hbuild, hwrong]

/-- This is the configuration with the values that are set, and the standard ones elsewhere. -/
theorem build_eq_ok_iff {b : Builder} {c : LaunchConfig} :
    b.build = .ok c ↔ ∀ p, (b.get p).getD (LaunchConfig.standard.get p).val = (c.get p).val := by
  obtain ⟨c', hbuild, -, hvalues⟩ | ⟨e, hbuild, hwrong⟩ := b.build_cases
  · rw [hbuild]
    refine ⟨fun h p => ?_, fun h => congrArg Except.ok (LaunchConfig.ext_get fun p => ?_)⟩
    · rw [← hvalues, Except.ok.inj h]
    · rw [hvalues, h]
  · rw [hbuild]
    refine ⟨nofun, fun h => ?_⟩
    have hfine : b.violation? = none := violation?_eq_none_iff.2 fun p value hget => by
      have hvalue := h p
      rw [hget] at hvalue
      obtain rfl : value = (c.get p).val := hvalue
      exact c.allows p
    rw [hfine] at hwrong
    cases hwrong

end Builder

end NeighborSearch
