import NeighborSearch.Proofs.Json.Inner
import NeighborSearch.Proofs.Run.Record

/-!
# The values of a run file

Every value in a run file has a role: it is the file itself, its list of runs, a run, a
configuration or a distance, or something else, which is a simple value or passed over. The role
decides what a value denotes (`Role.Denotes`), which roles the values inside it have
(`Role.member`, `Role.item`), and which members a record has (`Role.slots`): where each of them
is, how it is read and what its default is. A record is what its slots hold
(`Role.denotes_iff`), and these are simple values, but for one that has a role of its own
(`Role.slot_cases`, `Role.exists_slot`).
-/

namespace NeighborSearch

open Json

/-! ## Simple values -/

/-- That nothing is read from arrays and objects. -/
def ReadsScalars {α : Type} (read : Json → Decoded α) : Prop :=
  ∀ v, v.IsContainer → ∀ a, read v ≠ .ok a

theorem readsScalars_iff {α : Type} {read : Json → Decoded α} :
    ReadsScalars read ↔ (∀ items stop a, read (.array items stop) ≠ .ok a) ∧
      ∀ members stop a, read (.object members stop) ≠ .ok a := by
  constructor
  · exact fun h => ⟨fun _ _ => h _ trivial, fun _ _ => h _ trivial⟩
  · rintro ⟨harray, hobject⟩ v hv
    cases v with
    | array items stop => exact harray items stop
    | object members stop => exact hobject members stop
    | _ => exact hv.elim

theorem readsScalars_size : ReadsScalars size := readsScalars_iff.2 ⟨nofun, nofun⟩

theorem readsScalars_posSize : ReadsScalars posSize := readsScalars_iff.2 ⟨nofun, nofun⟩

theorem readsScalars_boolean : ReadsScalars boolean := readsScalars_iff.2 ⟨nofun, nofun⟩

theorem readsScalars_kind : ReadsScalars Run.Kind.ofJson := readsScalars_iff.2 ⟨nofun, nofun⟩

theorem ReadsScalars.map {α β : Type} {read : Json → Decoded α} (hread : ReadsScalars read)
    (f : α → β) : ReadsScalars fun v => f <$> read v := by
  intro v hv b hb
  obtain ⟨a, ha, -⟩ := functor_map_eq_ok_iff.1 hb
  exact hread v hv a ha

theorem ReadsScalars.nullable {α : Type} {read : Json → Decoded α} (hread : ReadsScalars read) :
    ReadsScalars (nullable read) := by
  rw [readsScalars_iff]
  exact ⟨fun items stop => hread.map some _ trivial, fun members stop => hread.map some _ trivial⟩

/-! ## Roles -/

/-- The role of a value in a run file. -/
inductive Role
  | file
  | runs
  | hamming
  | select
  | device
  | launch
  | distance
  /-- Any other value. Of these it only matters whether they are nothing. -/
  | other

/-- A member of a record of type `σ`. -/
structure Slot (σ : Type) where
  /-- Where the member is. -/
  place : Json.Place
  /-- The type of what is read. -/
  {α : Type}
  /-- How the member is read. -/
  read : Json → Decoded α
  /-- What it is if it is left out, unless it has to be there. -/
  default : Option α
  /-- What it is in the record. -/
  get : σ → α

/-- That a value has the member as it is in the record. -/
def Slot.Holds {σ : Type} (slot : Slot σ) (v : Json) (record : σ) : Prop :=
  slot.place.Holds slot.read slot.default v (slot.get record)

namespace Role

/-- What the values of a role denote. -/
abbrev Value : Role → Type
  | .file => RunFile
  | .runs => List Run
  | .hamming => HammingRun
  | .select => SelectRun
  | .device => DeviceConfig
  | .launch => LaunchConfig
  | .distance => Distance
  | .other => Unit

/-- What a value of a role denotes. -/
def Denotes : (role : Role) → Json → role.Value → Prop
  | .file, v, contents => RunFile.ofJson v = .ok contents
  | .runs, v, contents => Json.list Run.ofJson v = .ok contents
  | .hamming, v, run => Run.ofJson v = .ok (.hamming run)
  | .select, v, run => Run.ofJson v = .ok (.select run)
  | .device, v, config => DeviceConfig.ofJson .collected v = .ok config
  | .launch, v, config => LaunchConfig.ofJson .collected v = .ok config
  | .distance, v, metric => Distance.ofJson v = .ok metric
  | .other, v, _ => v = .null ∨ ∃ stop, v = .object [] stop

/-- That what is read is what the values of the role denote. -/
def Reads (role : Role) {α : Type} (read : Json → Decoded α) : Prop :=
  ∃ f : role.Value → α, ∀ v a, read v = .ok a ↔ ∃ b, role.Denotes v b ∧ f b = a

/-- Where the records of a role have a member with a role of its own. All their other members are
    simple values. -/
def child : Role → Option (Json.Place × Role)
  | .file => some (⟨"runs", 0⟩, .runs)
  | .hamming => some (⟨"distance", 3⟩, .distance)
  | .select => some (⟨"device", 4⟩, .device)
  | .device => some (⟨"launch", 1⟩, .launch)
  | _ => none

/-- The role of a member of an object. -/
def member (role : Role) (name : String) : Role :=
  match role.child with
  | some (p, role') => if p.name = name then role' else .other
  | none => .other

/-- The role of a run in a list, which its kind decides. -/
def ofRun (v : Json) : Role :=
  match Run.ofJson v with
  | .ok (.hamming _) => .hamming
  | .ok (.select _) => .select
  | .error _ => .other

/-- The role of an item of an array. -/
def item (role : Role) (i : ℕ) (v : Json) : Role :=
  match role, role.child with
  | .runs, _ => ofRun v
  | _, some (p, role') => if p.index = i then role' else .other
  | _, none => .other

/-- The members of the records of a role. -/
def slots : (role : Role) → List (Slot role.Value)
  | .file => [⟨⟨"runs", 0⟩, Json.list Run.ofJson, none, RunFile.runs⟩]
  | .hamming => [
    ⟨⟨Run.kindField, 0⟩, Run.Kind.ofJson, none, fun _ => .hamming⟩,
    ⟨⟨"code_size", 1⟩, posSize, none, HammingRun.codeSize⟩,
    ⟨⟨"num_codes", 2⟩, posSize, none, HammingRun.numCodes⟩,
    ⟨⟨"distance", 3⟩, Distance.ofJson, some .bitwise, HammingRun.distance⟩,
    ⟨⟨"k", 4⟩, nullable posSize, some none, HammingRun.k⟩,
    ⟨⟨"parallel", 5⟩, boolean, some false, HammingRun.parallel⟩,
    ⟨⟨"num_measurements", 6⟩, posSize, some defaultMeasurements, HammingRun.numMeasurements⟩]
  | .select => [
    ⟨⟨Run.kindField, 0⟩, Run.Kind.ofJson, none, fun _ => .select⟩,
    ⟨⟨"rows", 1⟩, posSize, none, SelectRun.rows⟩,
    ⟨⟨"cols", 2⟩, posSize, none, SelectRun.cols⟩,
    ⟨⟨"k", 3⟩, posSize, none, SelectRun.k⟩,
    ⟨⟨"device", 4⟩, DeviceConfig.ofJson .collected, some .standard, SelectRun.device⟩,
    ⟨⟨"num_measurements", 5⟩, posSize, some defaultMeasurements, SelectRun.numMeasurements⟩]
  | .device => [
    ⟨⟨"num_threads", 0⟩, nullable posSize, some none, DeviceConfig.numThreads⟩,
    ⟨⟨"launch", 1⟩, LaunchConfig.ofJson .collected, some .standard, DeviceConfig.launch⟩]
  | .launch => Parameter.all.map fun p =>
    ⟨p.place, p.ofJson, some (LaunchConfig.standard.get p).val, fun c => (c.get p).val⟩
  | .runs | .distance | .other => []

/-- The names of the members of a record. -/
def names (role : Role) : List String := role.slots.map (·.place.name)

/-- Whether members of other names are passed over. -/
def lenient : Role → Bool
  | .hamming | .select => true
  | _ => false

/-- Whether the values of the role are records. -/
def isRecord : Role → Bool
  | .file | .hamming | .select | .device | .launch => true
  | _ => false

/-- That an object has no members that are refused, and an array not too many items. -/
def Fits (role : Role) : Json → Prop
  | .object members _ => role.lenient = true ∨ ∀ m ∈ members, m.1 ∈ role.names
  | .array items _ => items.length ≤ role.names.length
  | _ => False

theorem fits_iff_within {role : Role} (hstrict : role.lenient = false) {v : Json} :
    role.Fits v ↔ v.Within role.names := by
  cases v <;> simp [Fits, Within, hstrict]

theorem fits_iff_atMost {role : Role} (hlenient : role.lenient = true) {v : Json} :
    role.Fits v ↔ v.AtMost role.names.length := by
  cases v <;> simp [Fits, AtMost, hlenient]

/-- A record is what its slots hold. -/
theorem denotes_iff {role : Role} (hrecord : role.isRecord = true) {v : Json}
    (hwhole : v.fault? = none) (hinner : ∀ w ∈ v.inner, w.fault? = none) (a : role.Value) :
    role.Denotes v a ↔ role.Fits v ∧ ∀ slot ∈ role.slots, slot.Holds v a := by
  have hothers : Run.OthersWhole v := by
    cases v with
    | object members stop => exact fun m hm _ => hinner m.2 (List.mem_map_of_mem hm)
    | _ => trivial
  cases role with
  | runs | distance | other => cases hrecord
  | file =>
    rw [Denotes, RunFile.ofJson_eq_ok_iff hwhole, fits_iff_within rfl]
    simp [slots, names, Slot.Holds, RunFile.runsPlace]
  | hamming =>
    rw [Denotes, Run.ofJson_eq_ok_iff hwhole, fits_iff_atMost rfl, Run.heldBy_iff]
    simp only [slots, List.forall_mem_cons, Slot.Holds, Run.OthersHeldBy, HammingRun.heldBy_iff]
    simp [hothers, names, slots, Run.kind]
    tauto
  | select =>
    rw [Denotes, Run.ofJson_eq_ok_iff hwhole, fits_iff_atMost rfl, Run.heldBy_iff]
    simp only [slots, List.forall_mem_cons, Slot.Holds, Run.OthersHeldBy, SelectRun.heldBy_iff]
    simp [hothers, names, slots, Run.kind]
    tauto
  | device =>
    rw [Denotes, DeviceConfig.ofJson_eq_ok_iff hwhole, fits_iff_within rfl]
    simp [slots, names, Slot.Holds, DeviceConfig.threadsPlace, DeviceConfig.launchPlace,
      DeviceConfig.fieldNames]
  | launch =>
    rw [Denotes, LaunchConfig.ofJson_eq_ok_iff hwhole, fits_iff_within rfl]
    simp [slots, names, Slot.Holds, Parameter.all, Parameter.forall_iff, Parameter.place,
      Builder.fieldNames, Parameter.name]

/-! ### Members with a role of their own -/

theorem ofRun_hamming {v : Json} {run : HammingRun} (h : Run.ofJson v = .ok (.hamming run)) :
    ofRun v = .hamming := by
  simp only [ofRun, h]

theorem ofRun_select {v : Json} {run : SelectRun} (h : Run.ofJson v = .ok (.select run)) :
    ofRun v = .select := by
  simp only [ofRun, h]

/-- A member with a role is at the place of the child. -/
theorem exists_child_of_member {role : Role} {name : String} (h : role.member name ≠ .other) :
    ∃ p, role.child = some (p, role.member name) ∧ p.name = name := by
  rw [member] at h ⊢
  split at h
  case h_1 p role' hchild =>
    by_cases hname : p.name = name
    · exact ⟨p, by rw [hchild, if_pos hname], hname⟩
    · exact absurd (if_neg hname) h
  case h_2 => exact absurd rfl h

theorem member_of_child {role role' : Role} {p : Json.Place} (h : role.child = some (p, role')) :
    role.member p.name = role' := by
  rw [member, h]
  exact if_pos rfl

theorem item_of_ne_runs {role : Role} (hruns : role ≠ .runs) (i : ℕ) (v : Json) :
    role.item i v =
      match role.child with
      | some (p, role') => if p.index = i then role' else .other
      | none => .other := by
  cases role with
  | runs => exact absurd rfl hruns
  | _ => rfl

theorem item_of_child {role role' : Role} {p : Json.Place} (h : role.child = some (p, role'))
    (v : Json) : role.item p.index v = role' := by
  have hruns : role ≠ .runs := by
    rintro rfl
    cases h
  rw [item_of_ne_runs hruns, h]
  exact if_pos rfl

/-- An item with a role is a run, or at the place of the child. -/
theorem exists_child_of_item {role : Role} (hruns : role ≠ .runs) {i : ℕ} {v : Json}
    (h : role.item i v ≠ .other) :
    ∃ p, role.child = some (p, role.item i v) ∧ p.index = i := by
  rw [item_of_ne_runs hruns] at h ⊢
  split at h
  case h_1 p role' hchild =>
    by_cases hindex : p.index = i
    · exact ⟨p, by rw [hchild]; exact congrArg some (by rw [if_pos hindex]), hindex⟩
    · exact absurd (if_neg hindex) h
  case h_2 => exact absurd rfl h

/-- A member of a record is a simple value, or it has a role of its own. -/
theorem slot_cases {role : Role} {slot : Slot role.Value} (hslot : slot ∈ role.slots) :
    ReadsScalars slot.read ∨
      ∃ role', role.child = some (slot.place, role') ∧ role'.Reads slot.read := by
  cases role with
  | file =>
    simp only [slots, List.mem_cons, List.not_mem_nil, or_false] at hslot
    subst hslot
    exact .inr ⟨.runs, rfl, id, fun v a => by simp [Denotes]⟩
  | hamming =>
    simp only [slots, List.mem_cons, List.not_mem_nil, or_false] at hslot
    rcases hslot with rfl | rfl | rfl | rfl | rfl | rfl | rfl
    · exact .inl readsScalars_kind
    · exact .inl readsScalars_posSize
    · exact .inl readsScalars_posSize
    · exact .inr ⟨.distance, rfl, id, fun v a => by simp [Denotes]⟩
    · exact .inl readsScalars_posSize.nullable
    · exact .inl readsScalars_boolean
    · exact .inl readsScalars_posSize
  | select =>
    simp only [slots, List.mem_cons, List.not_mem_nil, or_false] at hslot
    rcases hslot with rfl | rfl | rfl | rfl | rfl | rfl
    · exact .inl readsScalars_kind
    · exact .inl readsScalars_posSize
    · exact .inl readsScalars_posSize
    · exact .inl readsScalars_posSize
    · exact .inr ⟨.device, rfl, id, fun v a => by simp [Denotes]⟩
    · exact .inl readsScalars_posSize
  | device =>
    simp only [slots, List.mem_cons, List.not_mem_nil, or_false] at hslot
    rcases hslot with rfl | rfl
    · exact .inl readsScalars_posSize.nullable
    · exact .inr ⟨.launch, rfl, id, fun v a => by simp [Denotes]⟩
  | launch =>
    obtain ⟨p, -, rfl⟩ := List.mem_map.1 hslot
    exact .inl (readsScalars_size.nullable.map _)
  | runs | distance | other => cases hslot

/-- The child of a role is a member of its records. -/
theorem exists_slot {role role' : Role} {p : Json.Place} (h : role.child = some (p, role')) :
    ∃ slot ∈ role.slots, slot.place = p ∧ role'.Reads slot.read := by
  cases role <;> cases h
  case file => exact ⟨_, .head _, rfl, id, fun v a => by simp [Denotes]⟩
  case hamming =>
    exact ⟨_, .tail _ (.tail _ (.tail _ (.head _))), rfl, id, fun v a => by simp [Denotes]⟩
  case select =>
    exact ⟨_, .tail _ (.tail _ (.tail _ (.tail _ (.head _)))), rfl, id,
      fun v a => by simp [Denotes]⟩
  case device => exact ⟨_, .tail _ (.head _), rfl, id, fun v a => by simp [Denotes]⟩

end Role

end NeighborSearch
