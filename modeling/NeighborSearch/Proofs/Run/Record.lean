import Mathlib.Tactic.MkIffOfInductiveProp
import NeighborSearch.Proofs.Json.Parameters
import NeighborSearch.Run.File

/-!
# Runs place by place

What a run or a run file is decoded from is told by what the value holds at the places of its
members (`Run.ofJson_eq_ok_iff`, `RunFile.ofJson_eq_ok_iff`). The kind of a run is a member like
the others: it may stand anywhere in an object, and is the first item of an array. The others are
decoded without it (`WithoutKind`), so in an array their positions come one later than in a scan
or a selection by itself, which is what the position in `HammingRun.HeldBy` and
`SelectRun.HeldBy` is for.
-/

namespace NeighborSearch

open Json

variable {members : List (String × Json)} {values : List Json} {v : Json}

/-! ## Scans -/

namespace HammingRun

/-- What a value holds if a scan is decoded from it, whose members begin at a position of an
    array. -/
@[mk_iff heldBy_iff]
structure HeldBy (v : Json) (start : ℕ) (run : HammingRun) : Prop where
  atMost : v.AtMost (start + 6)
  codeSize : Place.Holds ⟨"code_size", start⟩ posSize none v run.codeSize
  numCodes : Place.Holds ⟨"num_codes", start + 1⟩ posSize none v run.numCodes
  distance : Place.Holds ⟨"distance", start + 2⟩ Distance.ofJson (some .bitwise) v run.distance
  k : Place.Holds ⟨"k", start + 3⟩ (nullable posSize) (some none) v run.k
  parallel : Place.Holds ⟨"parallel", start + 4⟩ boolean (some false) v run.parallel
  numMeasurements : Place.Holds ⟨"num_measurements", start + 5⟩ posSize
    (some defaultMeasurements) v run.numMeasurements

variable {run : HammingRun}

theorem foldlM_member_eq_ok_iff {found found' : Found} :
    members.foldlM (fun found m => shape.member found m.1 m.2) found = .ok found' ↔
      collect "code_size" posSize found.codeSize members = .ok found'.codeSize ∧
      collect "num_codes" posSize found.numCodes members = .ok found'.numCodes ∧
      collect "distance" Distance.ofJson found.distance members = .ok found'.distance ∧
      collect "k" (nullable posSize) found.k members = .ok found'.k ∧
      collect "parallel" boolean found.parallel members = .ok found'.parallel ∧
      collect "num_measurements" posSize found.numMeasurements members =
        .ok found'.numMeasurements := by
  induction members generalizing found with
  | nil =>
    obtain ⟨_, _, _, _, _, _⟩ := found
    obtain ⟨_, _, _, _, _, _⟩ := found'
    simp [pure, Except.pure]
  | cons m members ih =>
    obtain ⟨name, v⟩ := m
    rw [List.foldlM_cons, bind_eq_ok_iff]
    simp only [ih]
    simp only [shape]
    split
    case h_7 hcodeSize hnumCodes hdistance hk hparallel hmeasurements =>
      rw [collect_cons_of_ne hcodeSize, collect_cons_of_ne hnumCodes, collect_cons_of_ne hdistance,
        collect_cons_of_ne hk, collect_cons_of_ne hparallel, collect_cons_of_ne hmeasurements]
      simp
    all_goals
      simp [collect_cons_self, collect_cons_of_ne, bind_eq_ok_iff, functor_map_eq_ok_iff]
      tauto

theorem ofMembers_eq_ok_iff :
    shape.ofMembers members none = .ok run ↔ HeldBy (.ofMembers members) 0 run := by
  rw [Shape.ofMembers_eq_ok_iff]
  simp only [foldlM_member_eq_ok_iff]
  constructor
  · rintro ⟨⟨codeSize, numCodes, distance, k, parallel, numMeasurements⟩, ⟨h₁, h₂, h₃, h₄, h₅, h₆⟩,
      hrun⟩
    obtain ⟨codeSize', hcodeSize, hrun⟩ := bind_eq_ok_iff.1 hrun
    obtain ⟨numCodes', hnumCodes, hrun⟩ := bind_eq_ok_iff.1 hrun
    obtain rfl := Except.ok.inj hrun
    exact {
      atMost := trivial
      codeSize := Place.holds_none_iff.2 ⟨codeSize, h₁, hcodeSize⟩
      numCodes := Place.holds_none_iff.2 ⟨numCodes, h₂, hnumCodes⟩
      distance := Place.holds_some_iff.2 ⟨distance, h₃, rfl⟩
      k := Place.holds_some_iff.2 ⟨k, h₄, (join_eq_getD k).symm⟩
      parallel := Place.holds_some_iff.2 ⟨parallel, h₅, rfl⟩
      numMeasurements := Place.holds_some_iff.2 ⟨numMeasurements, h₆, rfl⟩ }
  · intro h
    obtain ⟨codeSize, h₁, hcodeSize⟩ := Place.holds_none_iff.1 h.codeSize
    obtain ⟨numCodes, h₂, hnumCodes⟩ := Place.holds_none_iff.1 h.numCodes
    obtain ⟨distance, h₃, hdistance⟩ := Place.holds_some_iff.1 h.distance
    obtain ⟨k, h₄, hk⟩ := Place.holds_some_iff.1 h.k
    obtain ⟨parallel, h₅, hparallel⟩ := Place.holds_some_iff.1 h.parallel
    obtain ⟨numMeasurements, h₆, hmeasurements⟩ := Place.holds_some_iff.1 h.numMeasurements
    refine ⟨⟨codeSize, numCodes, distance, k, parallel, numMeasurements⟩, ⟨h₁, h₂, h₃, h₄, h₅, h₆⟩,
      ?_⟩
    simp only [shape, hcodeSize, hnumCodes, hdistance, join_eq_getD, hk, hparallel, hmeasurements,
      ok_bind]
    rfl

theorem ofItems_eq_ok_iff {setting : Json.Setting} :
    shape.ofItems setting values none = .ok run ↔ HeldBy (.ofItems values) 0 run := by
  obtain ⟨codeSize, numCodes, distance, k, parallel, numMeasurements⟩ := run
  simp only [Shape.ofItems_eq_ok_iff, shape, run_bind_eq_ok_iff, run_itemOr_eq_ok_iff,
    run_itemOf_eq_ok_iff, and_assoc, exists_and_left, exists_eq_left, run_pure_eq_ok_iff,
    itemHolds_tail_iff, Prod.mk.injEq]
  simp [run_noMoreItems_eq_ok_iff, Nat.sub_sub, Nat.sub_eq_zero_iff_le, heldBy_iff, AtMost,
    ofItems, Place.Holds]
  tauto

/-- A scan is decoded from a value if it holds what the scan has. -/
theorem decode_eq_ok_iff {setting : Json.Setting} (hwhole : v.fault? = none) :
    shape.decode setting v = .ok run ↔ HeldBy v 0 run := by
  apply Shape.decode_eq_ok_iff
  case hobject => exact fun _ => ofMembers_eq_ok_iff
  case harray => exact fun _ => ofItems_eq_ok_iff
  case hcontainer => exact fun h => h.atMost.isContainer
  case hwhole => exact hwhole

end HammingRun

/-! ## Selections -/

namespace SelectRun

/-- What a value holds if a selection is decoded from it, whose members begin at a position of an
    array. -/
@[mk_iff heldBy_iff]
structure HeldBy (v : Json) (start : ℕ) (run : SelectRun) : Prop where
  atMost : v.AtMost (start + 5)
  rows : Place.Holds ⟨"rows", start⟩ posSize none v run.rows
  cols : Place.Holds ⟨"cols", start + 1⟩ posSize none v run.cols
  k : Place.Holds ⟨"k", start + 2⟩ posSize none v run.k
  device : Place.Holds ⟨"device", start + 3⟩ (DeviceConfig.ofJson .collected) (some .standard) v
    run.device
  numMeasurements : Place.Holds ⟨"num_measurements", start + 4⟩ posSize
    (some defaultMeasurements) v run.numMeasurements

variable {run : SelectRun}

theorem foldlM_member_eq_ok_iff {found found' : Found} :
    members.foldlM (fun found m => shape.member found m.1 m.2) found = .ok found' ↔
      collect "rows" posSize found.rows members = .ok found'.rows ∧
      collect "cols" posSize found.cols members = .ok found'.cols ∧
      collect "k" posSize found.k members = .ok found'.k ∧
      collect "device" (DeviceConfig.ofJson .collected) found.device members =
        .ok found'.device ∧
      collect "num_measurements" posSize found.numMeasurements members =
        .ok found'.numMeasurements := by
  induction members generalizing found with
  | nil =>
    obtain ⟨_, _, _, _, _⟩ := found
    obtain ⟨_, _, _, _, _⟩ := found'
    simp [pure, Except.pure]
  | cons m members ih =>
    obtain ⟨name, v⟩ := m
    rw [List.foldlM_cons, bind_eq_ok_iff]
    simp only [ih]
    simp only [shape]
    split
    case h_6 hrows hcols hk hdevice hmeasurements =>
      rw [collect_cons_of_ne hrows, collect_cons_of_ne hcols, collect_cons_of_ne hk,
        collect_cons_of_ne hdevice, collect_cons_of_ne hmeasurements]
      simp
    all_goals
      simp [collect_cons_self, collect_cons_of_ne, bind_eq_ok_iff, functor_map_eq_ok_iff]
      tauto

theorem ofMembers_eq_ok_iff :
    shape.ofMembers members none = .ok run ↔ HeldBy (.ofMembers members) 0 run := by
  rw [Shape.ofMembers_eq_ok_iff]
  simp only [foldlM_member_eq_ok_iff]
  constructor
  · rintro ⟨⟨rows, cols, k, device, numMeasurements⟩, ⟨h₁, h₂, h₃, h₄, h₅⟩, hrun⟩
    obtain ⟨rows', hrows, hrun⟩ := bind_eq_ok_iff.1 hrun
    obtain ⟨cols', hcols, hrun⟩ := bind_eq_ok_iff.1 hrun
    obtain ⟨k', hk, hrun⟩ := bind_eq_ok_iff.1 hrun
    obtain rfl := Except.ok.inj hrun
    exact {
      atMost := trivial
      rows := Place.holds_none_iff.2 ⟨rows, h₁, hrows⟩
      cols := Place.holds_none_iff.2 ⟨cols, h₂, hcols⟩
      k := Place.holds_none_iff.2 ⟨k, h₃, hk⟩
      device := Place.holds_some_iff.2 ⟨device, h₄, rfl⟩
      numMeasurements := Place.holds_some_iff.2 ⟨numMeasurements, h₅, rfl⟩ }
  · intro h
    obtain ⟨rows, h₁, hrows⟩ := Place.holds_none_iff.1 h.rows
    obtain ⟨cols, h₂, hcols⟩ := Place.holds_none_iff.1 h.cols
    obtain ⟨k, h₃, hk⟩ := Place.holds_none_iff.1 h.k
    obtain ⟨device, h₄, hdevice⟩ := Place.holds_some_iff.1 h.device
    obtain ⟨numMeasurements, h₅, hmeasurements⟩ := Place.holds_some_iff.1 h.numMeasurements
    refine ⟨⟨rows, cols, k, device, numMeasurements⟩, ⟨h₁, h₂, h₃, h₄, h₅⟩, ?_⟩
    simp only [shape, hrows, hcols, hk, hdevice, hmeasurements, ok_bind]
    rfl

theorem ofItems_eq_ok_iff {setting : Json.Setting} :
    shape.ofItems setting values none = .ok run ↔ HeldBy (.ofItems values) 0 run := by
  obtain ⟨rows, cols, k, device, numMeasurements⟩ := run
  simp only [Shape.ofItems_eq_ok_iff, shape, run_bind_eq_ok_iff, run_itemOr_eq_ok_iff,
    run_itemOf_eq_ok_iff, and_assoc, exists_and_left, exists_eq_left, run_pure_eq_ok_iff,
    itemHolds_tail_iff, Prod.mk.injEq]
  simp [run_noMoreItems_eq_ok_iff, Nat.sub_sub, Nat.sub_eq_zero_iff_le, heldBy_iff, AtMost,
    ofItems, Place.Holds]
  tauto

/-- A selection is decoded from a value if it holds what the selection has. -/
theorem decode_eq_ok_iff {setting : Json.Setting} (hwhole : v.fault? = none) :
    shape.decode setting v = .ok run ↔ HeldBy v 0 run := by
  apply Shape.decode_eq_ok_iff
  case hobject => exact fun _ => ofMembers_eq_ok_iff
  case harray => exact fun _ => ofItems_eq_ok_iff
  case hcontainer => exact fun h => h.atMost.isContainer
  case hwhole => exact hwhole

end SelectRun

/-! ## Runs -/

namespace Run

variable {run : Run}

/-- The kind of a run. -/
def kind : Run → Kind
  | hamming _ => .hamming
  | select _ => .select

/-- That the members of an object are whole, up to the one with the kind. -/
def OthersWhole : Json → Prop
  | .object members _ => ∀ m ∈ members, m.1 ≠ kindField → m.2.fault? = none
  | _ => True

/-- What a value holds apart from the kind. -/
def OthersHeldBy (v : Json) : Run → Prop
  | hamming run => run.HeldBy v 1
  | select run => run.HeldBy v 1

/-- What a value holds if a run is decoded from it. -/
@[mk_iff heldBy_iff]
structure HeldBy (v : Json) (run : Run) : Prop where
  whole : OthersWhole v
  kind : Place.Holds ⟨kindField, 0⟩ Kind.ofJson none v run.kind
  others : run.OthersHeldBy v

/-- The members are gone through: the kind is found, and all others are whole. -/
theorem splitKind_eq_ok_iff {kind kind' : Option Kind} {others : List (String × Json)} :
    splitKind kind members = .ok (kind', others) ↔
      collect kindField Kind.ofJson kind members = .ok kind' ∧
      (∀ m ∈ members, m.1 ≠ kindField → m.2.fault? = none) ∧
      others = members.filter (·.1 ≠ kindField) := by
  induction members generalizing kind kind' others with
  | nil => simp [splitKind, eq_comm]
  | cons m members ih =>
    obtain ⟨name, v⟩ := m
    rw [splitKind]
    split_ifs with hname
    · subst hname
      simp only [bind_eq_ok_iff, collect_cons_self, ih, List.forall_mem_cons]
      simp
      tauto
    · rw [collect_cons_of_ne hname, List.filter_cons_of_pos (by simpa using hname),
        List.forall_mem_cons, bind_eq_ok_iff]
      cases hwhole : v.fault? with
      | some e => simp [hname, whole]
      | none =>
        simp only [bind_eq_ok_iff]
        constructor
        · rintro ⟨-, -, ⟨kind'', others'⟩, hsplit, hr⟩
          obtain ⟨hkind, hothers, rfl⟩ := ih.1 hsplit
          obtain ⟨rfl, rfl⟩ := Prod.mk.inj (Except.ok.inj hr)
          exact ⟨hkind, ⟨fun _ => trivial, hothers⟩, rfl⟩
        · rintro ⟨hkind, ⟨-, hothers⟩, rfl⟩
          exact ⟨(), rfl, (kind', _), ih.2 ⟨hkind, hothers, rfl⟩, rfl⟩

/-- A value without the kind, which is what the other members of the run are decoded from: their
    positions come one earlier. -/
structure WithoutKind (others v : Json) : Prop where
  atMost : ∀ count, others.AtMost count ↔ v.AtMost (count + 1)
  holds : ∀ {α : Type} {name : String} (index : ℕ) (read : Json → Decoded α)
    (default : Option α) (a : α), name ≠ kindField →
    (Place.Holds ⟨name, index⟩ read default others a ↔
      Place.Holds ⟨name, index + 1⟩ read default v a)

theorem withoutKind_ofMembers (members : List (String × Json)) :
    WithoutKind (.ofMembers (members.filter (·.1 ≠ kindField))) (.ofMembers members) where
  atMost _ := Iff.rfl
  holds {_ name} _ _ _ _ hname := by
    have hnamed : named name (members.filter (·.1 ≠ kindField)) = named name members := by
      rw [named, named, List.filter_filter]
      refine List.filter_congr fun m _ => ?_
      by_cases hm : m.1 = name <;> simp [hm, hname]
    simp only [Place.Holds, ofMembers, hnamed]

theorem withoutKind_ofItems (first : Json) (rest : List Json) :
    WithoutKind (.ofItems rest) (.ofItems (first :: rest)) where
  atMost _ := Nat.succ_le_succ_iff.symm
  holds _ _ _ _ _ := Iff.rfl

theorem WithoutKind.hamming_iff {others : Json} (h : WithoutKind others v) {run : HammingRun} :
    run.HeldBy others 0 ↔ run.HeldBy v 1 := by
  simp (disch := decide) only [HammingRun.heldBy_iff, h.atMost, h.holds, Nat.add_comm]

theorem WithoutKind.select_iff {others : Json} (h : WithoutKind others v) {run : SelectRun} :
    run.HeldBy others 0 ↔ run.HeldBy v 1 := by
  simp (disch := decide) only [SelectRun.heldBy_iff, h.atMost, h.holds, Nat.add_comm]

theorem ofKind_eq_ok_iff {others : Json} {kind : Kind} (h : WithoutKind others v)
    (hwhole : others.fault? = none) :
    ofKind kind others = .ok run ↔ kind = run.kind ∧ run.OthersHeldBy v := by
  cases kind <;> cases run <;>
    simp [ofKind, functor_map_eq_ok_iff, HammingRun.decode_eq_ok_iff hwhole,
      SelectRun.decode_eq_ok_iff hwhole, h.hamming_iff, h.select_iff, Run.kind, OthersHeldBy]

/-- A run is decoded from a value if it holds the kind and the members that this kind has. -/
theorem ofJson_eq_ok_iff (hwhole : v.fault? = none) : ofJson v = .ok run ↔ HeldBy v run := by
  rw [heldBy_iff]
  cases v with
  | object members stop =>
    obtain rfl : stop = none := hwhole
    have hholds : Place.Holds ⟨kindField, 0⟩ Kind.ofJson none (.ofMembers members) run.kind ↔ _ :=
      Place.holds_none_iff
    rw [ofMembers] at hholds
    rw [hholds, ofJson, bind_eq_ok_iff]
    constructor
    · rintro ⟨⟨kind, others⟩, hsplit, h⟩
      obtain ⟨hkind, hothers, rfl⟩ := splitKind_eq_ok_iff.1 hsplit
      obtain ⟨-, -, h⟩ := bind_eq_ok_iff.1 h
      obtain ⟨kind', hrequired, hrun⟩ := bind_eq_ok_iff.1 h
      obtain ⟨rfl, hheld⟩ := (ofKind_eq_ok_iff (withoutKind_ofMembers members) rfl).1 hrun
      exact ⟨hothers, ⟨kind, hkind, hrequired⟩, hheld⟩
    · rintro ⟨hothers, ⟨kind, hkind, hrequired⟩, hheld⟩
      refine ⟨(kind, _), splitKind_eq_ok_iff.2 ⟨hkind, hothers, rfl⟩, ?_⟩
      exact bind_eq_ok_iff.2 ⟨(), rfl, bind_eq_ok_iff.2 ⟨run.kind, hrequired,
        (ofKind_eq_ok_iff (withoutKind_ofMembers members) rfl).2 ⟨rfl, hheld⟩⟩⟩
  | array values stop =>
    obtain rfl : stop = none := hwhole
    cases values with
    | nil =>
      constructor
      · rintro ⟨⟩
      · rintro ⟨-, hkind, -⟩
        cases hkind
    | cons first rest =>
      rw [ofJson, bind_eq_ok_iff]
      constructor
      · rintro ⟨kind, hkind, h⟩
        obtain ⟨-, -, hrun⟩ := bind_eq_ok_iff.1 h
        obtain ⟨rfl, hheld⟩ := (ofKind_eq_ok_iff (withoutKind_ofItems first rest) rfl).1 hrun
        exact ⟨trivial, hkind, hheld⟩
      · rintro ⟨-, hkind, hheld⟩
        exact ⟨run.kind, hkind, bind_eq_ok_iff.2 ⟨(), rfl,
          (ofKind_eq_ok_iff (withoutKind_ofItems first rest) rfl).2 ⟨rfl, hheld⟩⟩⟩
  | _ => exact ⟨(by rintro ⟨⟩), fun h => h.2.1.elim⟩

end Run

/-! ## Run files -/

namespace RunFile

variable {file : RunFile}

/-- Where a run file has its runs. -/
def runsPlace : Json.Place := ⟨"runs", 0⟩

theorem foldlM_member_eq_ok_iff {found found' : Option (List Run)} :
    members.foldlM (fun found m => shape.member found m.1 m.2) found = .ok found' ↔
      (∀ m ∈ members, m.1 ∈ ["runs"]) ∧
        collect "runs" (Json.list Run.ofJson) found members = .ok found' := by
  induction members generalizing found with
  | nil => simp [pure, Except.pure]
  | cons m members ih =>
    obtain ⟨name, v⟩ := m
    rw [List.foldlM_cons, bind_eq_ok_iff]
    simp only [ih]
    simp only [shape]
    split
    · simp [collect_cons_self, bind_eq_ok_iff]
      tauto
    · simp
      tauto

theorem ofMembers_eq_ok_iff :
    shape.ofMembers members none = .ok file ↔ (∀ m ∈ members, m.1 ∈ ["runs"]) ∧
      runsPlace.Holds (Json.list Run.ofJson) none (.ofMembers members) file.runs := by
  rw [Shape.ofMembers_eq_ok_iff, Place.holds_none_iff]
  simp only [foldlM_member_eq_ok_iff]
  constructor
  · rintro ⟨found, ⟨hnames, hruns⟩, hfile⟩
    obtain ⟨runs, hrequired, hfile⟩ := bind_eq_ok_iff.1 hfile
    obtain rfl := Except.ok.inj hfile
    exact ⟨hnames, found, hruns, hrequired⟩
  · rintro ⟨hnames, found, hruns, hrequired⟩
    exact ⟨found, ⟨hnames, hruns⟩, bind_eq_ok_iff.2 ⟨file.runs, hrequired, rfl⟩⟩

theorem ofItems_eq_ok_iff {setting : Json.Setting} :
    shape.ofItems setting values none = .ok file ↔ values.length ≤ ["runs"].length ∧
      runsPlace.Holds (Json.list Run.ofJson) none (.ofItems values) file.runs := by
  obtain ⟨runs⟩ := file
  simp only [Shape.ofItems_eq_ok_iff, shape, run_bind_eq_ok_iff, run_itemOf_eq_ok_iff, and_assoc,
    exists_and_left, exists_eq_left, run_pure_eq_ok_iff, Prod.mk.injEq]
  simp [run_noMoreItems_eq_ok_iff, Nat.sub_eq_zero_iff_le, Place.Holds, runsPlace]
  tauto

/-- A run file is decoded from a value that has nothing but a list of runs. -/
theorem ofJson_eq_ok_iff (hwhole : v.fault? = none) :
    ofJson v = .ok file ↔
      v.Within ["runs"] ∧ runsPlace.Holds (Json.list Run.ofJson) none v file.runs := by
  rw [ofJson]
  apply Shape.decode_eq_ok_iff
  case hobject => exact fun _ => ofMembers_eq_ok_iff
  case harray => exact fun _ => ofItems_eq_ok_iff
  case hcontainer => exact fun h => h.1.isContainer
  case hwhole => exact hwhole

end RunFile

end NeighborSearch
