import NeighborSearch.Proofs.Json.Config
import NeighborSearch.Proofs.Outcome
import NeighborSearch.Run.File

/-!
# Run files are read back

The two kinds of runs are told apart by a member that stands among their own, whose order does
not matter and of which some may be left out. A run that is written has its kind in front and
leaves out nothing but a `k` that is not set, so it is read back as it was, and so is a file of
any number of runs (`RunFile.parse_chars`). A text that is accepted therefore denotes the
same as the text that is written of what it denotes.
-/

namespace NeighborSearch

namespace Json

@[simp] theorem boolean_bool (b : Bool) : boolean (.bool b) = .ok b := rfl

/-- A list is read back if its items are. -/
theorem list_ofItems {α : Type} {read : Json → Decoded α} {write : α → Json}
    (h : ∀ a, read (write a) = .ok a) (as : List α) :
    list read (.ofItems (as.map write)) = .ok as := by
  have hitems : (as.map write).mapM read = .ok as := by
    induction as with
    | nil => rfl
    | cons a as ih =>
      rw [List.map_cons, List.mapM_cons, h, ih]
      rfl
  change ((as.map write).mapM read >>= fun values => _ : Decoded (List α)) = _
  rw [hitems]
  rfl

end Json

/-! ## Runs -/

theorem Distance.ofJson_name (distance : Distance) :
    ofJson (.string distance.name) = .ok distance := by
  cases distance <;> rfl

namespace HammingRun

theorem plain_members (run : HammingRun) (depth : ℕ) :
    ∀ m ∈ run.members, Json.Plain depth m.2 := by
  obtain ⟨codeSize, numCodes, distance, k, parallel, numMeasurements⟩ := run
  have hsize : ∀ n : PosSize, Json.Plain depth (.ofNat n.toNat) := fun n => .ofNat n.toNat_lt_limit
  cases k <;> simp [members, hsize, Json.Plain.string, Json.Plain.bool]

/-- A scan is read back from its members. -/
theorem decode_members (run : HammingRun) :
    shape.decode .collected (.ofMembers run.members) = .ok run := by
  obtain ⟨codeSize, numCodes, distance, k, parallel, numMeasurements⟩ := run
  rw [Json.Shape.decode_ofMembers]
  cases k <;>
    simp [shape, members, Distance.ofJson_name, Json.once, Json.required, bind, Except.bind, pure,
      Except.pure, Functor.map, Except.map]

end HammingRun

namespace SelectRun

theorem plain_members (run : SelectRun) (depth : ℕ) :
    ∀ m ∈ run.members, Json.Plain (depth + 2) m.2 := by
  have hsize : ∀ n : PosSize, Json.Plain (depth + 2) (.ofNat n.toNat) :=
    fun n => .ofNat n.toNat_lt_limit
  simp [members, hsize, DeviceConfig.plain_toJson]

/-- A selection is read back from its members. -/
theorem decode_members (run : SelectRun) :
    shape.decode .collected (.ofMembers run.members) = .ok run := by
  obtain ⟨rows, cols, k, device, numMeasurements⟩ := run
  rw [Json.Shape.decode_ofMembers]
  simp [shape, members, DeviceConfig.ofJson_toJson, Json.once, Json.required, bind, Except.bind,
    pure, Except.pure, Functor.map, Except.map]

end SelectRun

namespace Run

theorem plain_toJson (run : Run) (depth : ℕ) : Json.Plain (depth + 3) run.toJson := by
  cases run with
  | hamming run =>
    exact .object (List.forall_mem_cons.2 ⟨.string _, run.plain_members (depth + 2)⟩)
  | select run =>
    exact .object (List.forall_mem_cons.2 ⟨.string _, run.plain_members depth⟩)

/-- Members of other names than that of the kind are only collected. -/
theorem splitKind_of_ne (kind : Option Kind) {members : List (String × Json)}
    (hne : ∀ m ∈ members, m.1 ≠ kindField) (hwhole : ∀ m ∈ members, m.2.fault? = none) :
    splitKind kind members = .ok (kind, members) := by
  induction members with
  | nil => rfl
  | cons m members ih =>
    rw [splitKind, if_neg (hne m List.mem_cons_self), hwhole m List.mem_cons_self,
      ih (fun n hn => hne n (List.mem_cons_of_mem _ hn))
        (fun n hn => hwhole n (List.mem_cons_of_mem _ hn))]
    rfl

/-- With the kind in front, the other members are what is left. -/
theorem splitKind_cons (kind : Kind) (name : String) {members : List (String × Json)}
    (hkind : Kind.ofJson (.string name) = .ok kind) (hne : ∀ m ∈ members, m.1 ≠ kindField)
    (hwhole : ∀ m ∈ members, m.2.fault? = none) :
    splitKind none ((kindField, .string name) :: members) = .ok (some kind, members) := by
  rw [splitKind, if_pos rfl, hkind]
  exact splitKind_of_ne (some kind) hne hwhole

/-- A run is read back. -/
theorem ofJson_toJson (run : Run) : ofJson run.toJson = .ok run := by
  cases run with
  | hamming run =>
    have hne : ∀ m ∈ run.members, m.1 ≠ kindField := by
      obtain ⟨codeSize, numCodes, distance, k, parallel, numMeasurements⟩ := run
      cases k <;> simp [HammingRun.members, kindField]
    have hsplit := splitKind_cons .hamming "hamming" rfl hne
      fun m hm => (run.plain_members 0 m hm).fault?_eq_none
    rw [toJson, Json.ofMembers, ofJson, hsplit]
    change hamming <$> HammingRun.shape.decode .collected (.ofMembers run.members) = _
    rw [HammingRun.decode_members]
    rfl
  | select run =>
    have hne : ∀ m ∈ run.members, m.1 ≠ kindField := by simp [SelectRun.members, kindField]
    have hsplit := splitKind_cons .select "select" rfl hne
      fun m hm => (run.plain_members 0 m hm).fault?_eq_none
    rw [toJson, Json.ofMembers, ofJson, hsplit]
    change select <$> SelectRun.shape.decode .collected (.ofMembers run.members) = _
    rw [SelectRun.decode_members]
    rfl

end Run

/-! ## Run files -/

namespace RunFile

theorem plain_toJson (file : RunFile) (depth : ℕ) : Json.Plain (depth + 5) file.toJson := by
  refine .object fun m hm => ?_
  rw [List.mem_singleton.1 hm]
  refine .array fun v hv => ?_
  obtain ⟨run, -, rfl⟩ := List.mem_map.1 hv
  exact run.plain_toJson depth

/-- A run file is read back, its runs unchecked. -/
theorem ofJson_toJson (file : RunFile) : ofJson file.toJson = .ok file := by
  rw [ofJson, toJson, Json.Shape.decode_ofMembers]
  simp [shape, Json.list_ofItems Run.ofJson_toJson, Json.once, Json.required, bind, Except.bind,
    pure, Except.pure, Functor.map, Except.map]

theorem checkFrom_eq_ok_iff {position : ℕ} {runs : List Run} :
    checkFrom position runs = .ok () ↔ ∀ run ∈ runs, run.check = .ok () := by
  induction runs generalizing position with
  | nil => exact ⟨fun _ _ h => absurd h List.not_mem_nil, fun _ => rfl⟩
  | cons run runs ih =>
    rw [checkFrom, List.forall_mem_cons]
    cases run.check with
    | error why => simp
    | ok => simp [ih]

/-- If there are runs that cannot succeed, the first one of them is told. -/
theorem exists_checkFrom_eq_rejected {position : ℕ} {runs : List Run}
    (h : ∃ run ∈ runs, run.check ≠ .ok ()) :
    ∃ (i : ℕ) (hi : i < runs.length) (why : RunRejection), runs[i].check = .error why ∧
      (∀ run ∈ runs.take i, run.check = .ok ()) ∧
      checkFrom position runs = .error (.rejected (position + i) why) := by
  induction runs generalizing position with
  | nil => simp at h
  | cons run runs ih =>
    cases hcheck : run.check with
    | error why =>
      exact ⟨0, Nat.zero_lt_succ _, why, hcheck, List.forall_mem_nil _,
        by rw [checkFrom, hcheck]; rfl⟩
    | ok =>
      have hrest : ∃ run ∈ runs, run.check ≠ .ok () := by simpa [hcheck] using h
      obtain ⟨i, hi, why, hwhy, hbefore, hrejected⟩ := @ih (position + 1) hrest
      refine ⟨i + 1, Nat.succ_lt_succ hi, why, hwhy, List.forall_mem_cons.2 ⟨hcheck, hbefore⟩, ?_⟩
      · rw [checkFrom, hcheck, Nat.add_comm i, ← Nat.add_assoc]
        exact hrejected

/-- A text is accepted if it is decoded as a run file whose runs can succeed. -/
theorem parse_eq_ok_iff {text : String} {file : RunFile} :
    parse text = .ok file ↔
      Json.decodeText ofJson text = .ok file ∧ ∀ run ∈ file.runs, run.check = .ok () := by
  rw [parse]
  cases Json.decodeText ofJson text with
  | error e => exact ⟨nofun, fun h => nomatch h.1⟩
  | ok found =>
    dsimp only
    constructor
    · intro h
      obtain ⟨_, hcheck, hfile⟩ := bind_eq_ok_iff.1 h
      obtain rfl := Except.ok.inj hfile
      exact ⟨rfl, checkFrom_eq_ok_iff.1 hcheck⟩
    · rintro ⟨hfile, hcheck⟩
      obtain rfl := Except.ok.inj hfile
      exact bind_eq_ok_iff.2 ⟨(), checkFrom_eq_ok_iff.2 hcheck, rfl⟩

/-- What is accepted is a value whose runs can succeed. -/
theorem check_of_parse {text : String} {file : RunFile} (h : parse text = .ok file) :
    ∀ run ∈ file.runs, run.check = .ok () :=
  (parse_eq_ok_iff.1 h).2

/-- A file whose runs can succeed is accepted from its text, as it is. -/
theorem parse_chars {file : RunFile} (h : ∀ run ∈ file.runs, run.check = .ok ())
    (layout : Json.Layout) : parse (String.ofList (file.toJson.chars layout)) = .ok file := by
  rw [parse, Json.decodeText_chars _ (file.plain_toJson 122), ofJson_toJson]
  simp only [checkFrom_eq_ok_iff.2 h]
  rfl

/-- Whatever is written is read back as it was: files whose runs can succeed, and all runs,
    configurations and builders. So a text that is accepted denotes the same as the text that
    is written of what it denotes. -/
theorem written_read_back :
    ((∀ file : RunFile, (∀ run ∈ file.runs, run.check = .ok ()) →
        parse file.toJson.compact = .ok file) ∧
      (∀ run : Run, Json.decodeText Run.ofJson run.toJson.compact = .ok run) ∧
      (∀ c : DeviceConfig,
        Json.decodeText (DeviceConfig.ofJson .direct) c.toJson.compact = .ok c) ∧
      (∀ c : LaunchConfig,
        Json.decodeText (LaunchConfig.ofJson .direct) c.toJson.compact = .ok c) ∧
      (∀ b : Builder, Json.decodeText (Builder.ofJson .direct) b.toJson.compact = .ok b)) ∧
    (∀ text file, parse text = .ok file → parse file.toJson.compact = parse text) ∧
    (∀ text run, Json.decodeText Run.ofJson text = .ok run →
      Json.decodeText Run.ofJson run.toJson.compact = Json.decodeText Run.ofJson text) ∧
    (∀ text c, Json.decodeText (DeviceConfig.ofJson .direct) text = .ok c →
      Json.decodeText (DeviceConfig.ofJson .direct) c.toJson.compact =
        Json.decodeText (DeviceConfig.ofJson .direct) text) ∧
    (∀ text c, Json.decodeText (LaunchConfig.ofJson .direct) text = .ok c →
      Json.decodeText (LaunchConfig.ofJson .direct) c.toJson.compact =
        Json.decodeText (LaunchConfig.ofJson .direct) text) ∧
    ∀ text b, Json.decodeText (Builder.ofJson .direct) text = .ok b →
      Json.decodeText (Builder.ofJson .direct) b.toJson.compact =
        Json.decodeText (Builder.ofJson .direct) text := by
  have hrun : ∀ run : Run, Json.decodeText Run.ofJson run.toJson.compact = .ok run := by
    intro run
    rw [Json.compact, Json.decodeText_chars _ (run.plain_toJson 124), run.ofJson_toJson]
  have hdevice : ∀ c : DeviceConfig,
      Json.decodeText (DeviceConfig.ofJson .direct) c.toJson.compact = .ok c := by
    intro c
    rw [Json.compact, Json.decodeText_chars _ (c.plain_toJson 125), c.ofJson_toJson]
  have hlaunch : ∀ c : LaunchConfig,
      Json.decodeText (LaunchConfig.ofJson .direct) c.toJson.compact = .ok c := by
    intro c
    rw [Json.compact, Json.decodeText_chars _ (c.plain_toJson 126), c.ofJson_toJson]
  have hbuilder : ∀ b : Builder,
      Json.decodeText (Builder.ofJson .direct) b.toJson.compact = .ok b := by
    intro b
    rw [Json.compact, Json.decodeText_chars _ (b.plain_toJson 126), b.ofJson_toJson]
  refine ⟨⟨fun file h => parse_chars h .oneLine, hrun, hdevice, hlaunch, hbuilder⟩,
    fun text file h => ?_, fun text run h => (hrun run).trans h.symm,
    fun text c h => (hdevice c).trans h.symm, fun text c h => (hlaunch c).trans h.symm,
    fun text b h => (hbuilder b).trans h.symm⟩
  rw [h]
  exact parse_chars (check_of_parse h) .oneLine

/-- A scan that leaves out its `k`, and a selection of the largest `k` there is. -/
def twoRuns : RunFile where
  runs := [
    .hamming {
      codeSize := ⟨16, by decide⟩, numCodes := ⟨100, by decide⟩, distance := .generalized
      k := none, parallel := true, numMeasurements := ⟨10, by decide⟩ },
    .select {
      rows := ⟨12, by decide⟩, cols := ⟨0xFFFFFFFFFFFFFFFF, by decide⟩
      k := ⟨0xFFFFFFFFFFFFFFFF, by decide⟩, device := ⟨some ⟨6, by decide⟩, .standard⟩
      numMeasurements := ⟨11, by decide⟩ }]

/-- Written over several lines, the runs are accepted too, and denote the same. -/
theorem read_back_twoRuns :
    (∀ run ∈ twoRuns.runs, run.check = .ok ()) ∧ parse twoRuns.toJson.compact = .ok twoRuns ∧
      parse twoRuns.toJson.pretty = .ok twoRuns ∧
      parse twoRuns.toJson.compact = parse twoRuns.toJson.pretty := by
  obtain ⟨⟨hfile, -⟩, haccepted, -⟩ := written_read_back
  have hcheck : ∀ run ∈ twoRuns.runs, run.check = .ok () := by decide
  have hpretty : parse twoRuns.toJson.pretty = .ok twoRuns := parse_chars hcheck (.lines 0)
  exact ⟨hcheck, hfile twoRuns hcheck, hpretty, haccepted _ twoRuns hpretty⟩

end RunFile

end NeighborSearch
