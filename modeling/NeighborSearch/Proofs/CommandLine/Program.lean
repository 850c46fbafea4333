import NeighborSearch.CommandLine.Program
import NeighborSearch.Proofs.CommandLine.FileSystem
import NeighborSearch.Proofs.Run.Result

/-!
# All or nothing

The program either fails with status 1 and leaves all files as they were, or succeeds with status
0 and changes no file but the one that it was asked to write, which then holds the results of
all runs (`Program.all_or_nothing`). To execute runs takes time but touches no file
(`Run.files_executeAll`), and the results are written after the last of them.

The files are those of a file system, whatever else belongs to the surroundings
(`Surroundings.Faithful`).
-/

namespace NeighborSearch

variable {S : Type}

/-! ## Surroundings -/

/-- That neither taking the time nor the order of a scan changes a file. -/
structure Machine.Spares (machine : Machine (StateM S)) (files : S → FileSystem) : Prop where
  time : ∀ {α : Type} (f : Unit → α) (s : S), files ((machine.time f).run s).2 = files s
  schedule : ∀ s : S, files (machine.schedule.run s).2 = files s

/-- The files are those of a file system, which is read and written as file systems are. Besides
    there is a machine that hands on what it times. -/
structure Surroundings.Faithful (around : Surroundings (StateM S)) (files : S → FileSystem) :
    Prop where
  /-- What is read stands in the file system. -/
  read_eq : ∀ path s,
    ((around.read path).run s).1 = ((files s).read path).mapError FileError.message
  /-- To read changes no file. -/
  files_read : ∀ path s, files ((around.read path).run s).2 = files s
  /-- What can be written is written. -/
  write_eq : ∀ path text s fs, (files s).write path text = .ok fs →
    ((around.write path text).run s).1 = .ok () ∧ files ((around.write path text).run s).2 = fs
  /-- The machine hands on what it times. -/
  machine : around.machine.Faithful
  /-- It changes no file. -/
  spares : around.machine.Spares files

/-- A file system by itself is such surroundings. -/
theorem FileSystem.surroundings_faithful : FileSystem.surroundings.Faithful id where
  read_eq _ _ := rfl
  files_read _ _ := rfl
  write_eq path text s fs h := by
    rw [id_eq] at h
    have hwrite : (surroundings.write path text).run s = (.ok (), fs) := by
      simp only [surroundings, StateT.run_bind, StateT.run_get, pure_bind, h]
      rfl
    exact ⟨congrArg Prod.fst hwrite, congrArg Prod.snd hwrite⟩
  machine _ _ := rfl
  spares := ⟨fun _ _ => rfl, fun _ => rfl⟩

/-! ## Executions -/

section

variable {machine : Machine (StateM S)} {files : S → FileSystem} {σ : Type} [RandomSource σ]

theorem Workload.files_measure (hspares : machine.Spares files) (w : Workload) (times : ℕ)
    (sum : UInt64) (s : S) : files ((w.measure machine times sum).run s).2 = files s := by
  induction times generalizing w sum s with
  | zero => rfl
  | succ times ih =>
    rw [measure_succ]
    have htime : files (w.firstTime machine s).2 = files s :=
      (hspares.time _ _).trans (hspares.schedule s)
    generalize w.firstTime machine s = timed at *
    obtain ⟨⟨outcome, latency⟩, s'⟩ := timed
    cases outcome with
    | error e => exact htime
    | ok performed =>
      dsimp only
      rw [run_bind_state]
      have hrest := ih performed.2 performed.1 s'
      generalize (performed.2.measure machine times performed.1).run s' = rest at *
      obtain ⟨measured, s''⟩ := rest
      cases measured <;> exact hrest.trans htime

theorem Run.files_execute (hspares : machine.Spares files) (run : Run) (source : σ) (s : S) :
    files ((run.execute machine source).run s).2 = files s := by
  rw [execute]
  split
  case h_1 => rfl
  case h_2 =>
    split
    case h_1 => rfl
    case h_2 w source' hprepare =>
      split_ifs
      · rw [run_bind_state]
        have hmeasure := w.files_measure hspares run.numMeasurements.toNat 0 s
        generalize (w.measure machine run.numMeasurements.toNat 0).run s = measured at *
        obtain ⟨outcome, s'⟩ := measured
        cases outcome <;> exact hmeasure
      · rfl

/-- Runs are executed without touching a file. -/
theorem Run.files_executeAll (hspares : machine.Spares files) (seed : UInt64) (runs : List Run)
    (s : S) : files ((executeAll machine σ seed runs).run s).2 = files s := by
  induction runs generalizing seed s with
  | nil => rfl
  | cons run runs ih =>
    rw [executeAll, run_bind_state]
    have hfirst := run.files_execute hspares (RandomSource.seed seed : σ) s
    generalize (run.execute machine (RandomSource.seed seed : σ)).run s = executed at *
    obtain ⟨⟨outcome, source⟩, s'⟩ := executed
    cases outcome with
    | error e => exact hfirst
    | ok result =>
      dsimp only
      rw [run_bind_state]
      have hrest := ih (seed + 1) s'
      generalize (executeAll machine σ (seed + 1) runs).run s' = rest at *
      obtain ⟨outcome, s''⟩ := rest
      cases outcome <;> exact hrest.trans hfirst

end

/-! ## The program -/

namespace Program

variable {around : Surroundings (StateM S)} {files : S → FileSystem} {σ : Type} [RandomSource σ]
  {options : Options}

/-- The run file that a path leads to. -/
def loadFrom (fs : FileSystem) (path : String) : Except ProgramError RunFile :=
  match fs.read path with
  | .error e => .error (.unreadable path e.message)
  | .ok text => (RunFile.parse text).mapError (.invalid path)

theorem load_eq (hfaithful : around.Faithful files) (path : String) (s : S) :
    ((load around path).run s).1 = loadFrom (files s) path ∧
      files ((load around path).run s).2 = files s := by
  have hread := hfaithful.read_eq path s
  have hfiles := hfaithful.files_read path s
  rw [load, run_bind_state, loadFrom]
  generalize (around.read path).run s = found at *
  obtain ⟨found, s'⟩ := found
  dsimp only at hread hfiles ⊢
  rw [hread]
  cases (files s).read path with
  | error e => exact ⟨rfl, hfiles⟩
  | ok text =>
    dsimp only [Except.mapError]
    cases RunFile.parse text <;> exact ⟨rfl, hfiles⟩

/-- Why the program fails: its input cannot be read, is no run file or has a run in it that
    cannot succeed, or a run fails on its data. -/
inductive Fails (σ : Type) [RandomSource σ] (options : Options) (fs : FileSystem) : Prop
  | unreadable {why : FileError} (h : fs.read options.input = .error why)
  | undecodable {text : String} {e : DecodeError} (hread : fs.read options.input = .ok text)
      (h : Json.decodeText RunFile.ofJson text = .error e)
  | rejected {text : String} {file : RunFile} (hread : fs.read options.input = .ok text)
      (hdecode : Json.decodeText RunFile.ofJson text = .ok file)
      (h : ∃ run ∈ file.runs, run.check ≠ .ok ())
  | execution {text : String} {file : RunFile} (hread : fs.read options.input = .ok text)
      (hparse : RunFile.parse text = .ok file) {i : ℕ} (hi : i < file.runs.length) {e : RunError}
      (h : file.runs[i].outcome (RandomSource.seed (options.seed + UInt64.ofNat i) : σ) = .error e)

/-- The program does not fail if all runs of its input succeed on their data. -/
theorem not_fails_of_parse {fs : FileSystem} {text : String} {file : RunFile}
    (hread : fs.read options.input = .ok text) (hparse : RunFile.parse text = .ok file)
    (hall : ∀ (i : ℕ) (hi : i < file.runs.length), ∃ result,
      file.runs[i].outcome (RandomSource.seed (options.seed + UInt64.ofNat i) : σ) = .ok result) :
    ¬Fails σ options fs := by
  have hdecode := (RunFile.parse_eq_ok_iff.1 hparse).1
  rintro (h | ⟨hread', h⟩ | ⟨hread', hdecode', run, hrun, hcheck⟩ | ⟨hread', hparse', hi, h⟩)
  · cases hread.symm.trans h
  all_goals obtain rfl := Except.ok.inj (hread.symm.trans hread')
  · cases h.symm.trans hdecode
  · obtain rfl := Except.ok.inj (hdecode.symm.trans hdecode')
    exact hcheck (RunFile.check_of_parse hparse run hrun)
  · obtain rfl := Except.ok.inj (hparse.symm.trans hparse')
    obtain ⟨result, hresult⟩ := hall _ hi
    cases h.symm.trans hresult

theorem status_error {α : Type} {e : ProgramError} (h : e ≠ .run .beyondMemory) :
    status (.error e : Except ProgramError α) = 1 := by
  rw [status]
  exact fun he => h he

/-- What was asked for is written. -/
theorem save_eq (hfaithful : around.Faithful files) (results : List RunResult) (s : S)
    (hwrite : ∀ path text, options.output = some path →
      ∃ fs, (files s).write path text = .ok fs) :
    ((save around options.output results).run s).1 = .ok () ∧
      match options.output with
      | none => files ((save around options.output results).run s).2 = files s
      | some path => (files s).write path (report results) =
          .ok (files ((save around options.output results).run s).2) := by
  cases houtput : options.output with
  | none => exact ⟨rfl, rfl⟩
  | some path =>
    obtain ⟨fs, hd⟩ := hwrite path (report results) houtput
    obtain ⟨hdone, hfiles⟩ := hfaithful.write_eq path (report results) s fs hd
    have hsave : (save around (some path) results).run s =
        (.ok (), ((around.write path (report results)).run s).2) := by
      simp only [save]
      rw [run_bind_state, hdone]
      rfl
    rw [hsave]
    exact ⟨rfl, hd.trans (congrArg Except.ok hfiles.symm)⟩

/-- Without a run file nothing happens. -/
theorem run_of_unloaded (hfaithful : around.Faithful files) {s : S} {e : ProgramError}
    (hload : loadFrom (files s) options.input = .error e) :
    ((run around σ options).run s).1 = .error e ∧
      files ((run around σ options).run s).2 = files s := by
  obtain ⟨hloaded, hfiles⟩ := load_eq hfaithful options.input s
  rw [run, run_bind_state, hloaded, hload]
  exact ⟨rfl, hfiles⟩

variable {s : S} {file : RunFile}

/-- What is done with a run file begins once it is loaded. -/
def afterLoad (around : Surroundings (StateM S)) (options : Options) (s : S) : S :=
  ((load around options.input).run s).2

theorem run_of_loaded (hfaithful : around.Faithful files)
    (hload : loadFrom (files s) options.input = .ok file) :
    (run around σ options).run s =
      (match ((file.execute around.machine σ options.seed).run (afterLoad around options s)).1 with
      | .error e => (pure (.error (.run e)) : StateM S (Except ProgramError (List RunResult)))
      | .ok results => do
        match ← save around options.output results with
        | .error e => return .error e
        | .ok () => return .ok results).run
      ((file.execute around.machine σ options.seed).run (afterLoad around options s)).2 := by
  obtain ⟨hloaded, -⟩ := load_eq hfaithful options.input s
  rw [run, run_bind_state, hloaded, hload]
  rfl

/-- A run that fails leaves the files as they were. -/
theorem run_of_failed (hfaithful : around.Faithful files)
    (hload : loadFrom (files s) options.input = .ok file) {e : RunError}
    (hexecute : ((file.execute around.machine σ options.seed).run
      (afterLoad around options s)).1 = .error e) :
    ((run around σ options).run s).1 = .error (.run e) ∧
      files ((run around σ options).run s).2 = files s := by
  obtain ⟨-, hfiles⟩ := load_eq hfaithful options.input s
  rw [run_of_loaded hfaithful hload, hexecute]
  exact ⟨rfl, (Run.files_executeAll hfaithful.spares _ _ _).trans hfiles⟩

/-- The results of all runs are saved. -/
theorem run_of_executed (hfaithful : around.Faithful files)
    (hload : loadFrom (files s) options.input = .ok file) {results : List RunResult}
    (hexecute : ((file.execute around.machine σ options.seed).run
      (afterLoad around options s)).1 = .ok results)
    (hwrite : ∀ path text, options.output = some path →
      ∃ fs, (files s).write path text = .ok fs) :
    ((run around σ options).run s).1 = .ok results ∧
      match options.output with
      | none => files ((run around σ options).run s).2 = files s
      | some path => (files s).write path (report results) =
          .ok (files ((run around σ options).run s).2) := by
  obtain ⟨-, hfiles⟩ := load_eq hfaithful options.input s
  have hexecuted : files ((file.execute around.machine σ options.seed).run
      (afterLoad around options s)).2 = files s :=
    (Run.files_executeAll hfaithful.spares _ _ _).trans hfiles
  rw [run_of_loaded hfaithful hload, hexecute]
  generalize ((file.execute around.machine σ options.seed).run (afterLoad around options s)).2 = s'
    at hexecuted ⊢
  obtain ⟨hsaved, houtput⟩ := save_eq hfaithful results s' (hexecuted ▸ hwrite)
  dsimp only
  rw [run_bind_state, hsaved]
  rw [hexecuted] at houtput
  exact ⟨rfl, houtput⟩

/-! ## Reports -/

/-- What is written for a run of which nothing but its times is left open. -/
def Reports (entry : Json) (result : Run × ℕ × UInt64) : Prop :=
  ∃ latencies summary, entry = .ofMembers [("run", result.1.toJson), ("latencies", latencies),
    ("summary", summary), ("checksum", .ofNat result.2.2.toNat)]

theorem reports_toJson (result : RunResult) : Reports result.toJson result.timeless :=
  ⟨_, _, rfl⟩

/-- The text of results is read as an array of them. -/
theorem ofString_report {results : List RunResult} (h : ∀ result ∈ results, result.Measured) :
    Json.Document.ofString (report results) = ⟨.ofItems (results.map RunResult.toJson), false⟩ := by
  have hplain : Json.Plain (122 + 4 + 1) (.ofItems (results.map RunResult.toJson)) :=
    .array (List.forall_mem_map.2 fun result hresult => (h result hresult).plain 122)
  exact Json.ofString_chars hplain _

/-- The file that a path leads to has been written and holds what is told of some results, and
    nothing else has changed. -/
structure Saved (before after : FileSystem) (path : String) (results : List (Run × ℕ × UInt64)) :
    Prop where
  /-- There is the file, and whatever there is at another place is as it was. -/
  others : ∃ p, before.resolve path = .ok p ∧ ∀ q, q ≠ p → after.get? q = before.get? q
  /-- The current directory is the same. -/
  current : after.current = before.current
  /-- The text of the file is an array with what is told of each result. -/
  report : ∃ text entries, after.read path = .ok text ∧
    Json.Document.ofString text = ⟨.ofItems entries, false⟩ ∧ List.Forall₂ Reports entries results

theorem saved_of_write {before after : FileSystem} {path : String} {results : List RunResult}
    (hmeasured : ∀ result ∈ results, result.Measured)
    (h : before.write path (report results) = .ok after) :
    Saved before after path (results.map RunResult.timeless) := by
  obtain ⟨p, hadmits, hput, hresolve⟩ := FileSystem.exists_of_write h
  refine ⟨⟨p, hresolve, fun q hq => ?_⟩, by rw [hput]; rfl, ?_⟩
  · rw [hput, FileSystem.get?_put_of_ne hadmits hq]
  · refine ⟨_, _, FileSystem.read_of_write h, ofString_report hmeasured, ?_⟩
    rw [List.forall₂_map_left_iff, List.forall₂_map_right_iff, List.forall₂_same]
    exact fun result _ => reports_toJson result

/-! ## All or nothing -/

theorem loadFrom_eq_ok_iff {fs : FileSystem} {path : String} :
    loadFrom fs path = .ok file ↔
      ∃ text, fs.read path = .ok text ∧ RunFile.parse text = .ok file := by
  rw [loadFrom]
  cases fs.read path with
  | error why => simp
  | ok text => cases hparse : RunFile.parse text <;> simp [hparse, Except.mapError]

/-- An input that cannot be read, or is no run file, is not loaded. -/
theorem exists_loadFrom_eq_error {fs : FileSystem} {path : String}
    (h : ∀ text file, fs.read path = .ok text → RunFile.parse text ≠ .ok file) :
    ∃ e, loadFrom fs path = .error e := by
  cases hload : loadFrom fs path with
  | error e => exact ⟨e, rfl⟩
  | ok file =>
    obtain ⟨text, hread, hparse⟩ := loadFrom_eq_ok_iff.1 hload
    exact absurd hparse (h text file hread)

theorem ne_beyondMemory_of_loadFrom {fs : FileSystem} {path : String} {e : ProgramError}
    (h : loadFrom fs path = .error e) : e ≠ .run .beyondMemory := by
  rintro rfl
  rw [loadFrom] at h
  split at h
  case h_1 => cases h
  case h_2 text _ => cases hparse : RunFile.parse text <;> rw [hparse] at h <;> cases h

theorem status_of_unloaded (hfaithful : around.Faithful files)
    (h : ∀ text file, (files s).read options.input = .ok text → RunFile.parse text ≠ .ok file) :
    status ((run around σ options).run s).1 = 1 ∧
      files ((run around σ options).run s).2 = files s := by
  obtain ⟨e, hload⟩ := exists_loadFrom_eq_error h
  obtain ⟨houtcome, hfiles⟩ := run_of_unloaded (σ := σ) hfaithful hload
  exact ⟨houtcome ▸ status_error (ne_beyondMemory_of_loadFrom hload), hfiles⟩

/-- If the program fails, it has the status of a failure and no file is changed. -/
theorem status_of_fails (hfaithful : around.Faithful files)
    (hmemory : ∀ text file, (files s).read options.input = .ok text →
      RunFile.parse text = .ok file → ∀ run ∈ file.runs, run.MemorySuffices)
    (h : Fails σ options (files s)) :
    status ((run around σ options).run s).1 = 1 ∧
      files ((run around σ options).run s).2 = files s := by
  cases h with
  | unreadable h =>
    refine status_of_unloaded hfaithful fun text file hread _ => ?_
    cases h.symm.trans hread
  | undecodable hread h =>
    refine status_of_unloaded hfaithful fun text file hread' hparse => ?_
    obtain rfl := Except.ok.inj (hread.symm.trans hread')
    cases h.symm.trans (RunFile.parse_eq_ok_iff.1 hparse).1
  | rejected hread hdecode h =>
    refine status_of_unloaded hfaithful fun text file hread' hparse => ?_
    obtain ⟨run, hrun, hcheck⟩ := h
    obtain rfl := Except.ok.inj (hread.symm.trans hread')
    obtain rfl := Except.ok.inj (hdecode.symm.trans (RunFile.parse_eq_ok_iff.1 hparse).1)
    exact hcheck (RunFile.check_of_parse hparse run hrun)
  | @execution text file hread hparse i hi e h =>
    have hload := loadFrom_eq_ok_iff.2 ⟨text, hread, hparse⟩
    cases houtcome : file.outcomeAt around.machine σ options.seed (afterLoad around options s) with
    | ok results =>
      obtain ⟨hlength, hall⟩ := RunFile.getElem_of_outcomeAt hfaithful.machine houtcome
      cases h.symm.trans (hall i hi (hlength ▸ hi))
    | error e' =>
      have hexecute : ((file.execute around.machine σ options.seed).run
          (afterLoad around options s)).1 = .error e' := map_eq_error_iff.1 houtcome
      obtain ⟨j, hj, hfirst, -⟩ := (RunFile.outcomeAt_eq_error_iff hfaithful.machine).1 houtcome
      have hne : e' ≠ .beyondMemory := by
        rintro rfl
        exact Run.outcome_ne_beyondMemory
          (hmemory text file hread hparse _ (List.getElem_mem hj)) _ hfirst
      obtain ⟨hfailed, hfiles⟩ := run_of_failed hfaithful hload hexecute
      exact ⟨hfailed ▸ status_error fun h => hne (ProgramError.run.inj h), hfiles⟩

/-- If the program does not fail, it succeeds, and only what was asked for is written. -/
theorem status_of_not_fails (hfaithful : around.Faithful files)
    (hwrite : ∀ path text, options.output = some path → ∃ fs, (files s).write path text = .ok fs)
    (h : ¬Fails σ options (files s)) :
    status ((run around σ options).run s).1 = 0 ∧
      ∃ text file results, (files s).read options.input = .ok text ∧
        RunFile.parse text = .ok file ∧
        (∀ now, file.outcomeAt around.machine σ options.seed now = .ok results) ∧
        results.map (·.1) = file.runs ∧
        match options.output with
        | none => files ((run around σ options).run s).2 = files s
        | some path => Saved (files s) (files ((run around σ options).run s).2) path results := by
  cases hread : (files s).read options.input with
  | error why => exact absurd (.unreadable hread) h
  | ok text =>
    cases hdecode : Json.decodeText RunFile.ofJson text with
    | error e => exact absurd (.undecodable hread hdecode) h
    | ok file =>
      have hcheck : ∀ run ∈ file.runs, run.check = .ok () := by
        by_contra hrejected
        refine h (.rejected hread hdecode ?_)
        simpa only [not_forall, exists_prop] using hrejected
      have hparse := RunFile.parse_eq_ok_iff.2 ⟨hdecode, hcheck⟩
      cases houtcome : file.outcomeAt around.machine σ options.seed
        (afterLoad around options s) with
      | error e =>
        obtain ⟨i, hi, hfirst, -⟩ := (RunFile.outcomeAt_eq_error_iff hfaithful.machine).1 houtcome
        exact absurd (.execution hread hparse hi hfirst) h
      | ok outcomes =>
        obtain ⟨results, hexecute, hresults⟩ := map_eq_ok_iff.1 houtcome
        obtain ⟨hdone, hsaved⟩ :=
          run_of_executed hfaithful (loadFrom_eq_ok_iff.2 ⟨text, hread, hparse⟩) hexecute hwrite
        have hmeasured := Run.measured_of_executeAll hexecute
        refine ⟨by rw [hdone]; rfl, text, file, outcomes, rfl, hparse, fun now => ?_,
          RunFile.map_fst_of_outcomeAt hfaithful.machine houtcome, ?_⟩
        · rw [← houtcome, RunFile.outcomeAt_eq hfaithful.machine,
            RunFile.outcomeAt_eq hfaithful.machine]
        · cases houtput : options.output with
          | none =>
            rw [houtput] at hsaved
            exact hsaved
          | some path =>
            rw [houtput] at hsaved
            exact hresults ▸ saved_of_write hmeasured hsaved

/-- The program does all that it is asked for, or nothing, whatever its files are and however its
    data is drawn. Let the data and the latencies of all runs fit into memory.

    If the input cannot be read, is no run file or has a run in it that cannot succeed, or if a
    run fails on its data, be it after others have succeeded, then the status is 1 and all files
    are as they were. Otherwise, and if the output can be written, the status is 0. No file is
    changed then but the output, if there is one, even if it is the input. It holds a JSON array
    with one entry for each run, in the order of the input, and an entry has the run and the
    checksum that the execution of the whole file gives for it, at whatever time. -/
theorem all_or_nothing (hfaithful : around.Faithful files)
    (hmemory : ∀ text file, (files s).read options.input = .ok text →
      RunFile.parse text = .ok file → ∀ run ∈ file.runs, run.MemorySuffices) :
    (Fails σ options (files s) →
      status ((run around σ options).run s).1 = 1 ∧
        files ((run around σ options).run s).2 = files s) ∧
    (¬Fails σ options (files s) →
      (∀ path text, options.output = some path → ∃ fs, (files s).write path text = .ok fs) →
      status ((run around σ options).run s).1 = 0 ∧
        ∃ text file results, (files s).read options.input = .ok text ∧
          RunFile.parse text = .ok file ∧
          (∀ now, file.outcomeAt around.machine σ options.seed now = .ok results) ∧
          results.map (·.1) = file.runs ∧
          match options.output with
          | none => files ((run around σ options).run s).2 = files s
          | some path =>
            Saved (files s) (files ((run around σ options).run s).2) path results) :=
  ⟨status_of_fails hfaithful hmemory, fun h hwrite => status_of_not_fails hfaithful hwrite h⟩

/-- A file with one run. -/
def twoCodesText : String := (RunFile.mk [Run.twoCodes]).toJson.compact

theorem parse_twoCodesText : RunFile.parse twoCodesText = .ok ⟨[Run.twoCodes]⟩ :=
  RunFile.parse_chars (List.forall_mem_singleton.2 (by decide)) .oneLine

theorem memorySuffices_twoCodes : Run.twoCodes.MemorySuffices := ⟨fun _ => by decide, by decide⟩

theorem exists_outcome_twoCodes (source : ChaCha) :
    ∃ result, Run.twoCodes.outcome source = .ok result := by
  have hmachine : Run.tickingMachine.Faithful := fun _ _ => rfl
  have hshort : Run.twoCodes.ShortCodes := by
    rw [Run.twoCodes, Run.ShortCodes]
    decide
  obtain ⟨-, result, -, hresult, -⟩ := Run.exists_execute_eq_ok hmachine
    (show Run.twoCodes.check = .ok () by decide) (by decide) trivial memorySuffices_twoCodes hshort
    source 0
  refine ⟨result.timeless, ?_⟩
  rw [← Run.outcomeAt_eq hmachine Run.twoCodes source 0, Run.outcomeAt, hresult]
  rfl

/-- A file in the root, and an empty directory besides. -/
def oneFile (text : String) : FileSystem := .ofFiles ["empty"] [(["runs.json"], text.toUTF8)]

theorem exists_write_oneFile (text text' : String) :
    (∃ fs, (oneFile text).write "/runs.json" text' = .ok fs) ∧
      ∃ fs, (oneFile text).write "results.json" text' = .ok fs := by
  have hroot : Place.start (oneFile text).current "/runs.json" = [] := by simp [Place.start]
  have hhere : Place.start (oneFile text).current "results.json" = ["empty"] := by
    simp [Place.start, oneFile, FileSystem.ofFiles]
  rw [FileSystem.write, FileSystem.write, hroot, hhere]
  exact ⟨⟨_, rfl⟩, _, rfl⟩

theorem read_oneFile (text : String) : (oneFile text).read "/runs.json" = .ok text := by
  have hpath : Place.checkPath "/runs.json" = .ok () := rfl
  have hroot : Place.start (oneFile text).current "/runs.json" = [] := by simp [Place.start]
  have hresolve : (oneFile text).resolve "/runs.json" = .ok ["runs.json"] := by
    rw [FileSystem.resolve, hroot]
    rfl
  have hfile : (oneFile text).get? ["runs.json"] = some (.file text.toUTF8) := rfl
  rw [FileSystem.read, hpath, ok_bind, hresolve, ok_bind, hfile]
  simp only [fromUTF8?_toUTF8]
  rfl

/-- The run in the file succeeds, and its results are written to the output. -/
def SavesTwoCodes (contents output : String) : Prop :=
  status ((run FileSystem.surroundings ChaCha ⟨"/runs.json", some output, 7⟩).run
      (oneFile contents)).1 = 0 ∧
    ∃ results : List (Run × ℕ × UInt64), results.map (·.1) = [Run.twoCodes] ∧
      Saved (oneFile contents)
        ((run FileSystem.surroundings ChaCha ⟨"/runs.json", some output, 7⟩).run
          (oneFile contents)).2
        output results

/-- The results of a run may be written over the run file, or into an empty directory. -/
theorem all_or_nothing_twoCodes :
    SavesTwoCodes twoCodesText "/runs.json" ∧ SavesTwoCodes twoCodesText "results.json" := by
  have hparse := parse_twoCodesText
  generalize twoCodesText = contents at hparse ⊢
  have hloaded : ∀ text file, (oneFile contents).read "/runs.json" = .ok text →
      RunFile.parse text = .ok file → file = ⟨[Run.twoCodes]⟩ := by
    intro text file hread hfile
    obtain rfl := Except.ok.inj ((read_oneFile contents).symm.trans hread)
    exact (Except.ok.inj (hparse.symm.trans hfile)).symm
  have hmemory : ∀ text file, (oneFile contents).read "/runs.json" = .ok text →
      RunFile.parse text = .ok file → ∀ run ∈ file.runs, run.MemorySuffices := by
    intro text file hread hfile
    rw [hloaded text file hread hfile]
    exact List.forall_mem_singleton.2 memorySuffices_twoCodes
  have hsaves : ∀ output : String,
      (∀ text, ∃ fs, (oneFile contents).write output text = .ok fs) →
      SavesTwoCodes contents output := by
    intro output hwrite
    obtain ⟨-, hsuccess⟩ := @all_or_nothing FileSystem FileSystem.surroundings id ChaCha _
      ⟨"/runs.json", some output, 7⟩ (oneFile contents) FileSystem.surroundings_faithful hmemory
    have hnot : ¬Fails ChaCha ⟨"/runs.json", some output, 7⟩ (oneFile contents) := by
      refine not_fails_of_parse (read_oneFile contents) hparse fun i hi => ?_
      obtain rfl := Nat.lt_one_iff.1 hi
      exact exists_outcome_twoCodes _
    obtain ⟨hstatus, text, file, results, hread, hfile, -, hruns, hsaved⟩ :=
      hsuccess hnot fun path text hpath => Option.some.inj hpath ▸ hwrite text
    rw [hloaded text file hread hfile] at hruns
    -- `simp` would have the kernel compare what `id` is applied to by running the program.
    rw [id_eq, id_eq] at hsaved
    exact ⟨hstatus, results, hruns, hsaved⟩
  exact ⟨hsaves _ fun text => (exists_write_oneFile contents text).1,
    hsaves _ fun text => (exists_write_oneFile contents text).2⟩

end Program

end NeighborSearch
