import NeighborSearch.Proofs.Run.File
import NeighborSearch.Proofs.Run.Workload
import NeighborSearch.Random.ChaCha
import NeighborSearch.Run.Execution

/-!
# The check of a run and its execution agree

A run whose data and latencies fit into memory is executed with a result exactly if its check
accepts it, its data can be counted and its columns can be numbered (`execute_eq_ok_iff`); all
else about the data does not matter. A run that is rejected draws no data, and the call that it
describes would refuse any data. So of a file that is accepted every run has a result, unless
one of them is too large.

The machine may show whatever times it likes, and score the codes of a parallel scan in whatever
order it comes to, another one in each measurement. All that is asked of it is to hand on what it
times (`Machine.Faithful`).
-/

namespace NeighborSearch

variable {τ : Type}

/-- The value that is timed is the value that is computed. -/
def Machine.Faithful (machine : Machine (StateM τ)) : Prop :=
  ∀ {α : Type} (f : Unit → α) (now : τ), ((machine.time f).run now).1.1 = f ()

variable {machine : Machine (StateM τ)}

theorem run_bind_state {α β : Type} (x : StateM τ α) (f : α → StateM τ β) (now : τ) :
    (x >>= f).run now = (f (x.run now).1).run (x.run now).2 := rfl

/-! ## Measurements -/

namespace Workload

variable {w : Workload} {times : ℕ} {total : UInt64}

/-- The first measurement on a machine, from some time on. -/
def firstTime (machine : Machine (StateM τ)) (w : Workload) (now : τ) :
    (Except RunError (UInt64 × Workload) × Size) × τ :=
  let (order, now) := machine.schedule.run now
  (machine.time fun _ => w.perform order).run now

theorem fst_firstTime (hmachine : machine.Faithful) (w : Workload) (order : TaskOrder) (now : τ) :
    (w.firstTime machine now).1.1 = w.perform order :=
  (hmachine _ _).trans (w.perform_order _ order)

theorem measure_succ (machine : Machine (StateM τ)) (w : Workload) (times : ℕ) (sum : UInt64)
    (now : τ) :
    (w.measure machine (times + 1) sum).run now =
      (match (w.firstTime machine now).1.1 with
      | .error e => (return .error e : StateM τ (Except RunError (List Size × UInt64)))
      | .ok (sum, w') => do
        match ← w'.measure machine times sum with
        | .error e => return .error e
        | .ok (latencies, sum) =>
          return .ok ((w.firstTime machine now).1.2 :: latencies, sum)).run
        (w.firstTime machine now).2 := rfl

theorem measure_eq_error (hmachine : machine.Faithful) {order : TaskOrder} {error : RunError}
    (hperform : w.perform order = .error error) (times : ℕ) (sum : UInt64) (now : τ) :
    ((w.measure machine (times + 1) sum).run now).1 = .error error := by
  rw [measure_succ, (w.fst_firstTime hmachine order now).trans hperform]
  rfl

/-- Perform a workload so many times: the checksum of the last time, the given one if there is
    none. The codes are scored in some order, for example from the first to the last. -/
def performTimes : (times : ℕ) → (checksum : UInt64) → Workload → Except RunError UInt64
  | 0, checksum, _ => .ok checksum
  | times + 1, _, workload => do
    let (checksum, workload) ← workload.perform .forwards
    workload.performTimes times checksum

/-- What can be done again and again comes to the same every time. -/
theorem performTimes_eq_ok {P : Workload → Prop}
    (hstep : ∀ w order, P w → ∃ w', w.perform order = .ok (total, w') ∧ P w') (hw : P w)
    (times : ℕ) (sum : UInt64) :
    w.performTimes times sum = .ok (if times = 0 then sum else total) := by
  induction times generalizing w sum with
  | zero => rfl
  | succ times ih =>
    obtain ⟨w', hperform, hw'⟩ := hstep w .forwards hw
    rw [performTimes, hperform, if_neg times.succ_ne_zero]
    exact (ih hw' total).trans (by rw [ite_self])

/-- To measure is to perform, and to note a latency each time, in whatever order the machine
    scores codes. -/
theorem exists_measure (hmachine : machine.Faithful) (w : Workload) (times : ℕ) (sum : UInt64)
    (now : τ) :
    ∃ latencies, latencies.length = times ∧
      ((w.measure machine times sum).run now).1 =
        (w.performTimes times sum).map (latencies, ·) := by
  induction times generalizing w sum now with
  | zero => exact ⟨[], rfl, rfl⟩
  | succ times ih =>
    rw [performTimes]
    cases hperform : w.perform .forwards with
    | error e =>
      -- Nothing has been noted down.
      exact ⟨List.replicate (times + 1) 0, List.length_replicate,
        measure_eq_error hmachine hperform times sum now⟩
    | ok performed =>
      have htimed := (w.fst_firstTime hmachine .forwards now).trans hperform
      obtain ⟨latencies, hlength, hrest⟩ := ih performed.2 performed.1
        (w.firstTime machine now).2
      refine ⟨(w.firstTime machine now).1.2 :: latencies, congrArg (· + 1) hlength, ?_⟩
      rw [measure_succ, htimed]
      dsimp only
      rw [run_bind_state, hrest, ok_bind]
      cases performTimes times performed.1 performed.2 <;> rfl

/-- What can be done again and again is measured as often as asked for. -/
theorem exists_measure_eq_ok (hmachine : machine.Faithful) {P : Workload → Prop}
    (hstep : ∀ w order, P w → ∃ w', w.perform order = .ok (total, w') ∧ P w') (hw : P w)
    (times : ℕ) (sum : UInt64) (now : τ) :
    ∃ latencies, ((w.measure machine times sum).run now).1 =
        .ok (latencies, if times = 0 then sum else total) ∧ latencies.length = times := by
  obtain ⟨latencies, hlength, hmeasure⟩ := w.exists_measure hmachine times sum now
  rw [performTimes_eq_ok hstep hw] at hmeasure
  exact ⟨latencies, hmeasure, hlength⟩

end Workload

/-! ## One run -/

namespace Run

variable {σ : Type} [RandomSource σ] {run : Run}

/-- The data of the run fits into memory if it can be counted, and so do the latencies. -/
structure MemorySuffices (run : Run) : Prop where
  data : run.extent < Size.limit → run.DataFits
  latencies : run.LatenciesFit

/-- A run that is rejected draws no data, and takes no time. -/
theorem execute_of_rejected {m : Type → Type} [Monad m] (machine : Machine m)
    {why : RunRejection} (hcheck : run.check = .error why) (source : σ) :
    run.execute machine source = pure (.error (.rejected why), source) := by
  rw [execute, hcheck]

/-- What is executed once the workload has been prepared. -/
theorem execute_of_prepared (machine : Machine (StateM τ)) {w : Workload} {source source' : σ}
    (hcheck : run.check = .ok ()) (hprepare : run.prepare source = (.ok w, source'))
    (hfits : run.LatenciesFit) (now : τ) :
    ((run.execute machine source).run now).1.1 =
      match ((w.measure machine run.numMeasurements.toNat 0).run now).1 with
      | .error e => .error e
      | .ok (latencies, checksum) => RunResult.ofMeasurements run latencies checksum := by
  rw [execute, hcheck, hprepare]
  simp only [if_pos hfits]
  rw [run_bind_state]
  cases ((w.measure machine run.numMeasurements.toNat 0).run now).1 with
  | error e => rfl
  | ok measured => rfl

/-- A run that is accepted, whose data can be counted and whose columns can be numbered, has a
    result of as many latencies as it asks for. -/
theorem exists_execute_eq_ok (hmachine : machine.Faithful) (hcheck : run.check = .ok ())
    (hsize : run.extent < Size.limit) (hcolumns : run.NumberedColumns)
    (hmemory : run.MemorySuffices) (hshort : run.ShortCodes) (source : σ) (now : τ) :
    ∃ data result, data.Suits run ∧ ((run.execute machine source).run now).1.1 = .ok result ∧
      result.run = run ∧ result.latencies.length = run.numMeasurements.toNat ∧
      result.checksum = run.checksumOn data := by
  obtain ⟨w, data, source', hprepare, hdata, hdoes⟩ :=
    exists_prepare hsize (hmemory.data hsize) source
  obtain ⟨latencies, hmeasure, hlength⟩ := Workload.exists_measure_eq_ok hmachine
    (fun w order hw => w.perform_eq_ok hw hdata hcheck hshort hcolumns order) hdoes
    run.numMeasurements.toNat 0 now
  rw [if_neg run.numMeasurements.toNat_pos.ne'] at hmeasure
  have hexecute := execute_of_prepared machine hcheck hprepare hmemory.latencies now
  rw [hmeasure] at hexecute
  -- There is a summary, since something has been measured.
  cases hsummary : Summary.ofLatencies? latencies with
  | none =>
    rw [Summary.ofLatencies?_eq_none_iff.1 hsummary] at hlength
    exact absurd hlength run.numMeasurements.toNat_pos.ne
  | some summary =>
    simp only [RunResult.ofMeasurements, hsummary] at hexecute
    exact ⟨data, _, hdata, hexecute, rfl, hlength, rfl⟩

/-- A run has a result exactly if it is accepted, its data can be counted and its columns can be
    numbered. -/
theorem execute_eq_ok_iff (hmachine : machine.Faithful) (hmemory : run.MemorySuffices)
    (hshort : run.ShortCodes) (source : σ) (now : τ) :
    (∃ result, ((run.execute machine source).run now).1.1 = .ok result) ↔
      run.check = .ok () ∧ run.extent < Size.limit ∧ run.NumberedColumns := by
  constructor
  · rintro ⟨result, hresult⟩
    cases hcheck : run.check with
    | error why =>
      rw [execute_of_rejected machine hcheck] at hresult
      exact absurd hresult (by simp)
    | ok u =>
      by_cases hsize : run.extent < Size.limit
      · refine ⟨rfl, hsize, ?_⟩
        by_contra hcolumns
        obtain ⟨w, data, source', hprepare, hdata, hdoes⟩ :=
          exists_prepare hsize (hmemory.data hsize) source
        obtain ⟨n, hperform⟩ := w.perform_of_unnumbered hdoes hdata hcheck hcolumns .forwards
        obtain ⟨times, htimes⟩ :=
          Nat.exists_eq_succ_of_ne_zero run.numMeasurements.toNat_pos.ne'
        rw [execute_of_prepared machine hcheck hprepare hmemory.latencies, htimes,
          Workload.measure_eq_error hmachine hperform] at hresult
        exact absurd hresult (by simp)
      · obtain ⟨error, hprepare⟩ := prepare_of_overflow hsize source
        rw [execute, hcheck, hprepare] at hresult
        exact absurd hresult (by simp)
  · rintro ⟨hcheck, hsize, hcolumns⟩
    obtain ⟨data, result, -, hresult, -⟩ :=
      exists_execute_eq_ok hmachine hcheck hsize hcolumns hmemory hshort source now
    exact ⟨result, hresult⟩

theorem result_of_execute (hmachine : machine.Faithful) (hmemory : run.MemorySuffices)
    (hshort : run.ShortCodes) {source : σ} {now : τ} {result : RunResult}
    (hresult : ((run.execute machine source).run now).1.1 = .ok result) :
    result.run = run ∧ result.latencies.length = run.numMeasurements.toNat := by
  obtain ⟨hcheck, hsize, hcolumns⟩ :=
    (execute_eq_ok_iff hmachine hmemory hshort source now).1 ⟨result, hresult⟩
  obtain ⟨data, result', -, hresult', hrun, hlength, -⟩ :=
    exists_execute_eq_ok hmachine hcheck hsize hcolumns hmemory hshort source now
  obtain rfl := Except.ok.inj (hresult.symm.trans hresult')
  exact ⟨hrun, hlength⟩

end Run

/-! ## Files -/

namespace Run

variable {σ : Type} [RandomSource σ] {runs : List Run}

theorem executeAll_cons (seed : UInt64) (run : Run) (runs : List Run) (now : τ) :
    ((executeAll machine σ seed (run :: runs)).run now).1 =
      match ((run.execute machine (RandomSource.seed seed : σ)).run now).1.1 with
      | .error e => .error e
      | .ok result => (result :: ·) <$> ((executeAll machine σ (seed + 1) runs).run
          ((run.execute machine (RandomSource.seed seed : σ)).run now).2).1 := by
  rw [executeAll, run_bind_state]
  generalize (run.execute machine (RandomSource.seed seed : σ)).run now = executed
  obtain ⟨⟨outcome, source⟩, now'⟩ := executed
  cases outcome with
  | error e => rfl
  | ok result =>
    dsimp only
    rw [run_bind_state]
    generalize (executeAll machine σ (seed + 1) runs).run now' = rest
    obtain ⟨outcome, now''⟩ := rest
    cases outcome <;> rfl

/-- All runs have results exactly if each of them can succeed, and then in the order of the
    runs. -/
theorem executeAll_eq_ok_iff (hmachine : machine.Faithful)
    (hmemory : ∀ run ∈ runs, run.MemorySuffices) (hshort : ∀ run ∈ runs, run.ShortCodes)
    (seed : UInt64) (now : τ) :
    ((∃ results, ((executeAll machine σ seed runs).run now).1 = .ok results) ↔
        ∀ run ∈ runs, run.check = .ok () ∧ run.extent < Size.limit ∧ run.NumberedColumns) ∧
      ∀ results, ((executeAll machine σ seed runs).run now).1 = .ok results →
        results.map (·.run) = runs := by
  induction runs generalizing seed now with
  | nil =>
    refine ⟨⟨fun _ run hrun => absurd hrun List.not_mem_nil, fun _ => ⟨[], rfl⟩⟩, ?_⟩
    intro results hresults
    obtain rfl := Except.ok.inj hresults
    rfl
  | cons run runs ih =>
    obtain ⟨hmemory, hmemory'⟩ := List.forall_mem_cons.1 hmemory
    obtain ⟨hshort, hshort'⟩ := List.forall_mem_cons.1 hshort
    have hfirst := execute_eq_ok_iff hmachine hmemory hshort (RandomSource.seed seed : σ) now
    rw [executeAll_cons, List.forall_mem_cons, ← hfirst]
    cases hresult : ((run.execute machine (RandomSource.seed seed : σ)).run now).1.1 with
    | error e => simp
    | ok result =>
      obtain ⟨hrun, -⟩ := result_of_execute hmachine hmemory hshort hresult
      obtain ⟨hiff, hall⟩ := ih hmemory' hshort' (seed + 1)
        ((run.execute machine (RandomSource.seed seed : σ)).run now).2
      rw [← hiff]
      cases hrest : ((executeAll machine σ (seed + 1) runs).run
          ((run.execute machine (RandomSource.seed seed : σ)).run now).2).1 with
      | error e => simp
      | ok rest =>
        refine ⟨⟨fun _ => ⟨⟨result, rfl⟩, rest, rfl⟩, fun _ => ⟨_, rfl⟩⟩, ?_⟩
        intro results hresults
        obtain rfl := Except.ok.inj hresults
        rw [List.map_cons, hrun, hall rest hrest]

end Run

/-! ## Checks and executions -/

namespace Run

/-- The check of a run tells whether it can succeed, whatever the source of its data and
    whatever the machine does. Let the data and the latencies of the run fit into memory, and let
    its codes be shorter than `2 ^ 29` bytes. Then it has a result exactly if it is accepted, its
    data can be counted in 64 bits and its columns can be numbered in 32, and the result has as
    many latencies as the run asks for.

    A run that is rejected fails with what the check says, draws no data and takes no time. Nor
    would it have been of use to go on: the scan, the search or the selection that the run
    describes refuses all data of the sizes that the run asks for, and there is such data unless
    it cannot be counted. So the runs of a file that is accepted all have a result, in their
    order, unless one of them has too much data or too many columns. -/
theorem check_agrees_with_execution {σ : Type} [RandomSource σ] (hmachine : machine.Faithful) :
    (∀ (run : Run) (source : σ) (now : τ), run.MemorySuffices → run.ShortCodes →
      ((∃ result, ((run.execute machine source).run now).1.1 = .ok result) ↔
        run.check = .ok () ∧ run.extent < Size.limit ∧ run.NumberedColumns) ∧
      ∀ result, ((run.execute machine source).run now).1.1 = .ok result →
        result.run = run ∧ result.latencies.length = run.numMeasurements.toNat) ∧
    (∀ (run : Run) why, run.check = .error why →
      (∀ (source : σ) (now : τ),
        (run.execute machine source).run now = ((.error (.rejected why), source), now)) ∧
      (∀ (w : Workload) data, data.Suits run → w.Does run data →
        ∀ order, w.perform order = .error why.callError) ∧
      (run.extent < Size.limit → ∃ w data, data.Suits run ∧ Workload.Does w run data)) ∧
    ∀ text file, RunFile.parse text = .ok file →
      (∀ run ∈ file.runs, run.MemorySuffices ∧ run.ShortCodes) →
      ∀ (seed : UInt64) (now : τ),
        ((∃ results, ((file.execute machine σ seed).run now).1 = .ok results) ↔
          ∀ run ∈ file.runs, run.extent < Size.limit ∧ run.NumberedColumns) ∧
        ∀ results, ((file.execute machine σ seed).run now).1 = .ok results →
          results.map (·.run) = file.runs := by
  refine ⟨fun run source now hmemory hshort => ?_, fun run why hcheck => ?_,
    fun text file hfile hall seed now => ?_⟩
  · exact ⟨execute_eq_ok_iff hmachine hmemory hshort source now,
      fun result hresult => result_of_execute hmachine hmemory hshort hresult⟩
  · refine ⟨fun source now => ?_, fun w data hdata hdoes order => ?_, exists_does⟩
    · rw [execute_of_rejected machine hcheck]
      rfl
    · exact w.perform_of_rejected hdoes hdata hcheck order
  · obtain ⟨hiff, hruns⟩ := @executeAll_eq_ok_iff τ machine σ _ file.runs hmachine
      (fun run hrun => (hall run hrun).1) (fun run hrun => (hall run hrun).2) seed now
    refine ⟨hiff.trans (forall₂_congr fun run hrun => ?_), hruns⟩
    exact and_iff_right (RunFile.check_of_parse hfile run hrun)

/-- A machine whose clock goes on by one whenever something is timed, and which scores codes from
    the last to the first at odd times. -/
def tickingMachine : Machine (StateM ℕ) where
  time f := do
    let now ← get
    set (now + 1)
    return (f (), UInt64.ofNat now)
  schedule := do
    let now ← get
    return if now % 2 = 0 then .forwards else .backwards

/-- Two codes of eight bytes, whose distances are measured three times. -/
def twoCodes : Run := .hamming {
  codeSize := ⟨8, by decide⟩, numCodes := ⟨2, by decide⟩, distance := .generalized
  k := none, parallel := true, numMeasurements := ⟨3, by decide⟩ }

theorem execute_twoCodes :
    tickingMachine.Faithful ∧ twoCodes.MemorySuffices ∧ twoCodes.ShortCodes ∧
      ∃ result, ((twoCodes.execute tickingMachine (RandomSource.seed 7 : ChaCha)).run 0).1.1 =
        .ok result ∧ result.latencies.length = 3 := by
  have hmachine : tickingMachine.Faithful := fun _ _ => rfl
  have hmemory : twoCodes.MemorySuffices := ⟨fun _ => by decide, by decide⟩
  have hshort : twoCodes.ShortCodes := by
    rw [twoCodes, ShortCodes]
    decide
  obtain ⟨hiff, hresult⟩ := (check_agrees_with_execution hmachine).1 twoCodes
    (RandomSource.seed 7 : ChaCha) 0 hmemory hshort
  obtain ⟨result, heq⟩ := hiff.2 ⟨by decide, by decide, trivial⟩
  exact ⟨hmachine, hmemory, hshort, result, heq, (hresult result heq).2⟩

end Run

end NeighborSearch
