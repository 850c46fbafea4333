import NeighborSearch.Proofs.Outcome
import NeighborSearch.Proofs.Run.Execution

/-!
# Results by position

Apart from the time that was taken, a result tells the run, how often it was measured and the
checksum (`RunResult.timeless`). The machine has no part in these: they are what the run comes to
on the data that its source gives (`Run.outcome`). The runs of a file are executed one after the
other, each with a source of its own, and what is left of a source is thrown away. So a file
comes to what its runs come to, each from the seed of its position (`RunFile.outcomeAt_eq`). From
this equation all else follows: how the results of a file are put together from those of its
parts, which error is reported, and that no result depends on the runs around it
(`RunFile.results_by_position`).
-/

namespace NeighborSearch

variable {τ : Type} {machine : Machine (StateM τ)} {σ : Type} [RandomSource σ]

/-! ## Results apart from the time -/

namespace RunResult

/-- What a result tells apart from the time: the run, how often it was measured, and the
    checksum. -/
def timeless (result : RunResult) : Run × ℕ × UInt64 :=
  (result.run, result.latencies.length, result.checksum)

theorem map_timeless_ofMeasurements (run : Run) {latencies : List Size}
    (hmeasured : latencies.length ≠ 0) (checksum : UInt64) :
    (ofMeasurements run latencies checksum).map timeless =
      .ok (run, latencies.length, checksum) := by
  rw [ofMeasurements]
  cases hsummary : Summary.ofLatencies? latencies with
  | none =>
    rw [Summary.ofLatencies?_eq_none_iff.1 hsummary] at hmeasured
    exact absurd rfl hmeasured
  | some summary => rfl

end RunResult

/-! ## One run -/

namespace Run

/-- What a run comes to apart from the time, when its execution begins at some time. -/
def outcomeAt (machine : Machine (StateM τ)) (run : Run) (source : σ) (now : τ) :
    Except RunError (Run × ℕ × UInt64) :=
  ((run.execute machine source).run now).1.1.map RunResult.timeless

/-- What a run comes to on the data that a source gives. -/
def outcome (run : Run) (source : σ) : Except RunError (Run × ℕ × UInt64) :=
  match run.check with
  | .error why => .error (.rejected why)
  | .ok () =>
    match (run.prepare source).1 with
    | .error e => .error e
    | .ok workload =>
      if run.LatenciesFit then
        (workload.performTimes run.numMeasurements.toNat 0).map
          (run, run.numMeasurements.toNat, ·)
      else
        .error .beyondMemory

/-- The machine has no part in what a run comes to. -/
theorem outcomeAt_eq (hmachine : machine.Faithful) (run : Run) (source : σ) (now : τ) :
    run.outcomeAt machine source now = run.outcome source := by
  cases hcheck : run.check with
  | error why =>
    rw [outcomeAt, execute_of_rejected machine hcheck, outcome, hcheck]
    rfl
  | ok u =>
    cases hprepare : run.prepare source with
    | mk prepared source' =>
      cases prepared with
      | error e =>
        rw [outcomeAt, execute, hcheck, outcome, hcheck, hprepare]
        rfl
      | ok w =>
        by_cases hfits : run.LatenciesFit
        · rw [outcomeAt, execute_of_prepared machine hcheck hprepare hfits, outcome, hcheck,
            hprepare]
          simp only [if_pos hfits]
          obtain ⟨latencies, hlength, hmeasure⟩ :=
            w.exists_measure hmachine run.numMeasurements.toNat 0 now
          rw [hmeasure]
          cases w.performTimes run.numMeasurements.toNat 0 with
          | error e => rfl
          | ok sum =>
            rw [← hlength]
            exact RunResult.map_timeless_ofMeasurements run
              (hlength.trans_ne run.numMeasurements.toNat_pos.ne') sum
        · rw [outcomeAt, execute, hcheck, outcome, hcheck, hprepare]
          simp only [if_neg hfits]
          rfl

/-- What a run comes to at its position in a file with this seed. -/
def outcomeFrom (σ : Type) [RandomSource σ] (seed : UInt64) (positioned : Run × ℕ) :
    Except RunError (Run × ℕ × UInt64) :=
  positioned.1.outcome (RandomSource.seed (seed + UInt64.ofNat positioned.2) : σ)

/-- Executed one after the other from some position on, runs come to what each of them comes to
    alone. -/
theorem map_timeless_executeAll (hmachine : machine.Faithful) (seed : UInt64) (runs : List Run)
    (position : ℕ) (now : τ) :
    ((executeAll machine σ (seed + UInt64.ofNat position) runs).run now).1.map
        (List.map RunResult.timeless) =
      (runs.zipIdx position).mapM (outcomeFrom σ seed) := by
  induction runs generalizing position now with
  | nil => rfl
  | cons run runs ih =>
    have hfirst := run.outcomeAt_eq hmachine
      (RandomSource.seed (seed + UInt64.ofNat position) : σ) now
    have hnext : seed + UInt64.ofNat position + 1 = seed + UInt64.ofNat (position + 1) := by
      rw [UInt64.ofNat_add, UInt64.add_assoc]
      rfl
    rw [executeAll_cons, hnext, List.zipIdx_cons, List.mapM_cons, outcomeFrom, ← hfirst, outcomeAt]
    generalize (run.execute machine (RandomSource.seed (seed + UInt64.ofNat position) : σ)).run
      now = executed
    cases executed.1.1 with
    | error e => rfl
    | ok result =>
      rw [← ih (position + 1) executed.2]
      cases ((executeAll machine σ (seed + UInt64.ofNat (position + 1)) runs).run executed.2).1 <;>
        rfl

end Run

/-! ## Files -/

namespace RunFile

/-- What a file comes to apart from the time, when its execution begins at some time. -/
def outcomeAt (machine : Machine (StateM τ)) (σ : Type) [RandomSource σ] (file : RunFile)
    (seed : UInt64) (now : τ) : Except RunError (List (Run × ℕ × UInt64)) :=
  ((file.execute machine σ seed).run now).1.map (List.map RunResult.timeless)

theorem outcomeAt_eq (hmachine : machine.Faithful) (file : RunFile) (seed : UInt64) (now : τ) :
    file.outcomeAt machine σ seed now = file.runs.zipIdx.mapM (Run.outcomeFrom σ seed) := by
  have hzero : seed + UInt64.ofNat 0 = seed := UInt64.add_zero seed
  rw [outcomeAt, execute, ← hzero]
  exact (Run.map_timeless_executeAll hmachine seed file.runs 0 now).trans (by rw [hzero])

/-- The second part of a file is executed as a file of its own, from the seed of its position. -/
theorem outcomeAt_append (hmachine : machine.Faithful) (xs ys : List Run) (seed : UInt64)
    (now now₁ now₂ : τ) :
    (mk (xs ++ ys)).outcomeAt machine σ seed now = (do
      let first ← (mk xs).outcomeAt machine σ seed now₁
      let second ← (mk ys).outcomeAt machine σ (seed + UInt64.ofNat xs.length) now₂
      return first ++ second) := by
  have hsecond : (mk ys).outcomeAt machine σ (seed + UInt64.ofNat xs.length) now₂ =
      (ys.zipIdx xs.length).mapM (Run.outcomeFrom σ seed) :=
    Run.map_timeless_executeAll hmachine seed ys xs.length now₂
  rw [hsecond, outcomeAt_eq hmachine, outcomeAt_eq hmachine, List.zipIdx_append, List.mapM_append,
    Nat.zero_add]

variable {file : RunFile} {seed : UInt64} {now : τ}

/-- Of a file that succeeds, every run comes to what it comes to alone. -/
theorem getElem_of_outcomeAt (hmachine : machine.Faithful)
    {results : List (Run × ℕ × UInt64)} (hfile : file.outcomeAt machine σ seed now = .ok results) :
    results.length = file.runs.length ∧
      ∀ (i : ℕ) (hi : i < file.runs.length) (hi' : i < results.length),
        file.runs[i].outcome (RandomSource.seed (seed + UInt64.ofNat i) : σ) = .ok results[i] := by
  rw [outcomeAt_eq hmachine, mapM_eq_ok_iff, List.forall₂_iff_get] at hfile
  obtain ⟨hlength, hall⟩ := hfile
  rw [List.length_zipIdx] at hlength
  refine ⟨hlength.symm, fun i hi hi' => ?_⟩
  have hi := hall i (by rwa [List.length_zipIdx]) hi'
  simp only [List.get_eq_getElem, List.getElem_zipIdx, Nat.zero_add] at hi
  exact hi

/-- A file fails as the first of its runs that fails. -/
theorem outcomeAt_eq_error_iff (hmachine : machine.Faithful) {error : RunError} :
    file.outcomeAt machine σ seed now = .error error ↔
      ∃ (i : ℕ) (hi : i < file.runs.length),
        file.runs[i].outcome (RandomSource.seed (seed + UInt64.ofNat i) : σ) = .error error ∧
        ∀ (j : ℕ) (hj : j < i), ∃ result,
          file.runs[j].outcome (RandomSource.seed (seed + UInt64.ofNat j) : σ) = .ok result := by
  rw [outcomeAt_eq hmachine, mapM_eq_error_iff]
  simp only [List.length_zipIdx, List.getElem_zipIdx, Nat.zero_add]
  rfl

/-- Apart from the time, what comes of a run depends on its position, the seed and the run alone.

    A file of two parts succeeds exactly if the first part and, from the seed that is as many
    further as the first part has runs, the second part succeed as files of their own; it then
    has the results of the first part followed by those of the second. A file fails exactly with
    the error of the first of its runs that fails. If it succeeds, it has one result for each
    run, the one that the run alone has from the seed of its position. So two files with the same
    run at a position have the same result there, whatever their other runs and their lengths,
    as long as both succeed. The times, and with them the orders in which codes are scored, may
    differ throughout, and the source may draw as many words for a number as it likes. -/
theorem results_by_position (hmachine : machine.Faithful) :
    (∀ (xs ys : List Run) (seed : UInt64) (now now₁ now₂ : τ),
      ((∃ results, (mk (xs ++ ys)).outcomeAt machine σ seed now = .ok results) ↔
        (∃ first, (mk xs).outcomeAt machine σ seed now₁ = .ok first) ∧
          ∃ second,
            (mk ys).outcomeAt machine σ (seed + UInt64.ofNat xs.length) now₂ = .ok second) ∧
      ∀ first second, (mk xs).outcomeAt machine σ seed now₁ = .ok first →
        (mk ys).outcomeAt machine σ (seed + UInt64.ofNat xs.length) now₂ = .ok second →
        (mk (xs ++ ys)).outcomeAt machine σ seed now = .ok (first ++ second)) ∧
    (∀ (file : RunFile) (seed : UInt64) (now now' : τ),
      (∀ error, file.outcomeAt machine σ seed now = .error error ↔
        ∃ (i : ℕ) (hi : i < file.runs.length),
          file.runs[i].outcomeAt machine (RandomSource.seed (seed + UInt64.ofNat i) : σ) now' =
            .error error ∧
          ∀ (j : ℕ) (hj : j < i), ∃ result,
            file.runs[j].outcomeAt machine (RandomSource.seed (seed + UInt64.ofNat j) : σ) now' =
              .ok result) ∧
      ∀ results, file.outcomeAt machine σ seed now = .ok results →
        results.length = file.runs.length ∧
        ∀ (i : ℕ) (hi : i < file.runs.length) (hi' : i < results.length),
          file.runs[i].outcomeAt machine (RandomSource.seed (seed + UInt64.ofNat i) : σ) now' =
            .ok results[i]) ∧
    ∀ (file file' : RunFile) (seed : UInt64) (now now' : τ) (i : ℕ) (run : Run),
      file.runs[i]? = some run → file'.runs[i]? = some run →
      ∀ results results', file.outcomeAt machine σ seed now = .ok results →
        file'.outcomeAt machine σ seed now' = .ok results' →
        ∃ result, results[i]? = some result ∧ results'[i]? = some result := by
  refine ⟨fun xs ys seed now now₁ now₂ => ?_, fun file seed now now' => ?_,
    fun file file' seed now now' i run hrun hrun' results results' hfile hfile' => ?_⟩
  · simp only [outcomeAt_append hmachine xs ys seed now now₁ now₂, bind_eq_ok_iff]
    refine ⟨⟨?_, ?_⟩, fun first second hfirst hsecond => ⟨first, hfirst, second, hsecond, rfl⟩⟩
    · rintro ⟨results, first, hfirst, second, hsecond, -⟩
      exact ⟨⟨first, hfirst⟩, second, hsecond⟩
    · rintro ⟨⟨first, hfirst⟩, second, hsecond⟩
      exact ⟨_, first, hfirst, second, hsecond, rfl⟩
  · simp only [Run.outcomeAt_eq hmachine]
    exact ⟨fun error => outcomeAt_eq_error_iff hmachine,
      fun results hfile => getElem_of_outcomeAt hmachine hfile⟩
  · obtain ⟨hi, hrun⟩ := List.getElem?_eq_some_iff.1 hrun
    obtain ⟨hi', hrun'⟩ := List.getElem?_eq_some_iff.1 hrun'
    obtain ⟨hlength, hall⟩ := getElem_of_outcomeAt hmachine hfile
    obtain ⟨hlength', hall'⟩ := getElem_of_outcomeAt hmachine hfile'
    have hresult := hall i hi (hlength ▸ hi)
    have hresult' := hall' i hi' (hlength' ▸ hi')
    rw [hrun] at hresult
    rw [hrun'] at hresult'
    refine ⟨_, List.getElem?_eq_getElem (hlength ▸ hi), ?_⟩
    rw [List.getElem?_eq_getElem (hlength' ▸ hi'),
      Except.ok.inj (hresult'.symm.trans hresult)]

/-- A run of two codes, before and after the seeds begin anew. -/
theorem results_twoCodes_wrapped :
    Run.tickingMachine.Faithful ∧ ∃ first second,
      (mk [Run.twoCodes]).outcomeAt Run.tickingMachine ChaCha 0xFFFFFFFFFFFFFFFF 0 = .ok first ∧
      (mk [Run.twoCodes]).outcomeAt Run.tickingMachine ChaCha 0 9 = .ok second ∧
      (mk [Run.twoCodes, Run.twoCodes]).outcomeAt Run.tickingMachine ChaCha 0xFFFFFFFFFFFFFFFF 4 =
        .ok (first ++ second) := by
  have hmachine : Run.tickingMachine.Faithful := fun _ _ => rfl
  have halone : ∀ (seed : UInt64) (now : ℕ), ∃ results,
      (mk [Run.twoCodes]).outcomeAt Run.tickingMachine ChaCha seed now = .ok results := by
    intro seed now
    have hmemory : Run.twoCodes.MemorySuffices := ⟨fun _ => by decide, by decide⟩
    have hshort : Run.twoCodes.ShortCodes := by
      rw [Run.twoCodes, Run.ShortCodes]
      decide
    obtain ⟨hiff, -⟩ := Run.executeAll_eq_ok_iff (σ := ChaCha) hmachine
      (List.forall_mem_singleton.2 hmemory) (List.forall_mem_singleton.2 hshort) seed now
    obtain ⟨results, hresults⟩ :=
      hiff.2 (List.forall_mem_singleton.2 ⟨by decide, by decide, trivial⟩)
    exact ⟨results.map RunResult.timeless,
      congrArg (Except.map (List.map RunResult.timeless)) hresults⟩
  obtain ⟨first, hfirst⟩ := halone 0xFFFFFFFFFFFFFFFF 0
  obtain ⟨second, hsecond⟩ := halone 0 9
  obtain ⟨hparts, -⟩ := results_by_position (σ := ChaCha) hmachine
  obtain ⟨-, hwhole⟩ := hparts [Run.twoCodes] [Run.twoCodes] 0xFFFFFFFFFFFFFFFF 4 0 9
  exact ⟨hmachine, first, second, hfirst, hsecond, hwhole first second hfirst hsecond⟩

end RunFile

end NeighborSearch
