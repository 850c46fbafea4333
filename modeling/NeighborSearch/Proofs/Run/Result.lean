import NeighborSearch.Proofs.Json.Real
import NeighborSearch.Proofs.Run.Position

/-!
# Results of executions

A result that comes of an execution has the summary of its latencies (`RunResult.Measured`). So
it can be written: its mean is not too large to be read again (`RunResult.Measured.plain`). An
execution for which memory suffices does not fail for lack of memory
(`Run.outcome_ne_beyondMemory`).
-/

namespace NeighborSearch

/-! ## Means -/

namespace Summary

theorem units_meanOf_lt (sum : ℕ) {count : ℕ} (hcount : 0 < count) :
    (meanOf sum count).units < 2 ^ 54 + 8 * (sum * Double.unitsInOne) := by
  have hnum : Rounding.toDigits 53 sum ≤ 2 * sum :=
    (Rounding.toDigits_within_half (by decide)).2
  have hden : count ≤ 2 * Rounding.toDigits 53 count :=
    (Rounding.toDigits_within_half (by decide)).1
  have hunits := Double.units_ofQuotient_lt (Rounding.toDigits 53 sum)
    (show 0 < Rounding.toDigits 53 count by omega)
  have hscaled := Nat.mul_le_mul_right Double.unitsInOne hnum
  rw [Nat.mul_assoc] at hscaled
  rw [meanOf]
  omega

/-- The mean of latencies is no larger than their sum by much, and that is taken in 64 bits. -/
theorem units_mean_le {latencies : List Size} {summary : Summary}
    (h : ofLatencies? latencies = some summary) :
    summary.mean.units ≤ 2 ^ 68 * Double.unitsInOne := by
  simp only [ofLatencies?, Option.bind_eq_bind, Option.bind_eq_some_iff, Option.pure_def,
    Option.some.injEq] at h
  obtain ⟨least, hleast, median, -, greatest, -, rfl⟩ := h
  have hpos : 0 < (sort latencies).length := by
    obtain ⟨rest, hrest⟩ := List.head?_eq_some_iff.1 hleast
    rw [hrest]
    exact Nat.zero_lt_succ _
  have hsum : ((sort latencies).foldl (· + ·) 0).toNat ≤ 2 ^ 64 := Nat.le_of_lt (UInt64.toNat_lt _)
  have hunits := units_meanOf_lt ((sort latencies).foldl (· + ·) 0).toNat hpos
  have hscaled := Nat.mul_le_mul_right Double.unitsInOne hsum
  have hone : 2 ^ 54 ≤ Double.unitsInOne := by decide
  dsimp only
  omega

end Summary

/-! ## Results -/

/-- A result with the summary of its latencies. -/
def RunResult.Measured (result : RunResult) : Prop :=
  Summary.ofLatencies? result.latencies = some result.summary

/-- The result of an execution is written without loss. -/
theorem RunResult.Measured.plain {result : RunResult} (h : result.Measured) (depth : ℕ) :
    Json.Plain (depth + 4) result.toJson := by
  have hsize (n : Size) {depth : ℕ} : Json.Plain depth (.ofNat n.toNat) := .ofNat n.toNat_lt_limit
  have hmean : Json.ReadAs result.summary.mean.text.toList (.real result.summary.mean.text) :=
    Json.readAs_double (Summary.units_mean_le h) (by decide)
  have hsummary : Json.Plain (depth + 3) result.summary.toJson := by
    refine .object ?_
    simp only [List.forall_mem_cons, List.not_mem_nil, false_implies, implies_true, and_true]
    exact ⟨hsize _, hsize _, .real hmean, hsize _⟩
  have hlatencies : Json.Plain (depth + 3) (.ofItems (result.latencies.map (.ofNat ·.toNat))) :=
    .array (List.forall_mem_map.2 fun latency _ => hsize latency)
  refine .object ?_
  simp only [List.forall_mem_cons, List.not_mem_nil, false_implies, implies_true, and_true]
  exact ⟨result.run.plain_toJson depth, hlatencies, hsummary, hsize _⟩

section

variable {τ : Type} {machine : Machine (StateM τ)} {σ : Type} [RandomSource σ]

theorem RunResult.measured_of_ofMeasurements {run : Run} {latencies : List Size}
    {checksum : UInt64} {result : RunResult}
    (h : ofMeasurements run latencies checksum = .ok result) : result.Measured := by
  rw [ofMeasurements] at h
  split at h
  case h_1 summary hsummary =>
    obtain rfl := Except.ok.inj h
    exact hsummary
  case h_2 => cases h

/-- What comes of an execution is measured. -/
theorem Run.measured_of_execute {run : Run} {source : σ} {now : τ} {result : RunResult}
    (h : ((run.execute machine source).run now).1.1 = .ok result) : result.Measured := by
  cases hcheck : run.check with
  | error why =>
    rw [execute_of_rejected machine hcheck] at h
    cases h
  | ok =>
    cases hprepare : run.prepare source with
    | mk prepared source' =>
      cases prepared with
      | error e =>
        rw [execute, hcheck, hprepare] at h
        cases h
      | ok w =>
        by_cases hfits : run.LatenciesFit
        · rw [execute_of_prepared machine hcheck hprepare hfits] at h
          split at h
          case h_1 => cases h
          case h_2 => exact RunResult.measured_of_ofMeasurements h
        · rw [execute, hcheck, hprepare] at h
          simp only [if_neg hfits] at h
          cases h

/-- What comes of the runs of a file is measured. -/
theorem Run.measured_of_executeAll {runs : List Run} {seed : UInt64} {now : τ}
    {results : List RunResult}
    (h : ((executeAll machine σ seed runs).run now).1 = .ok results) :
    ∀ result ∈ results, result.Measured := by
  induction runs generalizing seed now results with
  | nil =>
    obtain rfl := Except.ok.inj h
    exact fun _ h => absurd h List.not_mem_nil
  | cons run runs ih =>
    rw [executeAll_cons] at h
    cases hresult : ((run.execute machine (RandomSource.seed seed : σ)).run now).1.1 with
    | error e =>
      rw [hresult] at h
      cases h
    | ok result =>
      rw [hresult] at h
      obtain ⟨rest, hrest, rfl⟩ := functor_map_eq_ok_iff.1 h
      exact List.forall_mem_cons.2 ⟨measured_of_execute hresult, ih hrest⟩

/-- A run comes to something of this run. -/
theorem Run.fst_of_outcome {run : Run} {source : σ} {result : Run × ℕ × UInt64}
    (h : run.outcome source = .ok result) : result.1 = run := by
  rw [outcome] at h
  split at h
  case h_1 => cases h
  case h_2 =>
    split at h
    case h_1 => cases h
    case h_2 =>
      split_ifs at h
      obtain ⟨sum, -, rfl⟩ := map_eq_ok_iff.1 h
      rfl

/-- There is one result for each run of a file, in the order of the file. -/
theorem RunFile.map_fst_of_outcomeAt (hmachine : machine.Faithful) {file : RunFile} {seed : UInt64}
    {now : τ} {results : List (Run × ℕ × UInt64)}
    (h : file.outcomeAt machine σ seed now = .ok results) : results.map (·.1) = file.runs := by
  obtain ⟨hlength, hall⟩ := getElem_of_outcomeAt hmachine h
  refine List.ext_getElem (by rw [List.length_map, hlength]) fun i hi hi' => ?_
  rw [List.getElem_map]
  exact Run.fst_of_outcome (hall i hi' (hlength ▸ hi'))

/-! ## Memory -/

theorem Session.expect_ne_beyondMemory (s : Session) (c : Command) :
    s.expect c ≠ .error .beyondMemory := by
  rw [expect]
  split <;> rintro ⟨⟩

theorem Session.selectOnce_ne_beyondMemory (s : Session) (k : ℕ) :
    s.selectOnce k ≠ .error .beyondMemory := by
  simp only [selectOnce, ne_eq, bind_eq_error_iff, expect_ne_beyondMemory, false_or, not_exists,
    not_and]
  rintro launched - synchronized - ⟨s, answer⟩ -
  split <;> rintro ⟨⟩

theorem Workload.perform_ne_beyondMemory (w : Workload) (order : TaskOrder) :
    w.perform order ≠ .error .beyondMemory := by
  cases w with
  | distances measured query codes parallelism out =>
    rw [perform]
    split <;> rintro ⟨⟩
  | nearest measured query codes k parallelism =>
    cases measured with
    | generalized => rintro ⟨⟩
    | bitwise =>
      rw [perform]
      split <;> rintro ⟨⟩
  | select device k =>
    rw [perform]
    split
    case h_1 => rintro ⟨⟩
    case h_2 e he =>
      rintro ⟨rfl⟩
      exact device.selectOnce_ne_beyondMemory k he

theorem Workload.performTimes_ne_beyondMemory (w : Workload) (times : ℕ) (sum : UInt64) :
    w.performTimes times sum ≠ .error .beyondMemory := by
  induction times generalizing w sum with
  | zero => rintro ⟨⟩
  | succ times ih =>
    rw [performTimes, ne_eq, bind_eq_error_iff, not_or]
    refine ⟨w.perform_ne_beyondMemory .forwards, ?_⟩
    rintro ⟨performed, -, h⟩
    exact ih performed.2 performed.1 h

theorem Run.prepare_ne_beyondMemory {run : Run} (h : run.extent < Size.limit → run.DataFits)
    (source : σ) : (run.prepare source).1 ≠ .error .beyondMemory := by
  by_cases hsize : run.extent < Size.limit
  · obtain ⟨w, data, source', hprepare, -⟩ := exists_prepare hsize (h hsize) source
    rw [hprepare]
    rintro ⟨⟩
  · cases run with
    | hamming run =>
      have hnone : Size.mul? run.codeSize.toNat run.numCodes.toNat = none := if_neg hsize
      rw [prepare, HammingRun.prepare, hnone]
      rintro ⟨⟩
    | select run =>
      have hnone : Size.mul? run.rows.toNat run.cols.toNat = none := if_neg hsize
      rw [prepare, SelectRun.prepare, hnone]
      rintro ⟨⟩

/-- No run for which memory suffices fails for lack of memory. -/
theorem Run.outcome_ne_beyondMemory {run : Run} (hmemory : run.MemorySuffices) (source : σ) :
    run.outcome source ≠ .error .beyondMemory := by
  rw [outcome]
  split
  case h_1 => rintro ⟨⟩
  case h_2 =>
    split
    case h_1 e he =>
      rintro ⟨rfl⟩
      exact prepare_ne_beyondMemory hmemory.data source he
    case h_2 w hw =>
      rw [if_pos hmemory.latencies]
      cases hsum : w.performTimes run.numMeasurements.toNat 0 with
      | error e =>
        rintro ⟨rfl⟩
        exact w.performTimes_ne_beyondMemory _ _ hsum
      | ok sum => rintro ⟨⟩

end

end NeighborSearch
