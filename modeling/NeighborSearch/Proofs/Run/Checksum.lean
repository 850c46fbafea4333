import Mathlib.Algebra.BigOperators.Ring.List
import Mathlib.Algebra.Group.Action.Defs
import Mathlib.Algebra.Order.BigOperators.Group.List
import Mathlib.Data.Nat.Choose.Basic
import NeighborSearch.Proofs.Code.Metric
import NeighborSearch.Proofs.Run.Position
import NeighborSearch.Proofs.Selection.Safety

/-!
# Checksums of runs

A checksum is a sum, so it does not depend on an order (`checksum_perm`). Whatever a scan writes
for a code (`Scan.writtenAt`), the nearest codes that are found are sorted from it. So if all codes
are asked for, the checksum of the nearest codes is that of the plain scan and the sum of the
positions; and if all columns are selected, the checksum is the sum of the columns, as often as
there are rows (`Run.checksums_related`).
-/

namespace NeighborSearch

/-! ## Sums in 64 bits -/

theorem checksum_eq (numbers : List ℕ) : checksum numbers = UInt64.ofNat numbers.sum := rfl

theorem checksum_perm {xs ys : List ℕ} (h : xs.Perm ys) : checksum xs = checksum ys := by
  rw [checksum_eq, checksum_eq, h.sum_eq]

theorem toNat_checksum {numbers : List ℕ} (h : numbers.sum < 2 ^ 64) :
    (checksum numbers).toNat = numbers.sum := by
  rw [checksum_eq, UInt64.toNat_ofNat_of_lt' h]

theorem sum_range (n : ℕ) : (List.range n).sum = n * (n - 1) / 2 := by
  induction n with
  | zero => rfl
  | succ n ih => rw [List.range_succ, List.sum_append, ih, List.sum_singleton, Nat.triangle_succ]

/-! ## Scans -/

namespace Scan

variable {measured : Distance} {query codes : Code} {n k : ℕ}

/-- The nearest codes are sorted from what a scan writes. -/
theorem nearest_eq_ok (h : Consists query codes n) (hkn : k ≤ n) (order : TaskOrder) :
    nearest query codes k order = .ok ((Neighbor.sort ((List.range n).map fun i =>
      ⟨writtenAt .bitwise query codes i, i⟩)).take k) := by
  refine nearestBy_of_distances Neighbor.isPartition_partAt Neighbor.isSort_sort h hkn ?_
  rw [allDistances, h.fits_bitwise.run_distances_eq order Array.size_replicate]

/-- The distances of all codes, as numbers without a bound. -/
def differings (measured : Distance) (query codes : Code) (n : ℕ) : List ℕ :=
  (List.range n).map fun i => measured.differing query (codeAt query.length codes i)

/-- The distances that fit in a word are written as they are. -/
theorem Fits.map_toNat_writtenAt (h : Fits measured query codes n)
    (hfew : ∀ d ∈ differings measured query codes n, d < 2 ^ 32) :
    (List.range n).map (fun i => (writtenAt measured query codes i).toNat) =
      differings measured query codes n :=
  List.map_congr_left fun i hi => h.toNat_writtenAt (List.mem_range.1 hi)
    (hfew _ (List.mem_map.2 ⟨i, hi, rfl⟩))

/-- A byte that differs does so in one to eight bits. -/
theorem sum_differings_bounds (query codes : Code) (n : ℕ) :
    (differings .generalized query codes n).sum ≤ (differings .bitwise query codes n).sum ∧
      (differings .bitwise query codes n).sum ≤
        8 * (differings .generalized query codes n).sum := by
  have hcode := fun i => Distance.differing_bitwise_bounds query (codeAt query.length codes i)
  refine ⟨List.sum_le_sum fun i _ => (hcode i).1, ?_⟩
  rw [differings, differings, ← List.sum_map_mul_left]
  exact List.sum_le_sum fun i _ => (hcode i).2

end Scan

/-- The checksum of a scan that writes these counts. -/
def HammingRun.checksumOf (run : HammingRun) (written : ℕ → UInt32) : UInt64 :=
  match run.k with
  | none => checksum ((List.range run.numCodes.toNat).map fun i => (written i).toNat)
  | some k => checksum (((Neighbor.sort ((List.range run.numCodes.toNat).map fun i =>
      ⟨written i, i⟩)).take k.toNat).map fun n => n.distance.toNat + n.id)

/-- If all codes are asked for, their positions are added. -/
theorem HammingRun.checksumOf_all {all nearest : HammingRun}
    (hnumCodes : nearest.numCodes = all.numCodes) (hall : all.k = none)
    (hk : nearest.k = some all.numCodes) (written : ℕ → UInt32) :
    nearest.checksumOf written = all.checksumOf written +
      UInt64.ofNat (all.numCodes.toNat * (all.numCodes.toNat - 1) / 2) := by
  have hperm := (Neighbor.isSort_sort ((List.range all.numCodes.toNat).map fun i =>
    (⟨written i, i⟩ : Neighbor))).1
  have hlength : (Neighbor.sort ((List.range all.numCodes.toNat).map fun i =>
      (⟨written i, i⟩ : Neighbor))).length = all.numCodes.toNat := by
    rw [hperm.length_eq, List.length_map, List.length_range]
  rw [checksumOf, checksumOf, hk, hall, hnumCodes]
  dsimp only
  have hsum : ((List.range all.numCodes.toNat).map fun i => (written i).toNat + i).sum =
      ((List.range all.numCodes.toNat).map fun i => (written i).toNat).sum +
        (List.range all.numCodes.toNat).sum := by
    rw [List.sum_map_add, List.map_id']
  rw [List.take_of_length_le hlength.le, checksum_perm (hperm.map _), List.map_map, checksum_eq,
    checksum_eq, ← UInt64.ofNat_add, ← sum_range, ← hsum]
  rfl

/-! ## Performances -/

namespace Workload

variable {w : Workload} {run : HammingRun} {query codes : Code}

/-- A run that is accepted comes to the checksum of what its scan writes. -/
theorem perform_of_fits (h : w.Does (.hamming run) (.codes query codes))
    (hfits : Scan.Fits run.distance query codes run.numCodes.toNat)
    (hcheck : Run.check (.hamming run) = .ok ()) (order : TaskOrder) :
    ∃ w', w.perform order = .ok (run.checksumOf (Scan.writtenAt run.distance query codes), w') ∧
      w'.Does (.hamming run) (.codes query codes) := by
  cases h with
  | @distances _ _ _ out parallelism hk hout =>
    have hsize : ((List.range run.numCodes.toNat).map
        (Scan.writtenAt run.distance query codes)).toArray.size = run.numCodes.toNat := by simp
    refine ⟨_, ?_, .distances parallelism hk hsize⟩
    rw [perform, hfits.run_distances_eq _ hout, HammingRun.checksumOf, hk]
    simp only [List.map_map]
    rfl
  | @nearest _ k _ _ parallelism hk =>
    obtain ⟨hbitwise, hfew⟩ := HammingRun.nearest_of_check hcheck hk
    refine ⟨_, ?_, .nearest parallelism hk⟩
    rw [hbitwise, perform, Scan.nearest_eq_ok hfits.toConsists hfew, HammingRun.checksumOf, hk]

end Workload

/-! ## Selections of whole rows -/

namespace Selection

/-- All columns that are selected from a row are all columns that there are. -/
theorem perm_index_reference {row bias : List Single} {n : ℕ} (hrow : row.length = n)
    (hbias : bias.length = n) (hn : n ≤ 2 ^ 32) :
    ((reference n row bias).map (·.index.toNat)).Perm (List.range n) := by
  have hlength : (biased row bias).length = n := by
    rw [length_biased, hrow, hbias, Nat.min_self]
  have hall : ((laneCandidates 0 row bias).map (·.index.toNat)) = List.range n := by
    rw [laneCandidates, map_index_candidatesFrom (by omega), hlength, List.range_eq_range']
  have hsorted : (Candidate.sort (laneCandidates 0 row bias)).length ≤ n := by
    rw [Candidate.sort, List.length_mergeSort, laneCandidates, length_candidatesFrom, hlength]
  rw [reference, List.take_of_length_le hsorted, ← hall]
  exact (List.mergeSort_perm _ _).map _

/-- So their numbers add up to the same in every row. -/
theorem sum_index_referenceTopK {m : Matrix Single} {bias : Array Single}
    (hbias : bias.size = m.ncols) (hcols : m.ncols ≤ 2 ^ 32) :
    ((referenceTopK m bias m.ncols).indices.toList.map (·.toNat)).sum =
      m.nrows * (m.ncols * (m.ncols - 1) / 2) := by
  have hrow : ∀ q ∈ List.range m.nrows,
      (((selectedFrom m bias m.ncols q).map (·.index)).map (·.toNat)).sum =
        m.ncols * (m.ncols - 1) / 2 := by
    intro q hq
    rw [List.map_map, ← sum_range]
    exact (perm_index_reference (Matrix.length_rowList (List.mem_range.1 hq)) hbias hcols).sum_eq
  rw [referenceTopK, List.map_flatMap, List.flatMap_def, List.sum_flatten, List.map_map]
  refine (congrArg List.sum (List.map_congr_left hrow)).trans ?_
  rw [List.map_const', List.sum_replicate_nat, List.length_range]

end Selection

/-- The half is one of the columns, of which one or the one before is even. -/
theorem mul_triangle (rows cols : ℕ) :
    rows * (cols * (cols - 1) / 2) = rows * cols * (cols - 1) / 2 := by
  have heven : 2 ∣ cols * (cols - 1) := (Nat.even_mul_pred_self cols).two_dvd
  rw [← Nat.mul_div_assoc _ heven, Nat.mul_assoc]

/-- A selection of all columns comes to their sum, as often as there are rows. -/
theorem Workload.perform_of_all_columns {w : Workload} {run : SelectRun} {data : RunData}
    (h : w.Does (.select run) data) (hdata : data.Suits (.select run)) (hk : run.k = run.cols)
    (hcols : run.cols.toNat ≤ 2 ^ 32) (order : TaskOrder) :
    ∃ w', w.perform order = .ok (UInt64.ofNat (run.rows.toNat * run.cols.toNat *
      (run.cols.toNat - 1) / 2), w') ∧ w'.Does (.select run) data := by
  have hcheck : Run.check (.select run) = .ok () := SelectRun.check_eq_ok_iff.2 (by rw [hk])
  obtain ⟨w', hperform, hdoes⟩ := w.perform_eq_ok h hdata hcheck trivial hcols order
  refine ⟨w', ?_, hdoes⟩
  cases hdata with
  | @operands _ m b hrows hncols hbias =>
    have hsum := Selection.sum_index_referenceTopK (hbias.trans hncols.symm) (hncols.trans_le hcols)
    rw [hncols, hrows, mul_triangle] at hsum
    rw [hperform, Run.checksumOn, hk, checksum_eq, hsum]

/-! ## Runs -/

namespace Run

variable {τ : Type} {machine : Machine (StateM τ)} {σ : Type} [RandomSource σ]

/-- The run is accepted, and its data and its latencies fit into memory. -/
structure Runnable (run : Run) : Prop where
  check_eq : run.check = .ok ()
  data : run.DataFits
  latencies : run.LatenciesFit

/-- At whatever time, the run has a result, of as many latencies as it asks for and of
    this checksum. -/
def Yields (machine : Machine (StateM τ)) (run : Run) (source : σ) (sum : UInt64) : Prop :=
  ∀ now, run.outcomeAt machine source now = .ok (run, run.numMeasurements.toNat, sum)

/-- Data that fits into memory can be counted. -/
theorem DataFits.extent_lt {run : Run} (h : run.DataFits) : run.extent < Size.limit := by
  cases run with
  | hamming run =>
    have hcodes := h.1
    rw [Size.FitsMemory, Size.memoryLimit] at hcodes
    rw [extent, Size.limit]
    omega
  | select run =>
    have hmatrix : run.rows.toNat * run.cols.toNat * 4 < Size.memoryLimit := h
    rw [Size.memoryLimit] at hmatrix
    rw [extent, Size.limit]
    omega

/-- A run yields what its workload comes to every time. -/
theorem yields_of_perform (hmachine : machine.Faithful) {run : Run} (hrun : run.Runnable)
    {source source' : σ} {w : Workload} (hprepare : run.prepare source = (.ok w, source'))
    {data : RunData} (hw : w.Does run data) {sum : UInt64}
    (hstep : ∀ w order, Workload.Does w run data →
      ∃ w', w.perform order = .ok (sum, w') ∧ w'.Does run data) :
    run.Yields machine source sum := by
  intro now
  rw [outcomeAt_eq hmachine, outcome, hrun.check_eq, hprepare]
  simp only [if_pos hrun.latencies]
  rw [Workload.performTimes_eq_ok hstep hw, if_neg run.numMeasurements.toNat_pos.ne']
  rfl

/-- A scan that is accepted fits its data. -/
theorem fits_of_runnable {run : HammingRun} (hrun : Runnable (.hamming run)) {source : σ}
    {query codes : Code} (hdata : HammingRun.dataFrom run.codeSize.toNat run.numCodes.toNat source =
      .codes query codes) :
    Scan.Fits run.distance query codes run.numCodes.toNat := by
  have hsuits := run.suits_dataFrom source
  rw [hdata] at hsuits
  obtain ⟨hquery, hconsists⟩ := hsuits.query_codes
  exact ⟨hconsists, hquery.symm ▸ HammingRun.whole_words_of_check hrun.check_eq⟩

/-- A scan yields the checksum of what it writes. -/
theorem yields_checksumOf (hmachine : machine.Faithful) {run : HammingRun}
    (hrun : Runnable (.hamming run)) {source : σ} {query codes : Code}
    (hdata : HammingRun.dataFrom run.codeSize.toNat run.numCodes.toNat source =
      .codes query codes) :
    Yields machine (.hamming run) source
      (run.checksumOf (Scan.writtenAt run.distance query codes)) := by
  have hfits := fits_of_runnable hrun hdata
  obtain ⟨w, source', hprepare, hw⟩ :=
    HammingRun.exists_prepare hrun.data.extent_lt hrun.data source
  rw [hdata] at hw
  exact yields_of_perform hmachine hrun hprepare hw fun w order hw =>
    w.perform_of_fits hw hfits hrun.check_eq order

end Run

namespace HammingRun

variable {σ : Type} [RandomSource σ]

theorem exists_dataFrom (run : HammingRun) (source : σ) : ∃ query codes,
    dataFrom run.codeSize.toNat run.numCodes.toNat source = .codes query codes :=
  ⟨_, _, rfl⟩

/-- The bits that differ fit in the 32 bits of a distance, for every code that is drawn, and
    all of them together in the 64 bits of a checksum. -/
def BitsFit (run : HammingRun) (source : σ) : Prop :=
  ∀ query codes, dataFrom run.codeSize.toNat run.numCodes.toNat source = .codes query codes →
    (∀ d ∈ Scan.differings .bitwise query codes run.numCodes.toNat, d < 2 ^ 32) ∧
      (Scan.differings .bitwise query codes run.numCodes.toNat).sum < 2 ^ 64

/-- This is so for all data if the codes have few enough bits. -/
theorem bitsFit_of_sizes {run : HammingRun} (hsize : 8 * run.codeSize.toNat < 2 ^ 32)
    (hall : 8 * run.codeSize.toNat * run.numCodes.toNat < 2 ^ 64) (source : σ) :
    run.BitsFit source := by
  intro query codes hdata
  have hquery : query.length = run.codeSize.toNat := by
    obtain ⟨rfl, -⟩ := RunData.codes.inj hdata
    exact RandomSource.length_bytes _ _
  have hbits : ∀ d ∈ Scan.differings .bitwise query codes run.numCodes.toNat,
      d ≤ 8 * run.codeSize.toNat := by
    intro d hd
    obtain ⟨i, -, rfl⟩ := List.mem_map.1 hd
    exact hquery ▸ Distance.bitwise.differing_le query _
  refine ⟨fun d hd => (hbits d hd).trans_lt hsize, ?_⟩
  have hsum := List.sum_le_card_nsmul _ _ hbits
  rw [Scan.differings, List.length_map, List.length_range, smul_eq_mul, Nat.mul_comm] at hsum
  exact hsum.trans_lt hall

end HammingRun

namespace Run

variable {τ : Type} {machine : Machine (StateM τ)} {σ : Type} [RandomSource σ]

/-- Scans of the same data for the same yield the same. -/
theorem exists_yields_both (hmachine : machine.Faithful) (source : σ) {run run' : HammingRun}
    (hrun : Runnable (.hamming run)) (hrun' : Runnable (.hamming run'))
    (hsize : run'.codeSize = run.codeSize) (hnum : run'.numCodes = run.numCodes)
    (hdistance : run'.distance = run.distance) (hk : run'.k = run.k) :
    ∃ sum, Yields machine (.hamming run) source sum ∧
      Yields machine (.hamming run') source sum := by
  obtain ⟨query, codes, hdata⟩ := HammingRun.exists_dataFrom run source
  refine ⟨_, yields_checksumOf hmachine hrun hdata, ?_⟩
  rw [← hsize, ← hnum] at hdata
  have hyields := yields_checksumOf hmachine hrun' hdata
  rwa [HammingRun.checksumOf, hk, hnum, hdistance] at hyields

/-- The nearest codes come to what the plain scan comes to and the sum of the positions. -/
theorem exists_yields_nearest (hmachine : machine.Faithful) (source : σ) {all nearest : HammingRun}
    (hrun : Runnable (.hamming all)) (hrun' : Runnable (.hamming nearest))
    (hsize : nearest.codeSize = all.codeSize) (hnum : nearest.numCodes = all.numCodes)
    (hdistance : nearest.distance = all.distance) (hall : all.k = none)
    (hk : nearest.k = some all.numCodes) :
    ∃ sum, Yields machine (.hamming all) source sum ∧ Yields machine (.hamming nearest) source
      (sum + UInt64.ofNat (all.numCodes.toNat * (all.numCodes.toNat - 1) / 2)) := by
  obtain ⟨query, codes, hdata⟩ := HammingRun.exists_dataFrom all source
  refine ⟨_, yields_checksumOf hmachine hrun hdata, ?_⟩
  rw [← HammingRun.checksumOf_all hnum hall hk, ← hdistance]
  rw [← hsize, ← hnum] at hdata
  exact yields_checksumOf hmachine hrun' hdata

/-- Byte by byte, a difference is of one to eight bits. -/
theorem exists_yields_bounded (hmachine : machine.Faithful) (source : σ) {bytes bits : HammingRun}
    (hbytes : Runnable (.hamming bytes)) (hbits : Runnable (.hamming bits))
    (hsize : bytes.codeSize = bits.codeSize) (hnum : bytes.numCodes = bits.numCodes)
    (hgeneralized : bytes.distance = .generalized) (hbitwise : bits.distance = .bitwise)
    (hall : bytes.k = none) (hall' : bits.k = none)
    (hfit : bits.BitsFit source) :
    ∃ sum sum', Yields machine (.hamming bytes) source sum ∧
      Yields machine (.hamming bits) source sum' ∧
      sum.toNat ≤ sum'.toNat ∧ sum'.toNat ≤ 8 * sum.toNat := by
  obtain ⟨query, codes, hdata⟩ := HammingRun.exists_dataFrom bits source
  have hdata' := hdata
  rw [← hsize, ← hnum] at hdata'
  have hfits := fits_of_runnable hbits hdata
  have hfits' := fits_of_runnable hbytes hdata'
  rw [hbitwise] at hfits
  rw [hgeneralized, hnum] at hfits'
  obtain ⟨hfew, hsum⟩ := hfit query codes hdata
  obtain ⟨hle, hge⟩ := Scan.sum_differings_bounds query codes bits.numCodes.toNat
  -- The bytes that differ are not more than the bits, so they fit as well.
  have hfew' : ∀ d ∈ Scan.differings .generalized query codes bits.numCodes.toNat, d < 2 ^ 32 := by
    intro d hd
    obtain ⟨i, hi, rfl⟩ := List.mem_map.1 hd
    exact (Distance.differing_bitwise_bounds query _).1.trans_lt
      (hfew _ (List.mem_map.2 ⟨i, hi, rfl⟩))
  refine ⟨_, _, yields_checksumOf hmachine hbytes hdata', yields_checksumOf hmachine hbits hdata,
    ?_⟩
  rw [HammingRun.checksumOf, HammingRun.checksumOf, hall, hall', hnum, hbitwise, hgeneralized]
  dsimp only
  rw [hfits.map_toNat_writtenAt hfew, hfits'.map_toNat_writtenAt hfew', toNat_checksum hsum,
    toNat_checksum (hle.trans_lt hsum)]
  exact ⟨hle, hge⟩

/-- Twenty codes of three words. -/
def twentyCodes (distance : Distance) (k : Option PosSize) (parallel : Bool) : HammingRun where
  codeSize := ⟨24, by decide⟩
  numCodes := ⟨20, by decide⟩
  distance := distance
  k := k
  parallel := parallel
  numMeasurements := ⟨13, by decide⟩

/-- All of fifteen columns, from fourteen rows. -/
def fifteenColumns : SelectRun where
  rows := ⟨14, by decide⟩
  cols := ⟨15, by decide⟩
  k := ⟨15, by decide⟩
  device := .standard
  numMeasurements := ⟨14, by decide⟩

end Run

/-! ## Beyond the limits -/

/-- A source of so many words without a bit, and of words with all bits from then on. -/
structure ZerosFirst where
  zeros : ℕ

namespace ZerosFirst

open RandomSource

/-- The first zeros are enough for a query of half a gigabyte. -/
instance : RandomSource ZerosFirst where
  seed _ := ⟨64 * 2 ^ 23⟩
  next
    | ⟨0⟩ => (0xFFFFFFFF, ⟨0⟩)
    | ⟨zeros + 1⟩ => (0, ⟨zeros⟩)
  normal source := (.zero, source)

theorem collect_zeros (n : ℕ) (drawn : Array UInt8) :
    collect byte n drawn (⟨n⟩ : ZerosFirst) =
      ((drawn.toList ++ List.replicate n 0).toArray, ⟨0⟩) := by
  induction n generalizing drawn with
  | zero => simp [collect]
  | succ n ih =>
    have hbyte : byte (⟨n + 1⟩ : ZerosFirst) = (0, ⟨n⟩) := rfl
    rw [collect, hbyte]
    exact (ih _).trans (by simp [List.replicate_succ])

theorem collect_ones (n : ℕ) (drawn : Array UInt8) :
    collect byte n drawn (⟨0⟩ : ZerosFirst) =
      ((drawn.toList ++ List.replicate n 0xFF).toArray, ⟨0⟩) := by
  induction n generalizing drawn with
  | zero => simp [collect]
  | succ n ih =>
    have hbyte : byte (⟨0⟩ : ZerosFirst) = (0xFF, ⟨0⟩) := rfl
    rw [collect, hbyte]
    exact (ih _).trans (by simp [List.replicate_succ])

/-- The query has no bit, and the code all. -/
theorem dataFrom_eq (codeSize : ℕ) :
    HammingRun.dataFrom codeSize 1 (⟨codeSize⟩ : ZerosFirst) =
      .codes (List.replicate codeSize 0) (List.replicate codeSize 0xFF) := by
  simp [HammingRun.dataFrom, bytes, collect_zeros, collect_ones]

end ZerosFirst

namespace Scan

theorem codeAt_zero_replicate (n : ℕ) (x : UInt8) :
    codeAt n (List.replicate n x) 0 = List.replicate n x := by
  rw [codeAt, Nat.zero_mul, List.drop_zero, List.take_of_length_le List.length_replicate.le]

/-- Of the bits that differ, what does not fit in a word is lost. -/
theorem writtenAt_bitwise {m : ℕ} (hm : 1 < m) (x y : UInt8) :
    writtenAt .bitwise (List.replicate (64 * m) x) (List.replicate (64 * m) y) 0 =
      UInt32.ofNat (64 * m * Distance.bitwise.ofByte x y) := by
  rw [writtenAt, Computer.chosen, List.length_replicate, Strategy.forBits_of_lt (by omega),
    Strategy.score, codeAt_zero_replicate, Strategy.scoreBits_replicate]

/-- There are fewer bytes that differ. -/
theorem toNat_writtenAt_generalized {m : ℕ} (hpos : 0 < m) (hm : 64 * m < 2 ^ 32) :
    (writtenAt .generalized (List.replicate (64 * m) 0) (List.replicate (64 * m) 0xFF)
      0).toNat = 64 * m := by
  have hfits : Fits .generalized (List.replicate (64 * m) 0) (List.replicate (64 * m) 0xFF) 1 :=
    ⟨⟨by simpa using hpos, by simp⟩, fun _ => by rw [List.length_replicate]; omega⟩
  have hall : Distance.generalized.differing (List.replicate (64 * m) 0)
      (codeAt (64 * m) (List.replicate (64 * m) 0xFF) 0) = 64 * m := by
    rw [codeAt_zero_replicate, Distance.differing_replicate]
    exact Nat.mul_one _
  have hwritten := hfits.toNat_writtenAt Nat.zero_lt_one
  rw [List.length_replicate, hall] at hwritten
  exact hwritten hm

end Scan

namespace Run

/-- One code of so many bytes. -/
def oneCode (codeSize : PosSize) (distance : Distance) : HammingRun where
  codeSize := codeSize
  numCodes := ⟨1, Nat.one_pos⟩
  distance := distance
  k := none
  parallel := false
  numMeasurements := ⟨1, Nat.one_pos⟩

/-- Both columns, from `2 ^ 63` rows. -/
def tallMatrix : SelectRun where
  rows := ⟨0x8000000000000000, by decide⟩
  cols := ⟨2, Nat.two_pos⟩
  k := ⟨2, Nat.two_pos⟩
  device := .standard
  numMeasurements := ⟨1, Nat.one_pos⟩

/-- What one code comes to that differs from the query in all bits. -/
theorem yields_oneCode (codeSize : PosSize) {d : Distance}
    (hrun : Runnable (.hamming (oneCode codeSize d))) (hsize : codeSize.toNat = 64 * 2 ^ 23) :
    Yields tickingMachine (.hamming (oneCode codeSize d)) (RandomSource.seed 0 : ZerosFirst)
      (checksum [(Scan.writtenAt d (List.replicate (64 * 2 ^ 23) 0)
        (List.replicate (64 * 2 ^ 23) 0xFF) 0).toNat]) := by
  have hseed : (RandomSource.seed 0 : ZerosFirst) = ⟨codeSize.toNat⟩ := by
    rw [hsize]
    rfl
  have hdata := ZerosFirst.dataFrom_eq codeSize.toNat
  rw [← hseed, hsize] at hdata
  exact yields_checksumOf (fun _ _ => rfl) hrun (by rw [← hdata, ← hsize]; rfl)

end Run

end NeighborSearch
