import NeighborSearch.Proofs.Addition
import NeighborSearch.Proofs.Selection.Safety
import NeighborSearch.Proofs.Value

/-!
# Patterns that stand for the same

A selection takes candidates of sums, and a candidate takes the canonical form of its sum. So
nothing is left in an answer of how the matrix and the bias write zeros and what is not a number,
nor of the pattern that an addition has for what is not a number.

To say the latter, a selection is run with any `Addition` in the place of the standard one
(`Selection.fusedTopKWith`). Only the staging memory of the lanes can tell which addition is
used, and it holds sums that stand for the same (`SameValues`), so all additions come to the
same answers (`Selection.fusedTopKWith_eq`).
-/

namespace NeighborSearch

/-! ## Singles that stand for the same -/

/-- Of canonical patterns no zero is negative, and one stands for all that is not a number. -/
theorem Single.IsCanonical.pattern {x : Single} (hx : x.IsCanonical) :
    x ≠ ⟨0x80000000⟩ ∧ (x.isNaN → x = ⟨0x7fc00000⟩) := by
  constructor
  · rintro rfl
    revert hx
    decide
  · intro hnan
    rw [← hx, canonicalize, if_pos hnan]
    rfl

/-- The singles of both buffers have the same canonical forms, one by one. -/
def SameValues (xs ys : Array Single) : Prop :=
  xs.toList.map Single.canonicalize = ys.toList.map Single.canonicalize

instance (xs ys : Array Single) : Decidable (SameValues xs ys) :=
  inferInstanceAs (Decidable (_ = _))

namespace SameValues

variable {xs ys : Array Single} {start : ℕ} {new new' : List Single}

theorem size_eq (h : SameValues xs ys) : xs.size = ys.size := by
  simpa using congrArg List.length h

theorem extract (h : SameValues xs ys) (start stop : ℕ) :
    SameValues (xs.extract start stop) (ys.extract start stop) := by
  rw [SameValues, Array.toList_extract, Array.toList_extract, List.extract_eq_take_drop,
    List.extract_eq_take_drop, List.map_take, List.map_take, List.map_drop, List.map_drop, h]

theorem overwrite (h : SameValues xs ys)
    (hnew : new.map Single.canonicalize = new'.map Single.canonicalize) :
    SameValues (Buffer.overwrite xs start new) (Buffer.overwrite ys start new') := by
  induction new generalizing new' xs ys start with
  | nil =>
    obtain rfl := List.map_eq_nil_iff.1 hnew.symm
    exact h
  | cons x new ih =>
    obtain ⟨y, new', rfl, hxy, hnew⟩ := List.map_eq_cons_iff.1 hnew.symm
    refine ih ?_ hnew.symm
    rw [SameValues, Array.toList_setIfInBounds, Array.toList_setIfInBounds, List.map_set,
      List.map_set, h, hxy]

theorem matches_write (h : SameValues xs ys)
    (hnew : new.map Single.canonicalize = new'.map Single.canonicalize) :
    Matches SameValues (Buffer.write xs start new) (Buffer.write ys start new') := by
  have hlen : new.length = new'.length := by simpa using congrArg List.length hnew
  exact .ite (by rw [h.size_eq, hlen]) (h.overwrite hnew)

theorem matches_slice (h : SameValues xs ys) (start stop : ℕ) :
    Matches SameValues (Buffer.slice xs start stop) (Buffer.slice ys start stop) :=
  .ite (by rw [h.size_eq]) (h.extract start stop)

theorem matches_piece (h : SameValues xs ys) (n i : ℕ) :
    Matches SameValues (Buffer.piece n i xs) (Buffer.piece n i ys) :=
  .ite (by rw [h.size_eq]) (h.extract _ _)

end SameValues

/-- A candidate takes the canonical form only. -/
theorem candidatesFrom_map_canonicalize (column : ℕ) (sums : List Single) :
    candidatesFrom column (sums.map Single.canonicalize) = candidatesFrom column sums := by
  rw [candidatesFrom, candidatesFrom, List.zipIdx_map, List.map_map]
  refine List.map_congr_left fun p _ => ?_
  simp [Candidate.of]

theorem candidatesFrom_congr (column : ℕ) {sums sums' : List Single}
    (h : sums.map Single.canonicalize = sums'.map Single.canonicalize) :
    candidatesFrom column sums = candidatesFrom column sums' := by
  rw [← candidatesFrom_map_canonicalize, h, candidatesFrom_map_canonicalize]

/-- Sums of singles that stand for the same stand for the same. -/
theorem map_canonicalize_biased (values bias : List Single) :
    (biased (values.map Single.canonicalize) (bias.map Single.canonicalize)).map
      Single.canonicalize = (biased values bias).map Single.canonicalize := by
  rw [biased, biased, List.map_zipWith, List.map_zipWith, List.zipWith_map]
  simp only [Single.canonicalize_add]

/-! ## Selections with any addition -/

/-- Memory that holds the same, apart from the patterns of staged sums. -/
structure Scratch.Same (s t : Scratch) : Prop where
  staging : SameValues s.staging t.staging
  front : s.front = t.front
  back : s.back = t.back

namespace Lane

variable {n : ℕ}

/-- The operations on row `q` with some addition. -/
def Operations.ofAddition (plus : Addition) (q : ℕ) : Operations (Except Fault) :=
  adding (plus.sum q)

/-- Lanes in the same state, apart from the patterns of staged sums. -/
structure State.Same (s t : State n) : Prop where
  heap : s.heap = t.heap
  staging : SameValues s.staging t.staging
  column : s.column = t.column

variable (plus : Addition) (q : ℕ)

theorem map_canonicalize_sums (column : ℕ) (values bias : List Single) :
    ((Operations.ofAddition plus q).sums column values bias).map Single.canonicalize =
      (Operations.standard.sums column values bias).map Single.canonicalize := by
  rw [Operations.sums, Operations.sums, List.map_zipWith, List.map_zipWith]
  simp only [Operations.ofAddition, Operations.adding, Addition.canonicalize_sum]
  rfl

theorem matches_takeTile (lane : ℕ) {s t : State n} (h : s.Same t) (values bias : List Single) :
    Matches State.Same ((Operations.ofAddition plus q).takeTile lane s values bias)
      (Operations.standard.takeTile lane t values bias) := by
  obtain ⟨heap, staging, column⟩ := s
  obtain ⟨heap', staging', column'⟩ := t
  obtain ⟨rfl, hstaging, rfl⟩ := h
  rw [Operations.takeTile, Operations.takeTile]
  refine (hstaging.matches_write (map_canonicalize_sums plus q _ values bias)).bind
    fun written written' hwritten => ?_
  refine (hwritten.matches_slice 0 values.length).bind fun sums sums' hsums => ?_
  rw [candidatesFrom_congr column hsums]
  exact .bind_left _ fun heap => .ok ⟨rfl, hwritten, rfl⟩

theorem matches_takeTiles (lane : ℕ) {s t : State n} (h : s.Same t)
    (tiles : List (List Single × List Single)) :
    Matches State.Same ((Operations.ofAddition plus q).takeTiles lane s tiles)
      (Operations.standard.takeTiles lane t tiles) := by
  induction tiles generalizing s t with
  | nil => exact .ok h
  | cons p tiles ih => exact (matches_takeTile plus q lane h p.1 p.2).bind fun _ _ => ih

theorem matches_run (g : Geometry) (row bias : Array Single) (i : ℕ) {s t : Scratch}
    (h : s.Same t) : Matches Scratch.Same ((Operations.ofAddition plus q).run g row bias i s)
      (run g row bias i t) := by
  obtain ⟨staging, front, back⟩ := s
  obtain ⟨staging', front', back'⟩ := t
  obtain ⟨hstaging, rfl, rfl⟩ := h
  rw [run, Operations.run, Operations.run]
  refine .bind_left _ fun values => .bind_left _ fun laneBias => .bind_left _ fun storage => ?_
  refine (hstaging.matches_piece g.tile i).bind fun staged staged' hstaged => ?_
  refine .bind_left _ fun column => ?_
  have hstart : State.Same ⟨.empty storage.toVector, staged, column⟩
      ⟨.empty storage.toVector, staged', column⟩ := ⟨rfl, hstaged, rfl⟩
  refine (matches_takeTiles plus q i hstart _).bind fun done done' hdone => ?_
  rw [hdone.heap]
  refine .bind_left _ fun slots => .bind_left _ fun lengths => ?_
  refine (hstaging.matches_write hdone.staging).bind fun written written' hwritten => ?_
  exact .ok ⟨hwritten, rfl, rfl⟩

theorem matches_runAll (g : Geometry) (row bias : Array Single) (order : List ℕ) {s t : Scratch}
    (h : s.Same t) :
    Matches Scratch.Same ((Operations.ofAddition plus q).runAll g row bias order s)
      (runAll g row bias order t) := by
  rw [runAll, Operations.runAll, Operations.runAll, h.front]
  refine .bind_left _ fun front => ?_
  exact .foldlM (fun _ _ i hst => matches_run plus q g row bias i hst) order
    ⟨h.staging, rfl, h.back⟩

end Lane

namespace Selection

/-- All memory can be had, and singles are added by some addition. -/
def Platform.ofAddition (plus : Addition) : Platform := { standard with add := plus.sum }

/-- Select from every row of the matrix, as `fusedTopKUnder` does, but with any addition. -/
def fusedTopKWith (plus : Addition) (schedule : Schedule) (m : Matrix Single)
    (bias : Array Single) (k : ℕ) (config : LaunchConfig) : Except SelectError TopK :=
  (Platform.ofAddition plus).fusedTopK schedule m bias k config

theorem matches_orFail {α β : Type} {R : α → β → Prop} {x : Except Fault α} {y : Except Fault β}
    (h : Matches R x y) : Matches R (orFail x) (orFail y) := by
  cases h with
  | ok h => exact .ok h
  | error fault => exact .error _

variable (plus : Addition) (schedule : Schedule)

theorem matches_selectRow (g : Geometry) (k : ℕ) (bias : Array Single) (q : ℕ)
    (row : Array Single) {s t : Scratch} (h : s.Same t) :
    Matches (fun a b => a.1 = b.1 ∧ a.2.Same b.2)
      ((Platform.ofAddition plus).selectRow schedule g k bias q row s)
      (selectRow schedule g k bias q row t) := by
  rw [selectRow_def, Platform.selectRow]
  refine (matches_orFail (Lane.matches_runAll plus q g row bias _ h)).bind ?_
  rintro ⟨staging, front, back⟩ ⟨staging', front', back'⟩ ⟨hstaging, rfl, rfl⟩
  refine .bind_left _ ?_
  rintro ⟨last, front', back'⟩
  exact .bind_left _ fun candidates => .ok ⟨rfl, hstaging, rfl, rfl⟩

theorem selectRows_ofAddition (g : Geometry) (k : ℕ) (bias : Array Single) (q : ℕ)
    (rows : List (List Single)) {s t : Scratch} (h : s.Same t) :
    (Platform.ofAddition plus).selectRows schedule g k bias q rows s =
      selectRows schedule g k bias q rows t := by
  induction rows generalizing q s t with
  | nil => rfl
  | cons row rows ih =>
    rw [selectRows_cons, Platform.selectRows]
    refine Matches.eq ((matches_selectRow plus schedule g k bias q row.toArray h).bind ?_)
    rintro ⟨candidates, s⟩ ⟨candidates', t⟩ ⟨rfl, hst⟩
    simp only [ih (q + 1) hst]
    exact .bind_left _ fun others => .ok rfl

theorem runGroup_ofAddition :
    (Platform.ofAddition plus).runGroup schedule = runGroup schedule := by
  funext g m k bias rowsPerGroup i ⟨distances, indices⟩
  have hrows : ∀ q rows s, (Platform.ofAddition plus).selectRows schedule g k bias q rows s =
      selectRows schedule g k bias q rows s :=
    fun q rows s => selectRows_ofAddition plus schedule g k bias q rows ⟨rfl, rfl, rfl⟩
  rw [runGroup_def, Platform.runGroup]
  simp only [hrows]
  rfl

/-- All additions come to the same. -/
theorem fusedTopKWith_eq (m : Matrix Single) (bias : Array Single) (k : ℕ)
    (config : LaunchConfig) : fusedTopKWith plus schedule m bias k config =
      fusedTopKUnder schedule m bias k config := by
  rw [fusedTopKWith, Platform.fusedTopK, runGroup_ofAddition]
  rfl

/-! ## Matrices that stand for the same -/

variable {m m' : Matrix Single} {bias bias' : Array Single} {k q : ℕ}

theorem selectedFrom_congr (hncols : m.ncols = m'.ncols)
    (hentries : SameValues m.entries m'.entries) (hbias : SameValues bias bias') (k q : ℕ) :
    selectedFrom m bias k q = selectedFrom m' bias' k q := by
  have hrow : (m.rowList q).map Single.canonicalize = (m'.rowList q).map Single.canonicalize := by
    rw [Matrix.rowList, Matrix.rowList, List.map_take, List.map_take, List.map_drop, List.map_drop,
      hentries, hncols]
  have hsums : (biased (m.rowList q) bias.toList).map Single.canonicalize =
      (biased (m'.rowList q) bias'.toList).map Single.canonicalize := by
    rw [← map_canonicalize_biased, hrow, hbias, map_canonicalize_biased]
  rw [selectedFrom, reference, laneCandidates, candidatesFrom_congr 0 hsums]
  rfl

theorem fusedTopKUnder_congr (hnrows : m.nrows = m'.nrows) (hncols : m.ncols = m'.ncols)
    (hentries : SameValues m.entries m'.entries) (hbias : SameValues bias bias')
    (schedule schedule' : Schedule) (k : ℕ) (config config' : LaunchConfig) :
    fusedTopKUnder schedule m bias k config = fusedTopKUnder schedule' m' bias' k config' := by
  rw [fusedTopKUnder_eq, fusedTopKUnder_eq, referenceTopK, referenceTopK]
  simp only [selectedFrom_congr hncols hentries hbias, hnrows, hncols, hbias.size_eq]

/-- Distances are canonical. -/
theorem isCanonical_of_mem_referenceTopK {d : Single}
    (h : d ∈ (referenceTopK m bias k).distances) : d.IsCanonical := by
  simp only [referenceTopK, List.mem_toArray, List.mem_flatMap, List.mem_map] at h
  obtain ⟨q, -, c, -, rfl⟩ := h
  exact c.canonical

/-- A sum that is not a number is selected after all others. -/
theorem mem_selectedFrom_of_isNaN {row : Array Single} (hrow : row.toList = m.rowList q)
    (hsize : row.size = m.ncols) (hbias : bias.size = m.ncols) {c c' : ℕ} (hc' : c' < m.ncols)
    (hnan : (row.getD c .zero + bias.getD c .zero).isNaN)
    (hnumber : ¬(row.getD c' .zero + bias.getD c' .zero).isNaN)
    (hmem : candidateAt row bias c ∈ selectedFrom m bias k q) :
    candidateAt row bias c' ∈ selectedFrom m bias k q := by
  rw [selectedFrom, reference, ← hrow, laneCandidates_eq_map_range hsize hbias,
    Candidate.sort_take] at hmem ⊢
  refine mem_smallest_of_lt hmem (List.mem_map_of_mem (List.mem_range.2 hc')) ?_
  exact Candidate.lt_iff.2 (.inl (Single.totalKey_canonicalize_lt_of_isNaN hnumber hnan))

/-- The selected columns are those of the selected candidates. -/
theorem candidateAt_mem_selectedFrom {row : Array Single} (hrow : row.toList = m.rowList q)
    (hsize : row.size = m.ncols) (hbias : bias.size = m.ncols) (hcols : m.ncols ≤ 2 ^ 32) {c : ℕ}
    (hc : c < m.ncols) (hmem : UInt32.ofNat c ∈ (selectedFrom m bias k q).map (·.index)) :
    candidateAt row bias c ∈ selectedFrom m bias k q := by
  obtain ⟨candidate, hselected, hindex⟩ := List.mem_map.1 hmem
  have hcolumn := hselected
  rw [selectedFrom, reference, ← hrow, laneCandidates_eq_map_range hsize hbias] at hcolumn
  obtain ⟨i, hi, rfl⟩ := exists_of_mem_take_sort hcolumn
  have hnum := congrArg UInt32.toNat hindex
  simp only [candidateAt, Candidate.of, UInt32.toNat_ofNat'] at hnum
  obtain rfl : i = c := by omega
  exact hselected

/-- How zeros and what is not a number are written in the matrix and the bias does not show in the
    answer, and neither does the pattern that an addition has for what is not a number: the
    answers agree bit for bit. No distance is a negative zero, one pattern stands for all that is
    not a number, and a column that adds up to none is selected after those that do. -/
theorem fusedTopKWith_of_sameValues (m m' : Matrix Single) (bias bias' : Array Single) (k : ℕ)
    (hnrows : m.nrows = m'.nrows) (hncols : m.ncols = m'.ncols)
    (hentries : SameValues m.entries m'.entries) (hbias : SameValues bias bias') :
    (∀ config, fusedTopK m bias k config = fusedTopK m' bias' k config) ∧
    (∀ plus plus' schedule schedule' config config',
      fusedTopKWith plus schedule m bias k config =
        fusedTopKWith plus' schedule' m' bias' k config') ∧
    (1 ≤ k → k ≤ m.ncols → m.ncols ≤ 2 ^ 32 → bias.size = m.ncols →
      ∃ t : TopK, (∀ schedule config, fusedTopKUnder schedule m bias k config = .ok t) ∧
      (∀ plus schedule config, fusedTopKWith plus schedule m bias k config = .ok t) ∧
      (∀ d ∈ t.distances, d ≠ ⟨0x80000000⟩ ∧ (d.isNaN → d = ⟨0x7fc00000⟩)) ∧
      ∀ q < m.nrows, ∃ row distances indices,
        m.row? q = some row ∧ row.size = m.ncols ∧ t.row? q = some (distances, indices) ∧
        ∀ (plus : Addition), ∀ c < m.ncols, UInt32.ofNat c ∈ indices →
          (plus.sum q c (row.getD c .zero) (bias.getD c .zero)).isNaN →
          ∀ c' < m.ncols, ¬(plus.sum q c' (row.getD c' .zero) (bias.getD c' .zero)).isNaN →
            UInt32.ofNat c' ∈ indices) := by
  refine ⟨?_, ?_, ?_⟩
  · intro config
    exact fusedTopKUnder_congr hnrows hncols hentries hbias _ _ k config config
  · intro plus plus' schedule schedule' config config'
    rw [fusedTopKWith_eq, fusedTopKWith_eq]
    exact fusedTopKUnder_congr hnrows hncols hentries hbias schedule schedule' k config config'
  · intro hk hkn hcols hsize
    have hanswer : ∀ schedule config,
        fusedTopKUnder schedule m bias k config = .ok (referenceTopK m bias k) :=
      fun schedule config => fusedTopKUnder_eq_reference schedule config hk hkn hcols hsize
    refine ⟨referenceTopK m bias k, hanswer, ?_,
      fun d hd => (isCanonical_of_mem_referenceTopK hd).pattern, ?_⟩
    · intro plus schedule config
      rw [fusedTopKWith_eq, hanswer]
    · intro q hq
      obtain ⟨row, hrow, hlist⟩ := m.exists_row?_eq_some hq
      have hrowSize : row.size = m.ncols := by
        rw [← Array.length_toList, hlist, Matrix.length_rowList hq]
      refine ⟨row, _, _, hrow, hrowSize, row?_referenceTopK hkn hsize hq, ?_⟩
      intro plus c hc hmem hnan c' hc' hnumber
      rw [Addition.isNaN_sum] at hnan hnumber
      rw [List.mem_toArray] at hmem ⊢
      have hselected := candidateAt_mem_selectedFrom hlist hrowSize hsize hcols hc hmem
      exact List.mem_map_of_mem (mem_selectedFrom_of_isNaN hlist hrowSize hsize hc' hnan hnumber
        hselected)

/-- The rows of `twoRows`, with zero and what is not a number written otherwise. -/
def twoRowsRewritten : Matrix Single where
  entries := #[⟨0x40400000⟩, ⟨0x3f800000⟩, ⟨0x40000000⟩, ⟨0x3f800000⟩, ⟨0xff812345⟩, .zero]
  nrows := 2
  ncols := 3
  shape := by decide

theorem fusedTopKWith_twoRows :
    (SameValues twoRows.entries twoRowsRewritten.entries ∧
      SameValues #[⟨0x80000000⟩, .zero, .zero] #[.zero, .zero, ⟨0x80000000⟩]) ∧
    ∃ t : TopK, fusedTopK twoRows #[⟨0x80000000⟩, .zero, .zero] 3 .standard = .ok t ∧
      fusedTopKWith .leftward .inOrder twoRowsRewritten #[.zero, .zero, ⟨0x80000000⟩] 3 .standard =
        .ok t ∧ ∀ d ∈ t.distances, d ≠ ⟨0x80000000⟩ := by
  have hsame : SameValues twoRows.entries twoRowsRewritten.entries ∧
      SameValues #[⟨0x80000000⟩, .zero, .zero] #[.zero, .zero, ⟨0x80000000⟩] := by decide
  obtain ⟨-, hall, hanswer⟩ :=
    fusedTopKWith_of_sameValues twoRows twoRowsRewritten _ _ 3 rfl rfl hsame.1 hsame.2
  obtain ⟨t, ht, ht', hpatterns, -⟩ := hanswer (by decide) (by decide) (by decide) rfl
  refine ⟨hsame, t, ht .inOrder .standard, ?_, fun d hd => (hpatterns d hd).1⟩
  rw [← hall .standard .leftward .inOrder .inOrder .standard .standard]
  exact ht' .standard .inOrder .standard

end Selection

end NeighborSearch
