import NeighborSearch.Proofs.Selection.Schedule

/-!
# Selections fail on their arguments only

Every size that a selection forms is checked, and so is every piece of memory that it reads
or writes and every room that it asks for; a check that fails is a fault and makes the
selection fail. With arguments that are not refused there is no fault, whatever the geometry
and the schedule and however many rows have been worked on in the same memory
(`fusedTopKUnder_faultless`).
-/

namespace NeighborSearch

/-! ## Merges -/

theorem length_mergeUpTo_le (room : ℕ) (a b : List Candidate) :
    (mergeUpTo room a b).length ≤ room := by
  fun_induction mergeUpTo room a b with
  | case1 => exact Nat.le_refl _
  | case2 => exact Nat.zero_le _
  | case3 room x a ih => exact Nat.succ_le_succ ih
  | case4 room y b ih => exact Nat.succ_le_succ ih
  | case5 room x a y b _ ih => exact Nat.succ_le_succ ih
  | case6 room x a y b _ ih => exact Nat.succ_le_succ ih

/-- A merge never writes beyond what it is given to write to. -/
theorem length_mergeInto (a b out : List Candidate) :
    (mergeInto a b out).1.length = out.length ∧ (mergeInto a b out).2 ≤ out.length := by
  have hle := length_mergeUpTo_le out.length a b
  refine ⟨?_, hle⟩
  rw [mergeInto, List.length_append, List.length_drop]
  omega

namespace Merge

variable {k runs depth span d : ℕ} {order : ℕ → TaskOrder} {src dst : RunBuffer}

/-- The number of runs that are left of `runs` after so many levels. -/
def runsAfter (runs : ℕ) : (depth : ℕ) → ℕ
  | 0 => runs
  | depth + 1 => runsAfter (ceilDiv runs 2) depth

theorem lt_runsAfter_iff {i : ℕ} : i < runsAfter runs depth ↔ 2 ^ depth * i < runs := by
  induction depth generalizing runs with
  | zero => rw [runsAfter, Nat.pow_zero, Nat.one_mul]
  | succ depth ih => rw [runsAfter, ih, lt_ceilDiv_iff (by decide), ← Nat.mul_assoc, Nat.pow_succ']

theorem runsAfter_le (runs depth : ℕ) : runsAfter runs depth ≤ runs := by
  induction depth generalizing runs with
  | zero => exact Nat.le_refl _
  | succ depth ih => exact (ih _).trans (ceilDiv_le_self (by decide) _)

/-- When the levels have come to their end, there has been one for every number of runs
    other than one. -/
theorem exists_level_of_levels {last : RunBuffer × RunBuffer × RunBuffer}
    (h : levels k order runs depth span src dst = .ok last) (hmany : 1 < runsAfter runs d) :
    ∃ source target left,
      level k (span * 2 ^ d) (runsAfter runs d) (order (depth + d)) source target = .ok left := by
  induction d generalizing runs depth span src dst last with
  | zero =>
    rw [runsAfter] at hmany
    rw [levels, dif_pos hmany, bind_eq_ok_iff] at h
    obtain ⟨t, ht, -⟩ := h
    rw [Nat.pow_zero, Nat.mul_one]
    exact ⟨src, dst, t, ht⟩
  | succ d ih =>
    rw [runsAfter] at hmany
    have hhalf := hmany.trans_le (runsAfter_le _ d)
    rw [levels, dif_pos (hhalf.trans_le (ceilDiv_le_self (by decide) _))] at h
    simp only [bind_eq_ok_iff] at h
    obtain ⟨t, -, width, hwidth, rest, hrest, -⟩ := h
    obtain ⟨-, rfl⟩ := Buffer.mul_eq_ok_iff.1 hwidth
    have hdepth : depth + (d + 1) = depth + 1 + d := by omega
    rw [Nat.pow_succ', ← Nat.mul_assoc, hdepth]
    exact ih hrest hmany

end Merge

namespace Selection

variable {g : Geometry} {ncols k : ℕ}

/-! ## One row -/

/-- What is done with a row, part by part, in any memory that fits. -/
theorem exists_parts_of_row (schedule : Schedule) (hg : g.Fits ncols k) (hkn : k ≤ ncols)
    (hncols : 4 * ncols < Size.limit) {row bias : Array Single} (hrow : row.size = ncols)
    (hbias : bias.size = ncols) (q : ℕ) {s : Scratch} (hs : s.Fits g) :
    ∃ t : Scratch, Lane.runAll g row bias ((schedule.lanes q).tasks g.lanes) s = .ok t ∧
      ∃ last front back, Merge.levels k (schedule.merges q) g.lanes 0 g.capacity t.front t.back =
          .ok (last, front, back) ∧
        Merge.selected k last = .ok (reference k row.toList bias.toList) ∧
        Scratch.Fits ⟨t.staging, front, back⟩ g := by
  obtain ⟨u, hselect, hu⟩ := selectRow_eq_ok schedule hg hkn hncols hrow hbias q hs
  simp only [selectRow_def, bind_eq_ok_iff, orFail_eq_ok_iff] at hselect
  obtain ⟨t, hlanes, ⟨last, front, back⟩, hlevels, candidates, hselected, heq⟩ := hselect
  obtain ⟨rfl, rfl⟩ := Prod.mk.inj (Except.ok.inj heq)
  exact ⟨t, hlanes, last, front, back, hlevels, hselected, hu⟩

/-- The candidates that are made of some columns have the numbers of these columns. -/
theorem map_index_candidatesFrom {column : ℕ} {sums : List Single}
    (h : column + sums.length ≤ 2 ^ 32) :
    (candidatesFrom column sums).map (·.index.toNat) = List.range' column sums.length := by
  rw [candidatesFrom, List.map_map]
  apply List.ext_getElem
  · rw [List.length_map, List.length_zipIdx, List.length_range']
  · intro i hi hi'
    rw [List.length_range'] at hi'
    simp only [List.getElem_map, List.getElem_zipIdx, List.getElem_range', Function.comp_apply,
      Candidate.of, UInt32.toNat_ofNat', Nat.zero_add, Nat.one_mul]
    exact Nat.mod_eq_of_lt (by omega)

/-! ## Whole selections -/

/-- A selection is refused for the first of four reasons, or has a result. -/
theorem fusedTopKUnder_eq (schedule : Schedule) (m : Matrix Single) (bias : Array Single) (k : ℕ)
    (config : LaunchConfig) :
    fusedTopKUnder schedule m bias k config =
      if k = 0 then .error (.invalidArgument .zeroCount)
      else if m.ncols < k then .error (.invalidArgument (.countExceeds k m.ncols))
      else if bias.size ≠ m.ncols then
        .error (.invalidArgument (.biasLength bias.size m.ncols))
      else if 2 ^ 32 < m.ncols then .error (.invalidArgument (.tooManyCandidates m.ncols))
      else .ok (referenceTopK m bias k) := by
  have hrefused : ∀ e, checkArguments m.ncols bias.size k = .error e →
      fusedTopKUnder schedule m bias k config = .error e :=
    fun e => fusedTopKUnder_eq_error schedule config
  split
  case isTrue hk => exact hrefused _ (by rw [checkArguments, if_pos hk])
  case isFalse hk =>
    split
    case isTrue hkn => exact hrefused _ (by rw [checkArguments, if_neg hk, if_pos hkn])
    case isFalse hkn =>
      split
      case isTrue hbias =>
        exact hrefused _ (by rw [checkArguments, if_neg hk, if_neg hkn, if_pos hbias])
      case isFalse hbias =>
        split
        case isTrue hcols =>
          refine hrefused _ ?_
          rw [checkArguments, if_neg hk, if_neg hkn, if_neg hbias, if_pos (by omega)]
        case isFalse hcols =>
          exact fusedTopKUnder_eq_reference schedule config (Nat.pos_of_ne_zero hk)
            (not_lt.1 hkn) (not_lt.1 hcols) (not_not.1 hbias)

/-- No check fails on rows that are cut up by `g` and worked on in groups of `n`. -/
structure Faultless (schedule : Schedule) (m : Matrix Single) (bias : Array Single) (k : ℕ)
    (g : Geometry) (n : ℕ) : Prop where
  /-- The extents of the output and of the groups are sizes. -/
  output : Size.mul? m.nrows k = some (m.nrows * k)
  entries : Buffer.mul n m.ncols = .ok (n * m.ncols)
  results : Buffer.mul n k = .ok (n * k)
  /-- The extents of the working memory are sizes. -/
  slots : Buffer.mul g.lanes g.capacity = .ok (g.lanes * g.capacity)
  staging : Buffer.mul g.lanes g.tile = .ok (g.lanes * g.tile)
  /-- So are the first columns of the lanes. -/
  column : ∀ lane < g.lanes, Buffer.mul lane g.laneLen = .ok (lane * g.laneLen)
  /-- So are the distances of the runs on all levels that have runs to merge. -/
  width : ∀ depth, 1 < Merge.runsAfter g.lanes depth →
    Buffer.mul 2 (g.capacity * 2 ^ depth) = .ok (2 * (g.capacity * 2 ^ depth))
  /-- Both buffers have room for the runs that any level leaves. -/
  room : ∀ depth, Merge.runsAfter g.lanes (depth + 1) ≤ ceilDiv g.lanes 2
  room_le : ceilDiv g.lanes 2 ≤ g.lanes
  /-- Working memory that fits can be set aside. -/
  allocate : ∃ s, Scratch.allocate g = .ok s ∧ s.Fits g
  /-- In all memory that fits, a row passes through its lanes and through all levels, which
      leave as many candidates as asked for, and the memory fits again. -/
  row : ∀ s : Scratch, s.Fits g → ∀ q row, row.size = m.ncols →
    ∃ t : Scratch, Lane.runAll g row bias ((schedule.lanes q).tasks g.lanes) s = .ok t ∧
      ∃ last front back,
        Merge.levels k (schedule.merges q) g.lanes 0 g.capacity t.front t.back =
          .ok (last, front, back) ∧
        (∀ depth, 1 < Merge.runsAfter g.lanes depth → ∃ source target left,
          Merge.level k (g.capacity * 2 ^ depth) (Merge.runsAfter g.lanes depth)
            (schedule.merges q (0 + depth)) source target = .ok left) ∧
        Merge.selected k last = .ok (reference k row.toList bias.toList) ∧
        Scratch.Fits ⟨t.staging, front, back⟩ g
  /-- So does any number of rows, one after the other. -/
  rows : ∀ s : Scratch, s.Fits g → ∀ q rows, (∀ row ∈ rows, row.length = m.ncols) →
    selectRows schedule g k bias q rows s =
      .ok (rows.flatMap fun row => reference k row bias.toList)
  /-- A merge stays within what it is given. -/
  merged : ∀ a b out, (mergeInto a b out).1.length = out.length ∧
    (mergeInto a b out).2 ≤ out.length
  /-- The columns of a row keep their numbers. -/
  index : ∀ column sums, column + sums.length ≤ m.ncols →
    (candidatesFrom column sums).map (·.index.toNat) = List.range' column sums.length

theorem faultless (schedule : Schedule) {m : Matrix Single} {bias : Array Single}
    (config : LaunchConfig) (hk : 0 < k) (hkn : k ≤ m.ncols) (hbias : bias.size = m.ncols)
    (hcols : m.ncols ≤ 2 ^ 32) {n : ℕ} (hn : n ≤ m.nrows) :
    Faultless schedule m bias k (.fit m.ncols k config) n := by
  have hfits := Geometry.fits_fit config hk hkn
  have hlimit : 4 * m.ncols < Size.limit := by
    rw [Size.limit]
    omega
  have hsize := m.size_lt_limit
  have hslots := hfits.slots_le
  have hstaging := hfits.staging_le
  exact {
    output := Size.mul?_eq_some_iff.2 ⟨(Nat.mul_le_mul_left _ hkn).trans_lt hsize, rfl⟩
    entries := Buffer.mul_eq_ok ((Nat.mul_le_mul_right _ hn).trans_lt hsize)
    results := Buffer.mul_eq_ok ((Nat.mul_le_mul hn hkn).trans_lt hsize)
    slots := Buffer.mul_eq_ok (by omega)
    staging := Buffer.mul_eq_ok (by omega)
    column := fun lane hlane => by
      have := hfits.laneLen_mul_lt lane hlane
      exact Buffer.mul_eq_ok (by rw [Nat.mul_comm]; omega)
    width := fun depth hmany => by
      -- The second run of the level lies within the slots.
      have hsecond := Nat.mul_le_mul_right (Geometry.fit m.ncols k config).capacity
        (Merge.lt_runsAfter_iff.1 hmany).le
      rw [Nat.mul_one, Nat.mul_comm] at hsecond
      exact Buffer.mul_eq_ok (by omega)
    room := fun depth => Merge.runsAfter_le _ depth
    room_le := ceilDiv_le_self (by decide) _
    allocate := hfits.exists_allocate (by omega)
    row := fun s hs q row hrow => by
      obtain ⟨t, hlanes, last, front, back, hlevels, hselected, hagain⟩ :=
        exists_parts_of_row schedule hfits hkn hlimit hrow hbias q hs
      exact ⟨t, hlanes, last, front, back, hlevels,
        fun depth hmany => Merge.exists_level_of_levels hlevels hmany, hselected, hagain⟩
    rows := fun s hs q rows hrows => selectRows_eq_ok schedule hfits hkn hlimit hbias q hrows hs
    merged := length_mergeInto
    index := fun column sums hsums => map_index_candidatesFrom (hsums.trans hcols) }

/-- A selection fails on its arguments only: it is refused for the first of four reasons, or
    else none of its checks fails and it has a result. -/
theorem fusedTopKUnder_faultless (schedule : Schedule) (m : Matrix Single) (bias : Array Single)
    (k : ℕ) (config : LaunchConfig) :
    fusedTopKUnder schedule m bias k config =
      (if k = 0 then .error (.invalidArgument .zeroCount)
      else if m.ncols < k then .error (.invalidArgument (.countExceeds k m.ncols))
      else if bias.size ≠ m.ncols then
        .error (.invalidArgument (.biasLength bias.size m.ncols))
      else if 2 ^ 32 < m.ncols then .error (.invalidArgument (.tooManyCandidates m.ncols))
      else .ok (referenceTopK m bias k)) ∧
    (0 < k → k ≤ m.ncols → bias.size = m.ncols → m.ncols ≤ 2 ^ 32 →
      Faultless schedule m bias k (.fit m.ncols k config)
        (min config.rowsPerGroup.toNat m.nrows)) :=
  ⟨fusedTopKUnder_eq schedule m bias k config,
    fun hk hkn hbias hcols => faultless schedule config hk hkn hbias hcols (Nat.min_le_right _ _)⟩

/-- Without a bias of its own for every column, two rows are refused; with one, they are
    worked on in any memory that fits. -/
theorem faultless_twoRows :
    (0 < 2 ∧ 2 ≤ twoRows.ncols ∧ #[Single.zero, ⟨0x3f800000⟩, .zero].size = twoRows.ncols ∧
      twoRows.ncols ≤ 2 ^ 32) ∧
    fusedTopK twoRows #[.zero] 2 .standard = .error (.invalidArgument (.biasLength 1 3)) ∧
    (∃ t, fusedTopK twoRows #[.zero, ⟨0x3f800000⟩, .zero] 2 .standard = .ok t) ∧
    ∃ s, Scratch.allocate (.fit 3 2 .standard) = .ok s ∧
      ∃ candidates, selectRows .inOrder (.fit 3 2 .standard) 2 #[.zero, ⟨0x3f800000⟩, .zero] 0
        [twoRows.rowList 0, twoRows.rowList 1, twoRows.rowList 0] s = .ok candidates := by
  obtain ⟨hrefused, -⟩ := fusedTopKUnder_faultless .inOrder twoRows #[.zero] 2 .standard
  obtain ⟨hanswer, hfaultless⟩ :=
    fusedTopKUnder_faultless .inOrder twoRows #[.zero, ⟨0x3f800000⟩, .zero] 2 .standard
  have hwithin := hfaultless (by decide) (by decide) rfl (by decide)
  obtain ⟨s, hs, hfits⟩ := hwithin.allocate
  exact ⟨by decide, hrefused, ⟨_, hanswer⟩, s, hs, _, hwithin.rows s hfits 0 _ (by decide)⟩

end Selection

end NeighborSearch
