import NeighborSearch.Proofs.Selection.Lane
import NeighborSearch.Proofs.Selection.Levels
import NeighborSearch.Proofs.Selection.Tiling

/-!
# What a selection answers

The lanes of a row and the merges after them select what sorting the row would
(`selectRow_eq_ok`), whatever the working memory held before. Groups of rows write
beside each other, so under every schedule and every configuration the answer is the
one found by sorting every row (`fusedTopKUnder_eq_reference`).
-/

namespace NeighborSearch.Selection

variable {g : Geometry} {ncols k : ℕ}

/-! ## One row -/

theorem selectRow_def (schedule : Schedule) (g : Geometry) (k : ℕ) (bias : Array Single) (q : ℕ)
    (row : Array Single) (s : Scratch) : selectRow schedule g k bias q row s = (do
      let ⟨staging, front, back⟩ ←
        orFail (Lane.runAll g row bias ((schedule.lanes q).tasks g.lanes) s)
      let (last, front, back) ←
        orFail (Merge.levels k (schedule.merges q) g.lanes 0 g.capacity front back)
      let candidates ← Merge.selected k last
      return (candidates, ⟨staging, front, back⟩)) := rfl

theorem selectRows_cons (schedule : Schedule) (g : Geometry) (k : ℕ) (bias : Array Single)
    (q : ℕ) (row : List Single) (rows : List (List Single)) (s : Scratch) :
    selectRows schedule g k bias q (row :: rows) s = (do
      let (candidates, s) ← selectRow schedule g k bias q row.toArray s
      return candidates ++ (← selectRows schedule g k bias (q + 1) rows s)) := rfl

@[simp] theorem orFail_ok {α : Type} (a : α) : orFail (.ok a) = .ok a := rfl

@[simp] theorem length_laneCandidates (column : ℕ) (values bias : List Single) :
    (laneCandidates column values bias).length = min values.length bias.length := by
  rw [laneCandidates, length_candidatesFrom, length_biased]

theorem length_reference (row bias : List Single) :
    (reference k row bias).length = min k (min row.length bias.length) := by
  rw [reference, Candidate.sort_take, length_smallest, length_laneCandidates]

/-- A row is selected from as by sorting it, and the memory can be used again. -/
theorem selectRow_eq_ok (schedule : Schedule) (hg : g.Fits ncols k) (hkn : k ≤ ncols)
    (hncols : 4 * ncols < Size.limit) {row bias : Array Single} (hrow : row.size = ncols)
    (hbias : bias.size = ncols) (q : ℕ) {s : Scratch} (hs : s.Fits g) :
    ∃ t, selectRow schedule g k bias q row s = .ok (reference k row.toList bias.toList, t) ∧
      t.Fits g := by
  obtain ⟨⟨staging, front, back⟩, hlanes, hfits, hruns⟩ :=
    Lane.runAll_eq_ok hg hrow hbias (by omega) (schedule.lanes q) hs
  obtain ⟨hstaging, hfront, hback, hfrontReserved, hbackReserved⟩ := hfits
  simp only at hstaging hfront hback hfrontReserved hbackReserved hruns
  have hcount := g.length_shares (laneCandidates 0 row.toList bias.toList)
  have hsome : g.shares (laneCandidates 0 row.toList bias.toList) ≠ [] := by
    rw [← List.length_pos_iff, hcount]
    exact hg.lanes_pos
  have hplaces : ∀ i < (g.shares (laneCandidates 0 row.toList bias.toList)).length,
      g.capacity * i < g.lanes * g.capacity := by
    intro i hi
    rw [hcount] at hi
    rw [Nat.mul_comm g.lanes]
    exact Nat.mul_lt_mul_of_pos_left hi hg.capacity_pos
  have hslots := hg.slots_le
  have hready : Merge.Mergeable k g.capacity (g.lanes * g.capacity) g.lanes (ceilDiv g.lanes 2)
      (g.shares (laneCandidates 0 row.toList bias.toList)) front back :=
    ⟨hruns, hplaces, by omega, ⟨hfront, hfrontReserved⟩, ⟨hback, hbackReserved⟩, hcount.le,
      hcount.symm ▸ Nat.le_refl _⟩
  obtain ⟨last, front', back', width, hlevels, hfront', hback', hlast⟩ :=
    hready.levels_eq_ok hsome (schedule.merges q) 0
  rw [hcount] at hlevels
  rw [hg.flatten_shares (by simp [hrow, hbias]), ← Candidate.sort_take] at hlast
  have hselected : Merge.selected k last = .ok (reference k row.toList bias.toList) := by
    refine Merge.selected_eq_ok hlast ((length_reference row.toList bias.toList).trans ?_)
    rw [Array.length_toList, Array.length_toList]
    omega
  refine ⟨⟨staging, front', back'⟩, ?_, ⟨hstaging, hfront'.slots, hback'.slots, hfront'.reserved,
    hback'.reserved⟩⟩
  rw [selectRow_def, hlanes]
  simp only [orFail_ok, ok_bind, hlevels, hselected]
  rfl

/-- Row after row in the same memory. -/
theorem selectRows_eq_ok (schedule : Schedule) (hg : g.Fits ncols k) (hkn : k ≤ ncols)
    (hncols : 4 * ncols < Size.limit) {bias : Array Single} (hbias : bias.size = ncols) (q : ℕ)
    {rows : List (List Single)} (hrows : ∀ row ∈ rows, row.length = ncols) {s : Scratch}
    (hs : s.Fits g) :
    selectRows schedule g k bias q rows s =
      .ok (rows.flatMap fun row => reference k row bias.toList) := by
  induction rows generalizing q s with
  | nil => rfl
  | cons row rows ih =>
    have hrow : row.toArray.size = ncols := by simpa using hrows row List.mem_cons_self
    obtain ⟨t, hselect, ht⟩ := selectRow_eq_ok schedule hg hkn hncols hrow hbias q hs
    rw [selectRows_cons, hselect, ok_bind]
    simp only
    rw [ih (q + 1) (fun row hrow => hrows row (List.mem_cons_of_mem _ hrow)) ht, ok_bind,
      List.flatMap_cons]
    rfl

/-! ## The output -/

namespace Output

variable {out : Output} {size start place : ℕ} {selected others : List Candidate}

/-- The output has room for `size` entries. -/
structure Fits (out : Output) (size : ℕ) : Prop where
  distances : out.distances.size = size
  indices : out.indices.size = size

/-- Some candidates are in the place of the output that begins with entry `start`. -/
structure Holds (out : Output) (start : ℕ) (selected : List Candidate) : Prop where
  distances : Buffer.Holds out.distances start (selected.map (·.distance))
  indices : Buffer.Holds out.indices start (selected.map (·.index))

/-- The output with some candidates in the place of the entries from `start` on. -/
def overwrite (out : Output) (start : ℕ) (selected : List Candidate) : Output :=
  ⟨Buffer.overwrite out.distances start (selected.map (·.distance)),
    Buffer.overwrite out.indices start (selected.map (·.index))⟩

theorem Fits.overwrite (h : out.Fits size) : (out.overwrite start selected).Fits size :=
  ⟨(Buffer.size_overwrite _ _ _).trans h.distances, (Buffer.size_overwrite _ _ _).trans h.indices⟩

theorem Fits.holds_overwrite (h : out.Fits size) (hle : start + selected.length ≤ size) :
    (out.overwrite start selected).Holds start selected :=
  ⟨Buffer.holds_overwrite (by simpa [h.distances] using hle),
    Buffer.holds_overwrite (by simpa [h.indices] using hle)⟩

theorem Fits.write_eq_ok (h : out.Fits size) (hle : start + selected.length ≤ size) :
    Buffer.write out.distances start (selected.map (·.distance)) =
        .ok (out.overwrite start selected).distances ∧
      Buffer.write out.indices start (selected.map (·.index)) =
        .ok (out.overwrite start selected).indices :=
  ⟨Buffer.write_eq_ok (by simpa [h.distances] using hle),
    Buffer.write_eq_ok (by simpa [h.indices] using hle)⟩

/-- What lies elsewhere stays. -/
theorem Holds.overwrite (hothers : out.Holds place others) (h : out.Fits size)
    (hle : start + selected.length ≤ size)
    (hdisjoint : place + others.length ≤ start ∨ start + selected.length ≤ place) :
    (out.overwrite start selected).Holds place others :=
  ⟨hothers.distances.overwrite (by simpa [h.distances] using hle) (by simpa using hdisjoint),
    hothers.indices.overwrite (by simpa [h.indices] using hle) (by simpa using hdisjoint)⟩

theorem Holds.flatMap_range {f : ℕ → List Candidate} {k n : ℕ}
    (h : out.Holds start ((List.range n).flatMap f)) (hlen : ∀ q < n, (f q).length = k) :
    ∀ q < n, out.Holds (start + k * q) (f q) := by
  obtain ⟨hdistances, hindices⟩ := h
  rw [List.map_flatMap] at hdistances hindices
  intro q hq
  exact ⟨hdistances.flatMap_range (fun i hi => by simpa using hlen i hi) q hq,
    hindices.flatMap_range (fun i hi => by simpa using hlen i hi) q hq⟩

end Output

/-! ## Groups of rows -/

variable {m : Matrix Single} {bias : Array Single} {n i q : ℕ}

/-- The candidates to be selected from row `q`. -/
def selectedFrom (m : Matrix Single) (bias : Array Single) (k q : ℕ) : List Candidate :=
  reference k (m.rowList q) bias.toList

theorem length_selectedFrom (hkn : k ≤ m.ncols) (hbias : bias.size = m.ncols) (hq : q < m.nrows) :
    (selectedFrom m bias k q).length = k := by
  rw [selectedFrom, length_reference, Matrix.length_rowList hq, Array.length_toList, hbias,
    Nat.min_self, Nat.min_eq_left hkn]

theorem length_map_selectedFrom {α : Type} (field : Candidate → α) (hkn : k ≤ m.ncols)
    (hbias : bias.size = m.ncols) (hq : q < m.nrows) :
    ((selectedFrom m bias k q).map field).length = k := by
  rw [List.length_map, length_selectedFrom hkn hbias hq]

/-- The rows that group `i` of `n` rows each has to leave. -/
def Leaves (m : Matrix Single) (bias : Array Single) (k n i : ℕ) (out : Output) : Prop :=
  ∀ q < m.nrows, q / n = i → out.Holds (k * q) (selectedFrom m bias k q)

/-- What the rows of a group come to, in working memory of their own. -/
theorem selectRows_group (schedule : Schedule) (config : LaunchConfig) (hk : 0 < k)
    (hkn : k ≤ m.ncols) (hcols : 4 * m.ncols < Size.limit) (hbias : bias.size = m.ncols)
    {s : Scratch} (hs : s.Fits (.fit m.ncols k config)) :
    selectRows schedule (.fit m.ncols k config) k bias (n * i) (wholeChunks m.ncols
      (m.entries.extract (n * m.ncols * i) (n * m.ncols * i + n * m.ncols)).toList) s =
        .ok ((List.range (min n (m.nrows - n * i))).flatMap fun j =>
          selectedFrom m bias k (n * i + j)) := by
  rw [selectRows_eq_ok schedule (Geometry.fits_fit config hk hkn) hkn hcols hbias _
    (fun row hrow => length_of_mem_wholeChunks hrow) hs, Matrix.wholeChunks_group (by omega),
    List.flatMap_map]
  rfl

theorem runGroup_def (schedule : Schedule) (g : Geometry) (m : Matrix Single) (k : ℕ)
    (bias : Array Single) (rowsPerGroup i : ℕ) (distances : Array Single)
    (indices : Array UInt32) :
    runGroup schedule g m k bias rowsPerGroup i ⟨distances, indices⟩ = (do
      let entries ← orFail (Buffer.mul rowsPerGroup m.ncols)
      let results ← orFail (Buffer.mul rowsPerGroup k)
      let rows ← orFail (Buffer.piece entries i m.entries)
      let scratch ← orFail (Scratch.allocate g)
      let candidates ← selectRows schedule g k bias (rowsPerGroup * i)
        (wholeChunks m.ncols rows.toList) scratch
      let distances ← orFail (Buffer.write distances (results * i) (candidates.map (·.distance)))
      let indices ← orFail (Buffer.write indices (results * i) (candidates.map (·.index)))
      return ⟨distances, indices⟩) := rfl

/-- A group leaves its rows, and those of other groups as they are. -/
theorem runGroup_eq_ok (schedule : Schedule) (config : LaunchConfig) (hk : 0 < k)
    (hkn : k ≤ m.ncols) (hcols : 4 * m.ncols < Size.limit) (hbias : bias.size = m.ncols)
    (hpos : 0 < n) (hn : n ≤ m.nrows) (hi : n * i < m.nrows) {out : Output}
    (hout : out.Fits (m.nrows * k)) :
    ∃ t, runGroup schedule (.fit m.ncols k config) m k bias n i out = .ok t ∧
      t.Fits (m.nrows * k) ∧ Leaves m bias k n i t ∧
      ∀ j, j ≠ i → Leaves m bias k n j out → Leaves m bias k n j t := by
  have hplace : n * k * i = k * (n * i) := by rw [Nat.mul_comm n, Nat.mul_assoc]
  have hpiece : n * m.ncols * i < m.entries.size := by
    rw [m.size_entries, Nat.mul_right_comm]
    exact Nat.mul_lt_mul_of_pos_right hi (by omega)
  have hentries : n * m.ncols < Size.limit :=
    (Nat.mul_le_mul_right _ hn).trans_lt m.size_lt_limit
  have hresults : n * k < Size.limit := (Nat.mul_le_mul_left _ hkn).trans_lt hentries
  have hlen : ∀ j < min n (m.nrows - n * i), (selectedFrom m bias k (n * i + j)).length = k :=
    fun j hj => length_selectedFrom hkn hbias (by omega)
  have hall := length_flatMap_range hlen
  have hwrite : n * k * i + ((List.range (min n (m.nrows - n * i))).flatMap fun j =>
      selectedFrom m bias k (n * i + j)).length ≤ m.nrows * k := by
    rw [hall, hplace, ← Nat.mul_add, Nat.mul_comm m.nrows]
    exact Nat.mul_le_mul_left _ (by omega)
  have hrun : runGroup schedule (.fit m.ncols k config) m k bias n i out =
      .ok (out.overwrite (n * k * i) ((List.range (min n (m.nrows - n * i))).flatMap fun j =>
        selectedFrom m bias k (n * i + j))) := by
    obtain ⟨distances, indices⟩ := out
    obtain ⟨hdistances, hindices⟩ := hout.write_eq_ok hwrite
    obtain ⟨s, hallocate, hs⟩ :=
      (Geometry.fits_fit config hk hkn).exists_allocate (by omega)
    simp only at hdistances hindices
    simp only [runGroup_def, Buffer.mul_eq_ok hentries, Buffer.mul_eq_ok hresults, orFail_ok,
      ok_bind, Buffer.piece_eq_ok hpiece, hallocate, hdistances, hindices,
      selectRows_group schedule config hk hkn hcols hbias hs]
    rfl
  refine ⟨_, hrun, hout.overwrite, ?_, ?_⟩
  · rintro q hq rfl
    have hsplit := Nat.div_add_mod q n
    have hmod := Nat.mod_lt q hpos
    have hheld := (hout.holds_overwrite hwrite).flatMap_range hlen (q % n) (by omega)
    rw [hplace] at hheld ⊢
    rwa [← Nat.mul_add, hsplit] at hheld
  · rintro j hj hleaves q hq rfl
    refine (hleaves q hq rfl).overwrite hout hwrite ?_
    rw [length_selectedFrom hkn hbias hq, hall, hplace, ← Nat.mul_succ, ← Nat.mul_add]
    have hsplit := Nat.div_add_mod q n
    have hmod := Nat.mod_lt q hpos
    -- The row lies before the group or after it.
    rcases Nat.lt_or_gt_of_ne hj with hlt | hgt
    · have := Nat.mul_le_mul_left n hlt
      rw [Nat.mul_succ] at this
      exact .inl (Nat.mul_le_mul_left _ (by omega))
    · have := Nat.mul_le_mul_left n hgt
      rw [Nat.mul_succ] at this
      exact .inr (Nat.mul_le_mul_left _ (by omega))

/-! ## The whole matrix -/

/-- The answer found by sorting every row. -/
def referenceTopK (m : Matrix Single) (bias : Array Single) (k : ℕ) : TopK where
  distances := ((List.range m.nrows).flatMap fun q =>
    (selectedFrom m bias k q).map (·.distance)).toArray
  indices := ((List.range m.nrows).flatMap fun q =>
    (selectedFrom m bias k q).map (·.index)).toArray
  nrows := m.nrows
  k := k

theorem checkArguments_eq_ok {ncols entries : ℕ} (hk : 0 < k) (hkn : k ≤ ncols)
    (hcols : ncols ≤ 2 ^ 32) (hentries : entries = ncols) :
    checkArguments ncols entries k = .ok () := by
  rw [checkArguments, if_neg hk.ne', if_neg hkn.not_gt, if_neg (not_not.2 hentries),
    if_neg (by omega)]

theorem checkArguments_eq_ok_iff {ncols entries : ℕ} :
    checkArguments ncols entries k = .ok () ↔
      0 < k ∧ k ≤ ncols ∧ entries = ncols ∧ ncols ≤ 2 ^ 32 := by
  constructor
  · intro h
    rw [checkArguments] at h
    split at h
    case isTrue => cases h
    case isFalse hk =>
      split at h
      case isTrue => cases h
      case isFalse hkn =>
        split at h
        case isTrue => cases h
        case isFalse hentries =>
          split at h
          case isTrue => cases h
          case isFalse hcols => omega
  · rintro ⟨hk, hkn, hentries, hcols⟩
    exact checkArguments_eq_ok hk hkn hcols hentries

theorem fusedTopKUnder_def (schedule : Schedule) (m : Matrix Single) (bias : Array Single)
    (k : ℕ) (config : LaunchConfig) : fusedTopKUnder schedule m bias k config = (do
      checkArguments m.ncols bias.size k
      match Size.mul? m.nrows k with
      | none => throw (.outOfMemory Size.largest)
      | some size =>
        let rowsPerGroup := min config.rowsPerGroup.toNat m.nrows
        let groups := schedule.groups.tasks (ceilDiv m.nrows rowsPerGroup)
        let out ← groups.foldlM
          (fun out i => runGroup schedule (.fit m.ncols k config) m k bias rowsPerGroup i out)
          ⟨Array.replicate size .zero, Array.replicate size 0⟩
        return ⟨out.distances, out.indices, m.nrows, k⟩) := rfl

/-- Under every schedule and configuration, the answer is the one found by sorting. -/
theorem fusedTopKUnder_eq_reference (schedule : Schedule) (config : LaunchConfig) (hk : 0 < k)
    (hkn : k ≤ m.ncols) (hcols : m.ncols ≤ 2 ^ 32) (hbias : bias.size = m.ncols) :
    fusedTopKUnder schedule m bias k config = .ok (referenceTopK m bias k) := by
  have hlimit : 4 * m.ncols < Size.limit := by
    rw [Size.limit]
    omega
  have hsize : m.nrows * k < Size.limit :=
    (Nat.mul_le_mul_left _ hkn).trans_lt m.size_lt_limit
  -- With no row there is no group either.
  have hgroup : ∀ i < ceilDiv m.nrows (min config.rowsPerGroup.toNat m.nrows),
      0 < min config.rowsPerGroup.toNat m.nrows ∧
        min config.rowsPerGroup.toNat m.nrows * i < m.nrows := by
    intro i hi
    have hpos : 0 < min config.rowsPerGroup.toNat m.nrows := by
      refine Nat.pos_of_ne_zero fun hzero => ?_
      rw [hzero, ceilDiv, Nat.div_zero] at hi
      exact absurd hi (Nat.not_lt_zero i)
    exact ⟨hpos, (lt_ceilDiv_iff hpos).1 hi⟩
  have hstart : Output.Fits ⟨Array.replicate (m.nrows * k) .zero, Array.replicate (m.nrows * k) 0⟩
      (m.nrows * k) := ⟨Array.size_replicate, Array.size_replicate⟩
  obtain ⟨out, hout, hfits, hleaves⟩ := schedule.groups.exists_foldlM_eq_ok
    (fun out i hi hout => runGroup_eq_ok schedule config hk hkn hlimit hbias (hgroup i hi).1
      (Nat.min_le_right _ _) (hgroup i hi).2 hout) hstart
  have hheld : ∀ q < m.nrows, out.Holds (k * q) (selectedFrom m bias k q) := by
    intro q hq
    have hpos := config.rowsPerGroup.toNat_pos
    refine hleaves _ ((lt_ceilDiv_iff (by omega)).2 ?_) q hq rfl
    exact (Nat.mul_div_le q _).trans_lt hq
  -- Every row is in its place, so the output is made of the rows.
  have hdistances := Buffer.toList_eq_flatMap_range hfits.distances
    (fun q hq => (hheld q hq).distances) (fun q hq => length_map_selectedFrom _ hkn hbias hq)
  have hindices := Buffer.toList_eq_flatMap_range hfits.indices
    (fun q hq => (hheld q hq).indices) (fun q hq => length_map_selectedFrom _ hkn hbias hq)
  rw [fusedTopKUnder_def, checkArguments_eq_ok hk hkn hcols hbias, ok_bind,
    Size.mul?_eq_some_iff.2 ⟨hsize, rfl⟩]
  simp only [hout, ok_bind]
  rw [referenceTopK, ← hdistances, ← hindices]
  rfl

theorem size_distances_referenceTopK (hkn : k ≤ m.ncols) (hbias : bias.size = m.ncols) :
    (referenceTopK m bias k).distances.size = m.nrows * k := by
  rw [referenceTopK, List.size_toArray, Nat.mul_comm]
  exact length_flatMap_range fun q hq => length_map_selectedFrom _ hkn hbias hq

theorem size_indices_referenceTopK (hkn : k ≤ m.ncols) (hbias : bias.size = m.ncols) :
    (referenceTopK m bias k).indices.size = m.nrows * k := by
  rw [referenceTopK, List.size_toArray, Nat.mul_comm]
  exact length_flatMap_range fun q hq => length_map_selectedFrom _ hkn hbias hq

theorem shaped_referenceTopK (hkn : k ≤ m.ncols) (hbias : bias.size = m.ncols) :
    (referenceTopK m bias k).Shaped where
  distances := size_distances_referenceTopK hkn hbias
  indices := size_indices_referenceTopK hkn hbias
  lt_limit := (Nat.mul_le_mul_left _ hkn).trans_lt m.size_lt_limit

/-- A row of the answer. -/
theorem row?_referenceTopK (hkn : k ≤ m.ncols) (hbias : bias.size = m.ncols) (hq : q < m.nrows) :
    (referenceTopK m bias k).row? q =
      some (((selectedFrom m bias k q).map (·.distance)).toArray,
        ((selectedFrom m bias k q).map (·.index)).toArray) := by
  rw [(shaped_referenceTopK hkn hbias).row?_eq_some hq, referenceTopK,
    Buffer.extract_flatMap_range (fun i hi => length_map_selectedFrom _ hkn hbias hi) hq,
    Buffer.extract_flatMap_range (fun i hi => length_map_selectedFrom _ hkn hbias hi) hq]

/-! ## What is selected -/

/-- The candidate of a column. -/
def candidateAt (row bias : Array Single) (c : ℕ) : Candidate :=
  .of (row.getD c .zero + bias.getD c .zero) (UInt32.ofNat c)

/-- The candidates of a row by their columns. -/
theorem laneCandidates_eq_map_range {row : Array Single} (hrow : row.size = ncols)
    (hbias : bias.size = ncols) :
    laneCandidates 0 row.toList bias.toList = (List.range ncols).map (candidateAt row bias) := by
  apply List.ext_getElem?
  intro c
  rw [laneCandidates, getElem?_candidatesFrom, biased, List.getElem?_zipWith, Nat.zero_add,
    List.getElem?_map]
  rcases Nat.lt_or_ge c ncols with hc | hc
  · simp [candidateAt, hc, hrow, hbias]
  · simp [hrow, hbias, hc]

/-- Every column is selected at most once. -/
theorem nodup_index_take_sort {row : Array Single} (hcols : ncols ≤ 2 ^ 32) :
    (((Candidate.sort ((List.range ncols).map (candidateAt row bias))).take k).map
      (·.index)).Nodup := by
  have hall : (((List.range ncols).map (candidateAt row bias)).map (·.index)).Nodup := by
    rw [List.map_map]
    refine List.Nodup.map_on ?_ List.nodup_range
    intro i hi j hj heq
    have hnum := congrArg UInt32.toNat heq
    simp only [candidateAt, Candidate.of, Function.comp_apply, UInt32.toNat_ofNat'] at hnum
    rw [List.mem_range] at hi hj
    omega
  have hperm := List.mergeSort_perm ((List.range ncols).map (candidateAt row bias))
    fun a b => decide (a ≤ b)
  exact ((hperm.map (·.index)).nodup_iff.2 hall).sublist ((List.take_sublist k _).map _)

/-- What is selected comes from some column, which it names. -/
theorem exists_of_mem_take_sort {row : Array Single} {c : Candidate}
    (h : c ∈ (Candidate.sort ((List.range ncols).map (candidateAt row bias))).take k) :
    ∃ i < ncols, c = candidateAt row bias i := by
  have hmem := List.mem_mergeSort.1 (List.mem_of_mem_take h)
  obtain ⟨i, hi, rfl⟩ := List.mem_map.1 hmem
  exact ⟨i, List.mem_range.1 hi, rfl⟩

/-- Whatever the configuration, and in whatever order lanes, merges and groups are done,
    a selection answers for every row with the first `k` of its sorted candidates: each
    column at most once, with its own sum. -/
theorem fusedTopK_eq_sorted_columns (m : Matrix Single) (bias : Array Single) (k : ℕ)
    (hk : 1 ≤ k) (hkn : k ≤ m.ncols) (hcols : m.ncols ≤ 2 ^ 32) (hbias : bias.size = m.ncols) :
    ∃ t : TopK, (∀ config, fusedTopK m bias k config = .ok t) ∧
      (∀ schedule config, fusedTopKUnder schedule m bias k config = .ok t) ∧
      t.nrows = m.nrows ∧ t.k = k ∧
      t.distances.size = m.nrows * k ∧ t.indices.size = m.nrows * k ∧
      ∀ q < m.nrows, ∃ row distances indices,
        m.row? q = some row ∧ row.size = m.ncols ∧
        (∀ c < m.ncols, row[c]? = m.entries[q * m.ncols + c]?) ∧
        t.row? q = some (distances, indices) ∧
        distances.toList = ((Candidate.sort ((List.range m.ncols).map
          (candidateAt row bias))).take k).map (·.distance) ∧
        indices.toList = ((Candidate.sort ((List.range m.ncols).map
          (candidateAt row bias))).take k).map (·.index) ∧
        distances.size = k ∧ indices.size = k ∧ indices.toList.Nodup ∧
        ∀ i < k, ∃ c < m.ncols, indices[i]? = some (UInt32.ofNat c) ∧
          (UInt32.ofNat c).toNat = c ∧
          distances[i]? = some (row.getD c .zero + bias.getD c .zero).canonicalize := by
  have hall : ∀ schedule config,
      fusedTopKUnder schedule m bias k config = .ok (referenceTopK m bias k) :=
    fun schedule config => fusedTopKUnder_eq_reference schedule config hk hkn hcols hbias
  refine ⟨referenceTopK m bias k, hall .inOrder, hall, rfl, rfl,
    size_distances_referenceTopK hkn hbias, size_indices_referenceTopK hkn hbias, ?_⟩
  intro q hq
  obtain ⟨row, hrow, hlist⟩ := m.exists_row?_eq_some hq
  have hsize : row.size = m.ncols := by
    rw [← Array.length_toList, hlist, Matrix.length_rowList hq]
  have hselected : selectedFrom m bias k q =
      (Candidate.sort ((List.range m.ncols).map (candidateAt row bias))).take k := by
    rw [selectedFrom, reference, ← hlist, laneCandidates_eq_map_range hsize hbias]
  have hlength := length_selectedFrom hkn hbias hq
  have hanswer := row?_referenceTopK hkn hbias hq
  rw [hselected] at hanswer hlength
  refine ⟨row, _, _, hrow, hsize, ?_, hanswer, rfl, rfl, ?_, ?_, nodup_index_take_sort hcols, ?_⟩
  · intro c hc
    rw [← Array.getElem?_toList, hlist, Matrix.rowList, List.getElem?_take_of_lt hc,
      List.getElem?_drop, Array.getElem?_toList, Nat.mul_comm]
  · rw [List.size_toArray, List.length_map, hlength]
  · rw [List.size_toArray, List.length_map, hlength]
  · intro i hi
    have hlt := hlength.symm ▸ hi
    obtain ⟨c, hc, heq⟩ := exists_of_mem_take_sort (List.getElem_mem hlt)
    have hentry := List.getElem?_eq_getElem hlt
    rw [heq] at hentry
    refine ⟨c, hc, ?_, ?_, ?_⟩
    · rw [List.getElem?_toArray, List.getElem?_map, hentry]
      rfl
    · rw [UInt32.toNat_ofNat', Nat.mod_eq_of_lt (by omega)]
    · rw [List.getElem?_toArray, List.getElem?_map, hentry]
      rfl

/-- Two rows of three columns, one with something that is not a number and a negative
    zero. -/
def twoRows : Matrix Single where
  entries := #[⟨0x40400000⟩, ⟨0x3f800000⟩, ⟨0x40000000⟩, ⟨0x3f800000⟩, ⟨0x7fc00001⟩, ⟨0x80000000⟩]
  nrows := 2
  ncols := 3
  shape := by decide

theorem fusedTopK_twoRows :
    (1 ≤ 2 ∧ 2 ≤ twoRows.ncols ∧ twoRows.ncols ≤ 2 ^ 32 ∧
      #[Single.zero, ⟨0x3f800000⟩, Single.zero].size = twoRows.ncols) ∧
      ∃ t : TopK, (∀ config, fusedTopK twoRows #[.zero, ⟨0x3f800000⟩, .zero] 2 config = .ok t) ∧
        t.nrows = 2 ∧ t.k = 2 ∧ t.distances.size = 4 ∧ t.indices.size = 4 := by
  obtain ⟨t, hall, -, hrows, hk, hdistances, hindices, -⟩ := fusedTopK_eq_sorted_columns twoRows
    #[.zero, ⟨0x3f800000⟩, .zero] 2 (by decide) (by decide) (by decide) rfl
  exact ⟨by decide, t, hall, hrows, hk, hdistances, hindices⟩

end NeighborSearch.Selection
