import NeighborSearch.Proofs.Selection.Footprint
import NeighborSearch.Proofs.Selection.TopK

/-!
# Selections do not depend on the schedule

Every group of rows has a piece of the output, which it fills without looking at it
(`writes`), and no piece belongs to two groups. So the groups are independent, as are the
lanes of a row and the merges of a level, and under all schedules a selection comes to the
same (`fusedTopKUnder_unscheduled`).
-/

namespace NeighborSearch

variable {α : Type} {i : ℕ}

namespace Selection

/-! ## Groups of rows -/

namespace Output

/-- The places of the output. -/
inductive Place
  /-- A distance. -/
  | distance (p : ℕ)
  /-- A column. -/
  | index (p : ℕ)
  /-- How large everything is. -/
  | extents

/-- What is in a place. -/
def Content : Place → Type
  | .distance _ => Option Single
  | .index _ => Option UInt32
  | .extents => List ℕ

/-- Look what is in a place. -/
def look (out : Output) : (place : Place) → Content place
  | .distance p => out.distances[p]?
  | .index p => out.indices[p]?
  | .extents => [out.distances.size, out.indices.size]

/-- There is nothing else in the output. -/
theorem ext_look {out out' : Output} (h : ∀ place, out.look place = out'.look place) :
    out = out' := by
  obtain ⟨distances, indices⟩ := out
  obtain ⟨distances', indices'⟩ := out'
  obtain rfl : distances = distances' := Array.ext_getElem? fun p => h (.distance p)
  obtain rfl : indices = indices' := Array.ext_getElem? fun p => h (.index p)
  rfl

end Output

variable {g : Geometry} {m : Matrix Single} {bias : Array Single} {k : ℕ}

/-- Where group `i` of `n` rows each writes: its piece of the distances and of the columns. -/
def writes (m : Matrix Single) (k n i : ℕ) : Set Output.Place := {place | match place with
  | .distance p | .index p => InPiece (n * k) i p ∧ p < m.nrows * k
  | .extents => False}

/-- A group looks at nothing in the output. -/
def reads : Set Output.Place := {.extents}

theorem orFail_eq_ok_iff {x : Except Fault α} {a : α} : orFail x = .ok a ↔ x = .ok a := by
  cases x with
  | error fault => exact ⟨nofun, nofun⟩
  | ok b => exact ⟨fun h => congrArg _ (Except.ok.inj h), fun h => congrArg _ (Except.ok.inj h)⟩

theorem alike_orFail {x y : Except Fault α} (h : Alike x y) : Alike (orFail x) (orFail y) := by
  intro a
  rw [orFail_eq_ok_iff, orFail_eq_ok_iff]
  exact h a

theorem length_of_selected {last : RunBuffer} {candidates : List Candidate}
    (h : Merge.selected k last = .ok candidates) : candidates.length = k := by
  rw [Merge.selected] at h
  split at h
  case h_2 => cases h
  case h_1 count hcount =>
    split at h
    case isFalse => cases h
    case isTrue hk =>
      subst hk
      split at h
      case h_2 => cases h
      case h_1 selected hslice =>
        obtain ⟨hle, rfl⟩ := Buffer.slice_eq_ok_iff.1 hslice
        rw [← Except.ok.inj h, Array.length_toList, Array.size_extract]
        omega

/-- From every row as many are selected as asked for. -/
theorem length_of_selectRows {schedule : Schedule} {q : ℕ} {rows : List (List Single)}
    {s : Scratch} {candidates : List Candidate}
    (h : selectRows schedule g k bias q rows s = .ok candidates) :
    candidates.length = k * rows.length := by
  induction rows generalizing q s candidates with
  | nil => rw [← Except.ok.inj h, List.length_nil, List.length_nil, Nat.mul_zero]
  | cons row rows ih =>
    simp only [selectRows_cons, selectRow_def, bind_eq_ok_iff] at h
    obtain ⟨⟨first, t⟩, ⟨lanes, -, ⟨last, front, back⟩, -, found, hfound, hfirst⟩, others, hothers,
      hall⟩ := h
    obtain ⟨rfl, -⟩ := Prod.mk.inj (Except.ok.inj hfirst)
    rw [← Except.ok.inj hall, List.length_append, length_of_selected hfound, ih hothers,
      List.length_cons, Nat.mul_succ, Nat.add_comm]

/-- What a group writes fills its piece of the output. -/
theorem mem_writes_iff {n p : ℕ} :
    n * k * i ≤ p ∧ p < n * k * i + k * min n (m.nrows - n * i) ↔
      InPiece (n * k) i p ∧ p < m.nrows * k := by
  have hplace : n * k * i = k * (n * i) := by rw [Nat.mul_comm n, Nat.mul_assoc]
  rw [InPiece, hplace, Nat.mul_comm n k, Nat.mul_comm m.nrows]
  rcases Nat.le_total (m.nrows) (n * i) with hbeyond | hwithin
  · rw [Nat.sub_eq_zero_of_le hbeyond, Nat.min_zero, Nat.mul_zero, Nat.add_zero]
    have := Nat.mul_le_mul_left k hbeyond
    omega
  · rw [← Nat.mul_min_mul_left, Nat.mul_sub]
    have := Nat.mul_le_mul_left k hwithin
    omega

/-- The candidates of a group fill its piece of the output. -/
theorem length_of_selectRows_group {schedule : Schedule} {g : Geometry} {bias rows : Array Single}
    {k n i : ℕ} {s : Scratch} {candidates : List Candidate} (hcols : 0 < m.ncols)
    (hrows : Buffer.piece (n * m.ncols) i m.entries = .ok rows)
    (hcandidates : selectRows schedule g k bias (n * i) (wholeChunks m.ncols rows.toList) s =
      .ok candidates) : candidates.length = k * min n (m.nrows - n * i) := by
  have hcount := length_of_selectRows hcandidates
  obtain ⟨-, rfl⟩ := Buffer.piece_eq_ok_iff.1 hrows
  rwa [Matrix.wholeChunks_group hcols, List.length_map, List.length_range] at hcount

/-- A group keeps to its piece of the output, and fills it whatever was there. -/
theorem confined_runGroup (schedule : Schedule) (g : Geometry) (bias : Array Single) (k n i : ℕ)
    (hcols : 0 < m.ncols) :
    Confined Output.look reads (writes m k n i) (runGroup schedule g m k bias n i) := by
  constructor
  case frame =>
    rintro ⟨distances, indices⟩ t h place hplace
    simp only [runGroup_def, bind_eq_ok_iff, orFail_eq_ok_iff, Buffer.mul_eq_ok_iff] at h
    obtain ⟨_, ⟨-, rfl⟩, _, ⟨-, rfl⟩, rows, hrows, s, -, candidates, hcandidates, distances',
      hdistances, indices', hindices, ht⟩ := h
    obtain rfl := Except.ok.inj ht
    have hlen := length_of_selectRows_group hcols hrows hcandidates
    cases place with
    | distance p =>
      refine Buffer.getElem?_of_write hdistances fun hp => hplace (mem_writes_iff.1 ?_)
      rwa [List.length_map, hlen] at hp
    | index p =>
      refine Buffer.getElem?_of_write hindices fun hp => hplace (mem_writes_iff.1 ?_)
      rwa [List.length_map, hlen] at hp
    | extents =>
      simp only [Output.look, Buffer.size_of_write hdistances, Buffer.size_of_write hindices]
      rfl
  case depends =>
    rintro ⟨distances, indices⟩ ⟨distances₁, indices₁⟩ t hsame h
    simp only [runGroup_def, bind_eq_ok_iff, orFail_eq_ok_iff, Buffer.mul_eq_ok_iff] at h
    obtain ⟨_, ⟨hentries, rfl⟩, _, ⟨hresults, rfl⟩, rows, hrows, s, hs, candidates, hcandidates,
      distances', hdistances, indices', hindices, ht⟩ := h
    obtain rfl := Except.ok.inj ht
    have hlen := length_of_selectRows_group hcols hrows hcandidates
    have hextents : [_, _] = [_, _] := hsame .extents rfl
    simp only [List.cons.injEq, and_true] at hextents
    obtain ⟨hdistancesSize, hindicesSize⟩ := hextents
    obtain ⟨distances₂, hdistances₂, hdistancesSame⟩ :=
      Buffer.exists_write hdistances hdistancesSize
    obtain ⟨indices₂, hindices₂, hindicesSame⟩ := Buffer.exists_write hindices hindicesSize
    refine ⟨⟨distances₂, indices₂⟩, ?_, fun place hplace => ?_⟩
    · simp only [runGroup_def, bind_eq_ok_iff, orFail_eq_ok_iff, Buffer.mul_eq_ok_iff]
      exact ⟨_, ⟨hentries, rfl⟩, _, ⟨hresults, rfl⟩, rows, hrows, s, hs, candidates, hcandidates,
        distances₂, hdistances₂, indices₂, hindices₂, rfl⟩
    · cases place with
      | distance p =>
        refine hdistancesSame p (.inl ?_)
        rw [List.length_map, hlen]
        exact mem_writes_iff.2 hplace
      | index p =>
        refine hindicesSame p (.inl ?_)
        rw [List.length_map, hlen]
        exact mem_writes_iff.2 hplace
      | extents => exact absurd hplace id

/-- The groups are independent. -/
theorem independent_runGroup (schedule : Schedule) (g : Geometry) (bias : Array Single) (k n : ℕ)
    (hcols : 0 < m.ncols) :
    Independent Output.look (fun _ => reads) (writes m k n)
      fun out i => runGroup schedule g m k bias n i out := by
  refine ⟨fun i => confined_runGroup schedule g bias k n i hcols, fun i j hij => ?_,
    fun i j hij => ?_⟩
  · intro place hi hj
    cases place with
    | distance p | index p => exact hij (hi.1.unique hj.1)
    | extents => exact hi
  · rintro place rfl hj
    exact hj

/-- Every entry of the output belongs to one of the groups of `n` rows. -/
theorem existsUnique_group {n p : ℕ} (hn : 0 < n) (hp : p < m.nrows * k) :
    ∃! i, i < ceilDiv m.nrows n ∧ InPiece (n * k) i p := by
  have hk : 0 < k := Nat.pos_of_ne_zero fun hzero => by simp [hzero] at hp
  have hnk := Nat.mul_pos hn hk
  have hdiv := Nat.div_add_mod p (n * k)
  have hmod := Nat.mod_lt p hnk
  refine ⟨p / (n * k), ⟨?_, by omega, by omega⟩, fun i hi => hi.2.unique ⟨by omega, by omega⟩⟩
  rw [lt_ceilDiv_iff hn, ← Nat.mul_lt_mul_right hk, Nat.mul_right_comm]
  omega

/-! ## Whole selections -/

theorem alike_selectRow (schedule schedule' : Schedule) (q : ℕ) (row : Array Single)
    (s : Scratch) :
    Alike (selectRow schedule g k bias q row s) (selectRow schedule' g k bias q row s) := by
  rw [selectRow_def, selectRow_def]
  refine (alike_orFail (Lane.alike_runAll _ _ _)).bind fun t => ?_
  exact (alike_orFail (Merge.alike_levels _ _ _ _ _ _ _)).bind fun _ => .refl _

theorem alike_selectRows (schedule schedule' : Schedule) (q : ℕ) (rows : List (List Single))
    (s : Scratch) :
    Alike (selectRows schedule g k bias q rows s) (selectRows schedule' g k bias q rows s) := by
  induction rows generalizing q s with
  | nil => exact .refl _
  | cons row rows ih =>
    rw [selectRows_cons, selectRows_cons]
    exact (alike_selectRow _ _ _ _ _).bind fun t => (ih _ _).bind fun _ => .refl _

theorem alike_runGroup (schedule schedule' : Schedule) (n i : ℕ) (out : Output) :
    Alike (runGroup schedule g m k bias n i out) (runGroup schedule' g m k bias n i out) := by
  rw [runGroup_def, runGroup_def]
  refine (Alike.refl _).bind fun _ => (Alike.refl _).bind fun _ => (Alike.refl _).bind fun _ =>
    (Alike.refl _).bind fun s => ?_
  exact (alike_selectRows _ _ _ _ _).bind fun _ => .refl _

/-- Under all schedules, what can be selected from is selected from alike. -/
theorem alike_fusedTopKUnder (schedule schedule' : Schedule) (config : LaunchConfig)
    (hcols : 0 < m.ncols) :
    Alike (fusedTopKUnder schedule m bias k config) (fusedTopKUnder schedule' m bias k config) := by
  rw [fusedTopKUnder_def, fusedTopKUnder_def]
  refine (Alike.refl _).bind fun _ => ?_
  split
  case h_1 => exact .refl _
  case h_2 size hsize =>
    refine Alike.bind ?_ fun _ => .refl _
    -- First the orders within the groups are exchanged, and then those of the groups.
    refine (Alike.foldlM (fun out i => alike_runGroup schedule schedule' _ i out) _ _).trans ?_
    exact (independent_runGroup schedule' _ bias k _ hcols).alike_foldlM
      (fun _ _ => Output.ext_look) ((schedule.groups.perm _).trans (schedule'.groups.perm _).symm)
      (schedule.groups.nodup_tasks _) _

/-- Arguments that are refused are refused before anything is scheduled. -/
theorem fusedTopKUnder_eq_error (schedule : Schedule) (config : LaunchConfig) {e : SelectError}
    (h : checkArguments m.ncols bias.size k = .error e) :
    fusedTopKUnder schedule m bias k config = .error e := by
  rw [fusedTopKUnder_def, h]
  rfl

/-- The lanes of a row, the merges of a level and the groups of rows keep to places of their
    own, so that whatever the schedule, a selection comes to the same, be it a result or an
    error. -/
theorem fusedTopKUnder_unscheduled (m : Matrix Single) (bias : Array Single) (k : ℕ)
    (config : LaunchConfig) :
    (∀ row, Independent Scratch.look (Lane.reads (.fit m.ncols k config))
      (Lane.writes (.fit m.ncols k config))
      fun s lane => Lane.run (.fit m.ncols k config) row bias lane s) ∧
    (∀ span, Independent Merge.Buffers.look (Merge.reads span) (Merge.writes span)
      (Merge.task k span)) ∧
    (0 < m.ncols → ∀ schedule n, Independent Output.look (fun _ => reads) (writes m k n)
      fun out i => runGroup schedule (.fit m.ncols k config) m k bias n i out) ∧
    -- Every entry of the output is written by one of the groups.
    (∀ p < m.nrows * k, ∃! i, i < ceilDiv m.nrows (min config.rowsPerGroup.toNat m.nrows) ∧
      .distance p ∈ writes m k (min config.rowsPerGroup.toNat m.nrows) i ∧
      .index p ∈ writes m k (min config.rowsPerGroup.toNat m.nrows) i) ∧
    ∃ answer, (∀ schedule, fusedTopKUnder schedule m bias k config = answer) ∧
      (checkArguments m.ncols bias.size k = .ok () → ∃ t, answer = .ok t) := by
  refine ⟨fun row => Lane.independent _ row bias, Merge.independent k,
    fun hcols schedule n => independent_runGroup schedule _ bias k n hcols, fun p hp => ?_, ?_⟩
  · have hrows : 0 < m.nrows := Nat.pos_of_ne_zero fun hzero => by simp [hzero] at hp
    have hpos := config.rowsPerGroup.toNat_pos
    have hgroup : 0 < min config.rowsPerGroup.toNat m.nrows := Nat.lt_min.2 ⟨hpos, hrows⟩
    obtain ⟨i, ⟨hi, hpiece⟩, hunique⟩ := existsUnique_group hgroup hp
    exact ⟨i, ⟨hi, ⟨hpiece, hp⟩, hpiece, hp⟩, fun j hj => hunique j ⟨hj.1, hj.2.1.1⟩⟩
  · cases hcheck : checkArguments m.ncols bias.size k with
    | error e => exact ⟨_, fun schedule => fusedTopKUnder_eq_error schedule config hcheck, nofun⟩
    | ok =>
      obtain ⟨hk, hkn, hbias, hcols⟩ := checkArguments_eq_ok_iff.1 hcheck
      have hanswer := fusedTopKUnder_eq_reference .inOrder config hk hkn hcols hbias
      refine ⟨.ok (referenceTopK m bias k), fun schedule => ?_, fun _ => ⟨_, rfl⟩⟩
      exact (alike_fusedTopKUnder .inOrder schedule config (by omega) _).1 hanswer

/-- Under a schedule that does everything from last to first. -/
theorem unscheduled_twoRows :
    0 < twoRows.ncols ∧ 3 < twoRows.nrows * 2 ∧
      checkArguments twoRows.ncols #[Single.zero, ⟨0x3f800000⟩, .zero].size 2 = .ok () ∧
      (∃! i, i < 2 ∧ .distance 3 ∈ writes twoRows 2 1 i ∧ .index 3 ∈ writes twoRows 2 1 i) ∧
      ∃ t, fusedTopKUnder .inOrder twoRows #[.zero, ⟨0x3f800000⟩, .zero] 2 .standard = .ok t ∧
        fusedTopKUnder ⟨.backwards, fun _ => .backwards, fun _ _ => .backwards⟩ twoRows
          #[.zero, ⟨0x3f800000⟩, .zero] 2 .standard = .ok t := by
  obtain ⟨-, -, -, hwritten, answer, hanswer, hsome⟩ :=
    fusedTopKUnder_unscheduled twoRows #[.zero, ⟨0x3f800000⟩, .zero] 2 .standard
  obtain ⟨t, rfl⟩ := hsome rfl
  exact ⟨by decide, by decide, rfl, hwritten 3 (by decide), t, hanswer _, hanswer _⟩

end Selection

end NeighborSearch
