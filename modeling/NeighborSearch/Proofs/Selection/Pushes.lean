import NeighborSearch.Proofs.Selection.TopK

/-!
# Every column is pushed once

The columns of a row are divided among its lanes without a rest: each belongs to the lane that is
its quotient by the length of a lane (`Geometry.columns`), and all lanes together keep at least
as many candidates as are selected.

To see what the lanes push, they are run with operations that keep a record of it
(`Lane.runAllRecorded`). Apart from the record, they do the same work, and the record is known
beforehand (`Lane.Makes`): a lane pushes the candidates of its columns, one after the other, and
nothing else (`Lane.every_column_pushed_once`).
-/

namespace NeighborSearch

/-! ## The columns of a lane -/

namespace Geometry

variable {g : Geometry} {ncols k : ℕ}

/-- The columns of a lane in ascending order. -/
def columns (g : Geometry) (ncols lane : ℕ) : List ℕ :=
  (List.range ncols).filter (· / g.laneLen = lane)

/-- The columns of a lane follow each other. -/
theorem columns_eq_take_drop (hlen : 0 < g.laneLen) (ncols lane : ℕ) :
    g.columns ncols lane = ((List.range ncols).drop (g.laneLen * lane)).take g.laneLen := by
  have hsorted : (g.columns ncols lane).Pairwise (· < ·) := List.pairwise_lt_range.filter _
  have hsorted' : (((List.range ncols).drop (g.laneLen * lane)).take g.laneLen).Pairwise (· < ·) :=
    List.pairwise_lt_range.sublist ((List.take_sublist _ _).trans (List.drop_sublist _ _))
  refine List.Perm.eq_of_pairwise (fun a b _ _ hab hba => absurd hba hab.not_gt)
    hsorted hsorted' ?_
  refine (List.perm_ext_iff_of_nodup (hsorted.imp ne_of_lt) (hsorted'.imp ne_of_lt)).2 fun c => ?_
  have hdiv : c / g.laneLen = lane ↔ g.laneLen * lane ≤ c ∧ c < g.laneLen * lane + g.laneLen := by
    rw [Nat.div_eq_iff hlen, Nat.mul_comm lane]
    omega
  rw [columns, List.mem_filter, List.mem_range, decide_eq_true_iff, hdiv, List.take_drop,
    List.take_range, List.range_eq_range', List.drop_range', List.mem_range'_1]
  omega

theorem length_columns (hlen : 0 < g.laneLen) (ncols lane : ℕ) :
    (g.columns ncols lane).length = min g.laneLen (ncols - g.laneLen * lane) := by
  rw [columns_eq_take_drop hlen, List.length_take, List.length_drop, List.length_range]

/-- The share of a lane are the candidates of its columns. -/
theorem share_laneCandidates_eq_map (hlen : 0 < g.laneLen) {row bias : Array Single}
    (hrow : row.size = ncols) (hbias : bias.size = ncols) (lane : ℕ) :
    g.share (laneCandidates 0 row.toList bias.toList) lane =
      (g.columns ncols lane).map (Selection.candidateAt row bias) := by
  rw [share, Selection.laneCandidates_eq_map_range hrow hbias, columns_eq_take_drop hlen,
    List.map_take, List.map_drop]

/-- All lanes together have all columns. -/
theorem Fits.flatMap_columns (h : g.Fits ncols k) :
    (List.range g.lanes).flatMap (g.columns ncols) = List.range ncols := by
  have hpieces := flatMap_range_take_drop g.laneLen g.lanes (List.range ncols)
  rw [List.take_of_length_le (by rw [List.length_range]; exact h.le_laneLen_mul)] at hpieces
  rw [← hpieces]
  exact List.flatMap_congr fun lane _ => columns_eq_take_drop h.laneLen_pos ncols lane

/-- The heaps have room for as many candidates as are selected. -/
theorem Fits.le_capacity_mul_lanes (h : g.Fits ncols k) (hkn : k ≤ ncols) :
    k ≤ g.capacity * g.lanes := by
  rcases Nat.le_total k g.laneLen with hk | hk
  · rw [h.capacity_eq, Nat.min_eq_left hk]
    exact Nat.le_mul_of_pos_right k h.lanes_pos
  · rw [h.capacity_eq, Nat.min_eq_right hk]
    exact hkn.trans h.le_laneLen_mul

/-- All lanes together keep as many candidates as are selected. -/
theorem Fits.le_sum_kept (h : g.Fits ncols k) (hkn : k ≤ ncols) :
    k ≤ ((List.range g.lanes).map fun lane =>
      min g.capacity (g.columns ncols lane).length).sum := by
  rcases Nat.le_total k g.laneLen with hk | hk
  · -- The first lane has `k` columns and keeps as many.
    have hfirst : min g.capacity (g.columns ncols 0).length = k := by
      have := h.laneLen_le
      rw [length_columns h.laneLen_pos, h.capacity_eq]
      omega
    exact hfirst.symm.trans_le
      (List.le_sum_of_mem (List.mem_map.2 ⟨0, List.mem_range.2 h.lanes_pos, rfl⟩))
  · -- Every lane keeps all its columns.
    have hall : ∀ lane ∈ List.range g.lanes,
        min g.capacity (g.columns ncols lane).length = (g.columns ncols lane).length := by
      intro lane _
      rw [length_columns h.laneLen_pos, h.capacity_eq]
      omega
    rw [List.map_congr_left hall, ← List.length_flatMap, h.flatMap_columns, List.length_range]
    exact hkn

/-- Not more lanes are made than are asked for, nor more than there are columns. -/
theorem lanes_fit_le (k : ℕ) (config : LaunchConfig) (hncols : 0 < ncols) :
    (fit ncols k config).lanes ≤ min config.lanes.toNat ncols := by
  have hasked : 0 < min config.lanes.toNat ncols := by
    have := config.lanes.toNat_pos
    omega
  have hcover := le_mul_ceilDiv hasked ncols
  rw [← Nat.not_lt, fit, lt_ceilDiv_iff (ceilDiv_pos hasked hncols), Nat.mul_comm]
  exact hcover.not_gt

end Geometry

namespace Lane

/-! ## Pushes on record -/

/-- What is pushed: candidates, with the lanes whose heaps they are pushed into. -/
abbrev Pushes := List (ℕ × Candidate)

/-- Work that notes down what it pushes. -/
abbrev Recording := StateT Pushes (Except Fault)

variable {n : ℕ}

/-- Push a candidate into the heap of a lane. -/
def pushRecorded (lane : ℕ) (heap : BoundedHeap n) (c : Candidate) : Recording (BoundedHeap n) := do
  modify (· ++ [(lane, c)])
  return heap.push c

/-- The operations of a selection, with a record of the pushes. -/
def Operations.recorded : Operations Recording := ⟨standard.add, pushRecorded⟩

/-- The work of all lanes of a row, with a record of their pushes. -/
def runAllRecorded (g : Geometry) (row bias : Array Single) (order : List ℕ) :
    Scratch → Recording Scratch :=
  Operations.recorded.runAll g row bias order

/-- Apart from the record, `x` does what `y` does, and it pushes exactly `pushes` if it does not
    fail. -/
def Makes {α : Type} (x : Recording α) (y : Except Fault α) (pushes : Pushes) : Prop :=
  ∀ before, x.run before = (·, before ++ pushes) <$> y

namespace Makes

variable {α β : Type} {x : Recording α} {y : Except Fault α} {f : α → Recording β}
  {f' : α → Except Fault β} {pushes more : Pushes}

theorem pure (a : α) : Makes (Pure.pure a) (Pure.pure a) [] := by
  intro before
  rw [List.append_nil]
  rfl

theorem bind (hx : Makes x y pushes) (hf : ∀ a, y = .ok a → Makes (f a) (f' a) more) :
    Makes (x >>= f) (y >>= f') (pushes ++ more) := by
  intro before
  rw [StateT.run_bind, hx before]
  cases y with
  | error fault => rfl
  | ok a =>
    rw [← List.append_assoc]
    exact hf a rfl (before ++ pushes)

/-- Work without a heap pushes nothing. -/
theorem lift_bind (hf : ∀ a, y = .ok a → Makes (f a) (f' a) more) :
    Makes (liftM y >>= f) (y >>= f') more := by
  intro before
  cases y with
  | error fault => rfl
  | ok a => exact hf a rfl before

end Makes

/-! ## What is pushed -/

theorem makes_pushes (lane : ℕ) (offered : List Candidate) (heap : BoundedHeap n) :
    Makes (offered.foldlM (Operations.recorded.push lane) heap)
      (.ok (offered.foldl BoundedHeap.push heap)) (offered.map (lane, ·)) := by
  induction offered generalizing heap with
  | nil => exact .pure heap
  | cons c offered ih =>
    intro before
    have hrest := ih (heap.push c) (before ++ [(lane, c)])
    rw [List.append_assoc] at hrest
    exact hrest

variable {values bias : List Single}

/-- What is staged is read back. -/
theorem staged_eq_biased (hlen : values.length = bias.length) {staging written sums : Array Single}
    (hwrite : Buffer.write staging 0 (biased values bias) = .ok written)
    (hread : Buffer.slice written 0 values.length = .ok sums) :
    sums.toList = biased values bias := by
  have hsums : (biased values bias).length = values.length := by simp [hlen]
  obtain ⟨hfits, rfl⟩ := Buffer.write_eq_ok_iff.1 hwrite
  obtain ⟨-, rfl⟩ := Buffer.slice_eq_ok_iff.1 hread
  have hall := (Buffer.holds_overwrite hfits).toList_extract
  rwa [Nat.zero_add, hsums] at hall

theorem makes_takeTile (lane : ℕ) (s : State n) (hlen : values.length = bias.length) :
    Makes (Operations.recorded.takeTile lane s values bias)
      (Operations.standard.takeTile lane s values bias)
      ((candidatesFrom s.column (biased values bias)).map (lane, ·)) := by
  rw [takeTile_standard]
  obtain ⟨heap, staging, column⟩ := s
  have hsums : Operations.recorded.sums column values bias = biased values bias :=
    sums_standard column values bias
  rw [Operations.takeTile, hsums]
  refine .lift_bind fun written hwrite => .lift_bind fun sums hread => ?_
  rw [← staged_eq_biased hlen hwrite hread]
  intro before
  dsimp only
  rw [StateT.run_bind, makes_pushes lane _ heap before]
  rfl

theorem column_of_takeTile {lane : ℕ} {s t : State n} (hlen : values.length = bias.length)
    (ht : Operations.standard.takeTile lane s values bias = .ok t) :
    t.column = s.column + (biased values bias).length := by
  rw [takeTile_standard] at ht
  obtain ⟨heap, staging, column⟩ := s
  obtain ⟨written, hwrite, ht⟩ := bind_eq_ok_iff.1 ht
  obtain ⟨sums, hread, ht⟩ := bind_eq_ok_iff.1 ht
  obtain rfl := Except.ok.inj ht
  rw [← staged_eq_biased hlen hwrite hread]
  exact congrArg (column + ·) (length_candidatesFrom column _)

/-- Tile by tile, the candidates are numbered by their columns. -/
theorem makes_takeTiles (lane : ℕ) (s : State n) {tiles : List (List Single × List Single)}
    (htiles : ∀ p ∈ tiles, p.1.length = p.2.length) :
    Makes (Operations.recorded.takeTiles lane s tiles) (Operations.standard.takeTiles lane s tiles)
      ((candidatesFrom s.column (tiles.flatMap fun p => biased p.1 p.2)).map (lane, ·)) := by
  induction tiles generalizing s with
  | nil => exact .pure s
  | cons p tiles ih =>
    obtain ⟨hlen, htiles⟩ := List.forall_mem_cons.1 htiles
    rw [List.flatMap_cons, candidatesFrom_append, List.map_append]
    refine (makes_takeTile lane s hlen).bind fun t ht => ?_
    rw [← column_of_takeTile hlen ht]
    exact ih t htiles

/-- What a piece holds is cut out of the whole. -/
theorem toList_of_piece {α : Type} {width i : ℕ} {xs ys : Array α}
    (h : Buffer.piece width i xs = .ok ys) :
    ys.toList = (xs.toList.drop (width * i)).take width := by
  obtain ⟨-, rfl⟩ := Buffer.piece_eq_ok_iff.1 h
  rw [Array.toList_extract, List.extract_eq_take_drop, Nat.add_sub_cancel_left]

/-- A lane pushes its share of the candidates. -/
theorem makes_run {g : Geometry} (htile : 0 < g.tile) {row bias : Array Single}
    (hsize : row.size = bias.size) (lane : ℕ) (s : Scratch) :
    Makes (Operations.recorded.run g row bias lane s) (run g row bias lane s)
      ((g.share (laneCandidates 0 row.toList bias.toList) lane).map (lane, ·)) := by
  obtain ⟨staging, ⟨slots, lengths, reserved⟩, back⟩ := s
  refine .lift_bind fun values hvalues => .lift_bind fun laneBias hbias =>
    .lift_bind fun storage _ => .lift_bind fun staged _ => .lift_bind fun column hcolumn => ?_
  have hshare : g.share (laneCandidates 0 row.toList bias.toList) lane =
      candidatesFrom column (biased values.toList laneBias.toList) := by
    rw [Geometry.share_laneCandidates, ← toList_of_piece hvalues, ← toList_of_piece hbias,
      ← (Buffer.mul_eq_ok_iff.1 hcolumn).2, Nat.mul_comm]
    rfl
  have hlen : values.toList.length = laneBias.toList.length := by
    rw [toList_of_piece hvalues, toList_of_piece hbias]
    simp [hsize]
  rw [hshare, ← List.append_nil (List.map _ _), biased, ← flatMap_zipWith_chunks _ htile hlen]
  refine (makes_takeTiles lane _ fun p hp => ?_).bind fun done _ =>
    .lift_bind fun _ _ => .lift_bind fun _ _ => .lift_bind fun _ _ => .pure _
  exact (length_of_mem_zip_chunks hlen hp).1

/-- The lanes push their shares in the order in which they work. -/
theorem makes_runAll {g : Geometry} (htile : 0 < g.tile) {row bias : Array Single}
    (hsize : row.size = bias.size) (order : List ℕ) (s : Scratch) :
    Makes (runAllRecorded g row bias order s) (runAll g row bias order s)
      (order.flatMap fun lane =>
        (g.share (laneCandidates 0 row.toList bias.toList) lane).map (lane, ·)) := by
  refine .lift_bind fun front _ => ?_
  generalize { s with front } = s
  induction order generalizing s with
  | nil => exact .pure s
  | cons lane order ih => exact (makes_run htile hsize lane s).bind fun t _ => ih t

end Lane

/-! ## One push for every column -/

namespace Geometry

variable {g : Geometry} {ncols k : ℕ}

/-- What the lanes push in some order are the candidates of all columns, with their lanes. -/
theorem Fits.perm_pushes (h : g.Fits ncols k) (order : TaskOrder) (f : ℕ → Candidate) :
    ((order.tasks g.lanes).flatMap fun lane => (g.columns ncols lane).map fun c => (lane, f c)).Perm
      ((List.range ncols).map fun c => (c / g.laneLen, f c)) := by
  have hlane : ∀ lane, (g.columns ncols lane).map (fun c => (lane, f c)) =
      (g.columns ncols lane).map fun c => (c / g.laneLen, f c) := by
    intro lane
    refine List.map_congr_left fun c hc => ?_
    rw [decide_eq_true_iff.1 (List.mem_filter.1 hc).2]
  simp only [hlane]
  rw [← h.flatMap_columns, List.map_flatMap]
  exact (order.perm g.lanes).flatMap_right _

/-- The pushes into the heap of one lane are those of its columns, in their order. -/
theorem filter_pushes (order : TaskOrder) (f : ℕ → Candidate) {lane : ℕ} (hlane : lane < g.lanes) :
    ((order.tasks g.lanes).flatMap fun other =>
        (g.columns ncols other).map fun c => (other, f c)).filter (·.1 = lane) =
      (g.columns ncols lane).map fun c => (lane, f c) := by
  have hother : ∀ other, ((g.columns ncols other).map fun c => (other, f c)).filter (·.1 = lane) =
      if other = lane then (g.columns ncols lane).map fun c => (lane, f c) else [] := by
    intro other
    split
    case isTrue heq =>
      subst heq
      exact List.filter_eq_self.2 (by simp)
    case isFalse hne => exact List.filter_eq_nil_iff.2 (by simp [hne])
  rw [List.filter_flatMap]
  simp only [hother]
  -- The lane comes up once.
  obtain ⟨before, after, htasks⟩ := List.append_of_mem (order.mem_tasks.2 hlane)
  have hnodup := order.nodup_tasks g.lanes
  rw [htasks, List.nodup_append] at hnodup
  obtain ⟨-, hafter, hbefore⟩ := hnodup
  have hnone : ∀ others : List ℕ, lane ∉ others →
      (others.flatMap fun other =>
        if other = lane then (g.columns ncols lane).map fun c => (lane, f c) else []) = [] := by
    intro others hothers
    exact List.flatMap_eq_nil_iff.2 fun other hmem => if_neg (ne_of_mem_of_not_mem hmem hothers)
  rw [htasks, List.flatMap_append, List.flatMap_cons, if_pos rfl,
    hnone before fun hmem => hbefore lane hmem lane List.mem_cons_self rfl,
    hnone after (List.nodup_cons.1 hafter).1, List.nil_append, List.append_nil]

end Geometry

namespace Lane

/-- The geometry of a row partitions its columns, and the lanes push each of them once.

    Of a row of `ncols` columns, of which `k` are selected, there is at least one lane, and there
    are no more than asked for and no more than columns. The lanes but the last are full, the
    last one has a column and ends with the row; tiles and heaps have room for something, and for
    no more than a lane has. The columns of the lanes are those of the row, and all lanes together
    keep at least `k` candidates.

    In whatever order the lanes work, and whatever their memory holds, what they push is what
    they push on record. That is, for every column of the row, one candidate, of the sum and the
    number of the column, into the heap of the lane that is its quotient by the length of a lane;
    and into one heap the candidates are pushed in the order of their columns. The number of a
    column is read back from its candidate if the columns can be numbered in 32 bits. -/
theorem every_column_pushed_once (ncols k : ℕ) (config : LaunchConfig) (hk : 1 ≤ k)
    (hkn : k ≤ ncols) :
    let g := Geometry.fit ncols k config
    (1 ≤ g.lanes ∧ g.lanes ≤ min config.lanes.toNat ncols ∧ 1 ≤ g.laneLen ∧
      (g.lanes - 1) * g.laneLen < ncols ∧ ncols ≤ g.lanes * g.laneLen ∧
      1 ≤ g.tile ∧ g.tile ≤ min config.tile.toNat g.laneLen ∧
      1 ≤ g.capacity ∧ g.capacity ≤ min k g.laneLen ∧ k ≤ g.capacity * g.lanes ∧
      k ≤ ((List.range g.lanes).map fun lane =>
        min g.capacity (g.columns ncols lane).length).sum ∧
      (List.range g.lanes).flatMap (g.columns ncols) = List.range ncols) ∧
    ∀ (row bias : Array Single), row.size = ncols → bias.size = ncols → Size.FitsMemory ncols 4 →
      ∀ (order : TaskOrder) (s : Scratch), s.Fits g → ∃ t pushes,
        runAll g row bias (order.tasks g.lanes) s = .ok t ∧
        (runAllRecorded g row bias (order.tasks g.lanes) s).run [] = .ok (t, pushes) ∧
        pushes.Perm ((List.range ncols).map fun c =>
          (c / g.laneLen, Selection.candidateAt row bias c)) ∧
        (∀ lane < g.lanes, pushes.filter (·.1 = lane) =
          (g.columns ncols lane).map fun c => (lane, Selection.candidateAt row bias c)) ∧
        (ncols ≤ 2 ^ 32 →
          ∀ c < ncols, (Selection.candidateAt row bias c).index.toNat = c) := by
  intro g
  have hg : g.Fits ncols k := Geometry.fits_fit config hk hkn
  refine ⟨⟨hg.lanes_pos, Geometry.lanes_fit_le k config (by omega), hg.laneLen_pos, ?_, ?_,
    hg.tile_pos, le_rfl, hg.capacity_pos, le_rfl, hg.le_capacity_mul_lanes hkn,
    hg.le_sum_kept hkn, hg.flatMap_columns⟩, ?_⟩
  · have hpos := hg.lanes_pos
    rw [Nat.mul_comm]
    exact hg.laneLen_mul_lt (g.lanes - 1) (by omega)
  · rw [Nat.mul_comm]
    exact hg.le_laneLen_mul
  · intro row bias hrow hbias hmemory order s hs
    have hncols : 2 * ncols < Size.limit := by
      rw [Size.FitsMemory, Size.memoryLimit] at hmemory
      rw [Size.limit]
      omega
    obtain ⟨t, ht, -⟩ := runAll_eq_ok hg hrow hbias hncols order hs
    have hrecorded := makes_runAll hg.tile_pos (hrow.trans hbias.symm) (order.tasks g.lanes) s []
    have hshare := Geometry.share_laneCandidates_eq_map hg.laneLen_pos hrow hbias
    simp only [hshare, List.map_map, ht] at hrecorded
    refine ⟨t, _, ht, hrecorded, hg.perm_pushes order _, fun lane hlane =>
      Geometry.filter_pushes order _ hlane, fun hcols c hc => ?_⟩
    rw [Selection.candidateAt, Candidate.of, UInt32.toNat_ofNat_of_lt']
    exact hc.trans_le hcols

/-- Seven lanes, which take four columns at a time. -/
def sevenLanes : LaunchConfig where
  lanes := ⟨7, by decide⟩
  tile := ⟨4, by decide⟩
  rowsPerGroup := ⟨9, by decide⟩
  lanes_le := by decide
  tile_le := by decide

/-- Of 31 columns the last lane has one, and every other lane two tiles. -/
theorem pushes_sevenLanes :
    let g := Geometry.fit 31 6 sevenLanes
    g = ⟨7, 5, 4, 5⟩ ∧ ∃ s t pushes, Scratch.allocate g = .ok s ∧
      (runAllRecorded g (Array.replicate 31 .zero) (Array.replicate 31 .zero)
        (TaskOrder.backwards.tasks g.lanes) s).run [] = .ok (t, pushes) ∧
      pushes.filter (·.1 = 6) = [(6, .of (.zero + .zero) 30)] := by
  intro g
  obtain ⟨-, hpushes⟩ := every_column_pushed_once 31 6 sevenLanes (by decide) (by decide)
  obtain ⟨s, hs, hfits⟩ := (Geometry.fits_fit sevenLanes (by decide) (by decide) :
    g.Fits 31 6).exists_allocate (by decide)
  obtain ⟨t, pushes, -, hrecorded, -, hlane, -⟩ := hpushes (Array.replicate 31 .zero)
    (Array.replicate 31 .zero) rfl rfl (by decide) .backwards s hfits
  exact ⟨rfl, s, t, pushes, hs, hrecorded, (hlane 6 (by decide)).trans rfl⟩

end Lane

end NeighborSearch
