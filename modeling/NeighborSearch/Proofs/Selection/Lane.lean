import NeighborSearch.Proofs.Chunk
import NeighborSearch.Proofs.Selection.Geometry
import NeighborSearch.Proofs.Selection.Heap
import NeighborSearch.Proofs.TaskOrder
import NeighborSearch.Selection.Lane

/-!
# What the lanes leave

The candidates of a row fall into *shares*, one for every lane. Tile by tile, a lane
offers its share to its heap, each candidate with its own column (`run_eq_ok`), and
leaves the smallest of them as its run. The lanes write beside each other, so in
whatever order they work, all runs are there in the end (`runAll_eq_ok`).
-/

namespace NeighborSearch

/-! ## Shares of a row -/

theorem getElem?_candidatesFrom (column : ℕ) (sums : List Single) (i : ℕ) :
    (candidatesFrom column sums)[i]? = sums[i]?.map (.of · (UInt32.ofNat (column + i))) := by
  rw [candidatesFrom, List.getElem?_map, List.getElem?_zipIdx, Option.map_map, Nat.zero_add]
  rfl

@[simp] theorem length_candidatesFrom (column : ℕ) (sums : List Single) :
    (candidatesFrom column sums).length = sums.length := by
  simp [candidatesFrom]

@[simp] theorem length_biased (values bias : List Single) :
    (biased values bias).length = min values.length bias.length :=
  List.length_zipWith

theorem drop_candidatesFrom (column m : ℕ) (sums : List Single) :
    (candidatesFrom column sums).drop m = candidatesFrom (column + m) (sums.drop m) := by
  apply List.ext_getElem?
  intro i
  rw [List.getElem?_drop, getElem?_candidatesFrom, getElem?_candidatesFrom, List.getElem?_drop,
    Nat.add_assoc]

theorem take_candidatesFrom (column m : ℕ) (sums : List Single) :
    (candidatesFrom column sums).take m = candidatesFrom column (sums.take m) := by
  apply List.ext_getElem?
  intro i
  rw [List.getElem?_take, getElem?_candidatesFrom, getElem?_candidatesFrom, List.getElem?_take]
  split <;> rfl

theorem candidatesFrom_append (column : ℕ) (sums sums' : List Single) :
    candidatesFrom column (sums ++ sums') =
      candidatesFrom column sums ++ candidatesFrom (column + sums.length) sums' := by
  rw [← List.take_append_drop sums.length (candidatesFrom column _), take_candidatesFrom,
    drop_candidatesFrom, List.take_left, List.drop_left]

/-- The part of the candidates of a row that belongs to a lane. -/
def Geometry.share (g : Geometry) (candidates : List Candidate) (lane : ℕ) : List Candidate :=
  (candidates.drop (g.laneLen * lane)).take g.laneLen

/-- The shares of all lanes. -/
def Geometry.shares (g : Geometry) (candidates : List Candidate) : List (List Candidate) :=
  (List.range g.lanes).map (g.share candidates)

@[simp] theorem Geometry.length_shares (g : Geometry) (candidates : List Candidate) :
    (g.shares candidates).length = g.lanes := by
  rw [shares, List.length_map, List.length_range]

/-- The share of a lane is made of its own values, with its own columns. -/
theorem Geometry.share_laneCandidates (g : Geometry) (row bias : List Single) (lane : ℕ) :
    g.share (laneCandidates 0 row bias) lane =
      laneCandidates (g.laneLen * lane) ((row.drop (g.laneLen * lane)).take g.laneLen)
        ((bias.drop (g.laneLen * lane)).take g.laneLen) := by
  rw [share, laneCandidates, drop_candidatesFrom, take_candidatesFrom, Nat.zero_add, biased,
    List.drop_zipWith, List.take_zipWith]
  rfl

/-- Together the shares are the candidates of the row. -/
theorem Geometry.Fits.flatten_shares {g : Geometry} {ncols k : ℕ} (h : g.Fits ncols k)
    {candidates : List Candidate} (hlen : candidates.length ≤ ncols) :
    (g.shares candidates).flatten = candidates := by
  rw [Geometry.shares, ← List.flatMap_def]
  exact (flatMap_range_take_drop g.laneLen g.lanes candidates).trans
    (List.take_of_length_le (hlen.trans h.le_laneLen_mul))

/-- A lane has room for as many of its share as the row needs. -/
theorem Geometry.Fits.smallest_share {g : Geometry} {ncols k : ℕ} (h : g.Fits ncols k)
    (candidates : List Candidate) (lane : ℕ) :
    smallest g.capacity (g.share candidates lane) = smallest k (g.share candidates lane) := by
  have hlen : (g.share candidates lane).length ≤ g.laneLen := by
    rw [share, List.length_take]
    exact Nat.min_le_left _ _
  rw [h.capacity_eq]
  rcases Nat.le_total k g.laneLen with hk | hk
  · rw [Nat.min_eq_left hk]
  · rw [Nat.min_eq_right hk]
    exact smallest_of_length_le hlen (hlen.trans hk)

namespace Lane

/-! ## Tiles -/

variable {n : ℕ}

@[simp] theorem sums_standard (column : ℕ) (values bias : List Single) :
    Operations.standard.sums column values bias = biased values bias := by
  have hvalues : (values.zipIdx column).map Prod.fst = values := List.zipIdx_map_fst column values
  conv_rhs => rw [← hvalues, biased, List.zipWith_map_left]
  rfl

/-- In a selection nothing comes of the pushes but what becomes of the heap. -/
theorem takeTile_standard (lane : ℕ) (s : State n) (values bias : List Single) :
    Operations.standard.takeTile lane s values bias = do
      let staging ← Buffer.write s.staging 0 (biased values bias)
      let sums ← Buffer.slice staging 0 values.length
      let offered := candidatesFrom s.column sums.toList
      return ⟨offered.foldl BoundedHeap.push s.heap, staging, s.column + offered.length⟩ := by
  have hpushes : ∀ offered : List Candidate,
      offered.foldlM (Operations.standard.push lane) s.heap =
        .ok (offered.foldl BoundedHeap.push s.heap) := fun _ => List.foldlM_pure
  rw [← sums_standard s.column]
  obtain ⟨heap, staging, column⟩ := s
  simp only [Operations.takeTile, hpushes]
  rfl

theorem takeTile_eq_ok (lane : ℕ) (s : State n) {values bias : List Single}
    (hlen : values.length = bias.length) (hfits : values.length ≤ s.staging.size) :
    ∃ staging : Array Single, staging.size = s.staging.size ∧
      Operations.standard.takeTile lane s values bias =
        .ok ⟨(candidatesFrom s.column (biased values bias)).foldl BoundedHeap.push s.heap, staging,
          s.column + (biased values bias).length⟩ := by
  obtain ⟨heap, staging, column⟩ := s
  have hsums : (biased values bias).length = values.length := by simp [hlen]
  have hwrite : 0 + (biased values bias).length ≤ staging.size := by
    rw [hsums, Nat.zero_add]
    exact hfits
  refine ⟨Buffer.overwrite staging 0 (biased values bias), by simp, ?_⟩
  have hread := (Buffer.holds_overwrite hwrite).toList_extract
  rw [Nat.zero_add, hsums] at hread
  rw [takeTile_standard, Buffer.write_eq_ok hwrite, ok_bind,
    Buffer.slice_eq_ok (Nat.zero_le _) (by simpa using hfits), ok_bind, hread]
  simp only [length_candidatesFrom]
  rfl

/-- Tile by tile, the heap is offered all sums, numbered by their columns. -/
theorem takeTiles_eq_ok (lane : ℕ) (s : State n) {tiles : List (List Single × List Single)}
    (htiles : ∀ p ∈ tiles, p.1.length = p.2.length ∧ p.1.length ≤ s.staging.size) :
    ∃ t : State n, Operations.standard.takeTiles lane s tiles = .ok t ∧
      t.staging.size = s.staging.size ∧
      t.heap = (candidatesFrom s.column (tiles.flatMap fun p => biased p.1 p.2)).foldl
        BoundedHeap.push s.heap := by
  induction tiles generalizing s with
  | nil => exact ⟨s, rfl, rfl, rfl⟩
  | cons p tiles ih =>
    obtain ⟨hlen, hfits⟩ := htiles p List.mem_cons_self
    obtain ⟨staging, hstaging, htile⟩ := takeTile_eq_ok lane s hlen hfits
    obtain ⟨t, ht, hsize, hheap⟩ := ih
      ⟨(candidatesFrom s.column (biased p.1 p.2)).foldl BoundedHeap.push s.heap, staging,
        s.column + (biased p.1 p.2).length⟩
      fun q hq => hstaging ▸ htiles q (List.mem_cons_of_mem _ hq)
    refine ⟨t, ?_, hsize.trans hstaging, ?_⟩
    · rw [Operations.takeTiles, htile]
      exact ht
    · rw [hheap, List.flatMap_cons, candidatesFrom_append, List.foldl_append]

/-! ## Lanes -/

theorem length_sortedSlots (h : BoundedHeap n) : h.sortedSlots.length = n := by
  have hsorted : h.sorted.length = h.size := by
    rw [BoundedHeap.sorted, Candidate.sort, List.length_mergeSort, h.length_toList]
  rw [BoundedHeap.sortedSlots, List.length_append, hsorted, List.length_drop,
    Vector.length_toList]
  have := h.size_le
  omega

variable {g : Geometry} {ncols k : ℕ} {row bias : Array Single}

/-- The run that a lane has to leave. -/
def Leaves (g : Geometry) (k : ℕ) (row bias : Array Single) (lane : ℕ) (s : Scratch) : Prop :=
  s.front.Holds g.capacity lane
    (smallest k (g.share (laneCandidates 0 row.toList bias.toList) lane))

/-- The heap of a lane ends up with the smallest candidates of its share. -/
theorem exists_takeTiles_eq_ok (hg : g.Fits ncols k) (hrow : row.size = ncols)
    (hbias : bias.size = ncols) (lane : ℕ) {staging : Array Single}
    (hstaging : staging.size = g.tile) {storage : Array Candidate}
    (hstorage : storage.size = g.capacity) :
    ∃ t : State storage.size,
      Operations.standard.takeTiles lane ⟨.empty storage.toVector, staging, lane * g.laneLen⟩
        ((chunks g.tile (row.extract (g.laneLen * lane) (g.laneLen * lane + g.laneLen)).toList).zip
          (chunks g.tile (bias.extract (g.laneLen * lane) (g.laneLen * lane + g.laneLen)).toList)) =
        .ok t ∧ t.staging.size = g.tile ∧ t.heap.sorted =
          smallest k (g.share (laneCandidates 0 row.toList bias.toList) lane) ∧
        t.heap.size = t.heap.sorted.length := by
  have hslice : ∀ xs : Array Single,
      (xs.extract (g.laneLen * lane) (g.laneLen * lane + g.laneLen)).toList =
        (xs.toList.drop (g.laneLen * lane)).take g.laneLen := by
    intro xs
    rw [Array.toList_extract, List.extract_eq_take_drop, Nat.add_sub_cancel_left]
  have hlen : ((row.toList.drop (g.laneLen * lane)).take g.laneLen).length =
      ((bias.toList.drop (g.laneLen * lane)).take g.laneLen).length := by
    simp [hrow, hbias]
  rw [hslice, hslice]
  obtain ⟨t, ht, hsize, hheap⟩ := takeTiles_eq_ok lane
    (⟨.empty storage.toVector, staging, lane * g.laneLen⟩ : State storage.size)
    fun p hp => hstaging ▸ length_of_mem_zip_chunks hlen hp
  have hoffered := flatMap_zipWith_chunks (fun x y : Single => x + y) hg.tile_pos hlen
  have hkeeps := (BoundedHeap.keeps_empty storage.toVector).foldl_push
    (laneCandidates (g.laneLen * lane) ((row.toList.drop (g.laneLen * lane)).take g.laneLen)
      ((bias.toList.drop (g.laneLen * lane)).take g.laneLen))
  rw [List.nil_append, ← Geometry.share_laneCandidates] at hkeeps
  -- Tile by tile, the heap was offered the share of the lane.
  have heq : t.heap = (g.share (laneCandidates 0 row.toList bias.toList) lane).foldl
      BoundedHeap.push (.empty storage.toVector) := by
    rw [hheap, Geometry.share_laneCandidates, laneCandidates, Nat.mul_comm lane]
    exact congrArg (fun sums => (candidatesFrom _ sums).foldl _ _) hoffered
  rw [← heq] at hkeeps
  refine ⟨t, ht, hsize.trans hstaging, ?_, ?_⟩
  · rw [hkeeps.sorted_eq, hstorage]
    exact hg.smallest_share _ _
  · rw [hkeeps.sorted_eq, hkeeps.size_eq, length_smallest]

/-- While lanes are at work: the memory fits, and there is a place for the length of every
    run. -/
structure Ready (g : Geometry) (s : Scratch) : Prop where
  fits : s.Fits g
  lengths : s.front.lengths.size = g.lanes

theorem run_def (g : Geometry) (row bias : Array Single) (i : ℕ) (staging : Array Single)
    (slots : Array Candidate) (lengths : Array ℕ) (reserved : ℕ) (back : RunBuffer) :
    run g row bias i ⟨staging, ⟨slots, lengths, reserved⟩, back⟩ = do
      let values ← Buffer.piece g.laneLen i row
      let laneBias ← Buffer.piece g.laneLen i bias
      let storage ← Buffer.piece g.capacity i slots
      let staged ← Buffer.piece g.tile i staging
      let column ← Buffer.mul i g.laneLen
      let tiles := (chunks g.tile values.toList).zip (chunks g.tile laneBias.toList)
      let done ← Operations.standard.takeTiles i ⟨.empty storage.toVector, staged, column⟩ tiles
      let slots ← Buffer.write slots (g.capacity * i) done.heap.sortedSlots
      let lengths ← Buffer.setEntry lengths i done.heap.size
      let staging ← Buffer.write staging (g.tile * i) done.staging.toList
      return ⟨staging, ⟨slots, lengths, reserved⟩, back⟩ := rfl

/-- A lane leaves its run, and the runs of other lanes as they are. -/
theorem run_eq_ok (hg : g.Fits ncols k) (hrow : row.size = ncols) (hbias : bias.size = ncols)
    (hncols : 2 * ncols < Size.limit) {s : Scratch} {lane : ℕ} (hlane : lane < g.lanes)
    (hs : Ready g s) :
    ∃ t, run g row bias lane s = .ok t ∧ Ready g t ∧ Leaves g k row bias lane t ∧
      ∀ other, other ≠ lane → Leaves g k row bias other s → Leaves g k row bias other t := by
  obtain ⟨staging, ⟨slots, lengths, reserved⟩, back⟩ := s
  obtain ⟨⟨hstagingSize, hslotsSize, hback, hreserved, hbackReserved⟩, hlengths⟩ := hs
  simp only at hstagingSize hslotsSize hback hreserved hbackReserved hlengths
  -- The pieces of the lane lie within the buffers.
  have hcolumns := hg.laneLen_mul_lt lane hlane
  have hslot : g.capacity * lane + g.capacity ≤ slots.size := by
    rw [hslotsSize, Nat.mul_comm g.lanes, ← Nat.mul_succ]
    exact Nat.mul_le_mul_left _ hlane
  have htile : g.tile * lane + g.tile ≤ staging.size := by
    rw [hstagingSize, Nat.mul_comm g.lanes, ← Nat.mul_succ]
    exact Nat.mul_le_mul_left _ hlane
  have hcapacity := hg.capacity_pos
  have hwidth := hg.tile_pos
  have hstorage : (slots.extract (g.capacity * lane) (g.capacity * lane + g.capacity)).size =
      g.capacity := by
    rw [Array.size_extract, Nat.min_eq_left hslot, Nat.add_sub_cancel_left]
  have hstaged : (staging.extract (g.tile * lane) (g.tile * lane + g.tile)).size = g.tile := by
    rw [Array.size_extract, Nat.min_eq_left htile, Nat.add_sub_cancel_left]
  obtain ⟨t, ht, htSize, hsorted, hsize⟩ :=
    exists_takeTiles_eq_ok hg hrow hbias lane hstaged hstorage
  have hsortedLength := length_sortedSlots t.heap
  have hrunLength : t.heap.sorted.length ≤ g.capacity := by
    have := t.heap.size_le
    omega
  have hwrite : g.capacity * lane + t.heap.sortedSlots.length ≤ slots.size := by omega
  have hstage : g.tile * lane + t.staging.toList.length ≤ staging.size := by
    rw [Array.length_toList]
    omega
  refine ⟨⟨Buffer.overwrite staging (g.tile * lane) t.staging.toList,
    ⟨Buffer.overwrite slots (g.capacity * lane) t.heap.sortedSlots,
      lengths.set lane t.heap.size, reserved⟩, back⟩, ?_, ?_, ?_, ?_⟩
  · rw [run_def, Buffer.piece_eq_ok (by omega), ok_bind, Buffer.piece_eq_ok (by omega), ok_bind,
      Buffer.piece_eq_ok (by omega), ok_bind, Buffer.piece_eq_ok (by omega), ok_bind,
      Buffer.mul_eq_ok (by rw [Nat.mul_comm]; omega), ok_bind]
    simp only [ht, ok_bind, Buffer.write_eq_ok hwrite, Buffer.write_eq_ok hstage,
      Buffer.setEntry_eq_ok (hlengths ▸ hlane)]
    rfl
  · exact ⟨⟨by simpa using hstagingSize, by simpa using hslotsSize, hback, hreserved,
      hbackReserved⟩, by simpa using hlengths⟩
  · rw [Leaves, ← hsorted]
    refine ⟨?_, hrunLength, ?_⟩
    · rw [Array.getElem?_set_self, hsize]
    · exact (Buffer.holds_overwrite hwrite).append_left
  · intro other hne hother
    exact hother.write hne (by omega) hwrite (hlengths ▸ hlane)

/-- In whatever order the lanes of a row work, they leave the smallest candidates of all
    shares. -/
theorem runAll_eq_ok (hg : g.Fits ncols k) (hrow : row.size = ncols) (hbias : bias.size = ncols)
    (hncols : 2 * ncols < Size.limit) (order : TaskOrder) {s : Scratch} (hs : s.Fits g) :
    ∃ t, runAll g row bias (order.tasks g.lanes) s = .ok t ∧ t.Fits g ∧
      t.front.HoldsAll g.capacity
        ((g.shares (laneCandidates 0 row.toList bias.toList)).map (smallest k)) := by
  have hstart : Ready g { s with front := { s.front with lengths := Array.replicate g.lanes 0 } } :=
    ⟨⟨hs.staging, hs.front, hs.back, hs.front_reserved, hs.back_reserved⟩, Array.size_replicate⟩
  have hstep : ∀ s lane, lane < g.lanes → Ready g s → ∃ t, run g row bias lane s = .ok t ∧
      Ready g t ∧ Leaves g k row bias lane t ∧
        ∀ other, other ≠ lane → Leaves g k row bias other s → Leaves g k row bias other t :=
    fun s lane hlane hs => run_eq_ok hg hrow hbias hncols hlane hs
  obtain ⟨t, ht, hready, hleaves⟩ := order.exists_foldlM_eq_ok hstep hstart
  refine ⟨t, ?_, hready.fits, ?_, ?_⟩
  · rw [runAll, Operations.runAll, RunBuffer.reset, if_pos hs.front_reserved.ge]
    exact ht
  · simpa using hready.lengths
  · intro lane hlane
    have := hleaves lane (by simpa using hlane)
    simpa [Leaves, Geometry.shares] using this

end Lane

end NeighborSearch
