import NeighborSearch.Proofs.Footprint
import NeighborSearch.Proofs.Selection.Lane
import NeighborSearch.Proofs.Selection.Merge

/-!
# Where lanes and merges read and write

Every lane of a row has a piece of the staging memory, a piece of the front buffer and a
place for the length of its run (`Lane.writes`). Every merge of a level reads a piece of
the buffer that the level takes its runs from, and has a piece of the buffer that it leaves
them in (`Merge.reads`, `Merge.writes`). None reads what another one of its kind writes:
they are independent (`Lane.independent`, `Merge.independent`).
-/

namespace NeighborSearch

variable {α : Type} {n i j : ℕ}

/-! ## Pieces of buffers -/

/-- The number of an entry of piece `i`, of the pieces of `n` entries that a buffer is cut
    into. -/
def InPiece (n i p : ℕ) : Prop := n * i ≤ p ∧ p < n * i + n

/-- No entry is in two pieces. -/
theorem InPiece.unique {p : ℕ} (hi : InPiece n i p) (hj : InPiece n j p) : i = j := by
  obtain ⟨hi, hi'⟩ := hi
  obtain ⟨hj, hj'⟩ := hj
  rw [← Nat.mul_succ] at hi' hj'
  have hij := Nat.lt_of_mul_lt_mul_left (hi.trans_lt hj')
  have hji := Nat.lt_of_mul_lt_mul_left (hj.trans_lt hi')
  omega

namespace Buffer

variable {xs ys zs : Array α} {start : ℕ} {entries : List α} {x : α}

/-- A piece is the same in buffers that agree on its entries. -/
theorem piece_congr (hsize : ys.size = xs.size) (h : ∀ p, InPiece n i p → ys[p]? = xs[p]?) :
    piece n i ys = piece n i xs := by
  have hextract : ys.extract (n * i) (n * i + n) = xs.extract (n * i) (n * i + n) := by
    apply Array.ext_getElem?
    intro p
    rw [Array.getElem?_extract, Array.getElem?_extract, hsize]
    split
    case isTrue hp => exact h _ ⟨by omega, by omega⟩
    case isFalse => rfl
  rw [piece, piece, hsize, hextract]

theorem size_of_piece (h : piece n i xs = .ok ys) : ys.size ≤ n := by
  obtain ⟨-, rfl⟩ := piece_eq_ok_iff.1 h
  rw [size_piece]
  exact Nat.min_le_left _ _

theorem size_of_write (h : write xs start entries = .ok ys) : ys.size = xs.size := by
  obtain ⟨-, rfl⟩ := write_eq_ok_iff.1 h
  exact size_overwrite _ _ _

theorem size_of_setEntry (h : setEntry xs i x = .ok ys) : ys.size = xs.size := by
  obtain ⟨hi, rfl⟩ := setEntry_eq_ok_iff.1 h
  exact Array.size_set hi

/-- Entries elsewhere than those that are written stay. -/
theorem getElem?_of_write (h : write xs start entries = .ok ys) {p : ℕ}
    (hp : ¬(start ≤ p ∧ p < start + entries.length)) : ys[p]? = xs[p]? := by
  obtain ⟨hfits, rfl⟩ := write_eq_ok_iff.1 h
  rw [getElem?_overwrite hfits, if_neg hp]

theorem getElem?_of_setEntry (h : setEntry xs i x = .ok ys) {p : ℕ} (hp : p ≠ i) :
    ys[p]? = xs[p]? := by
  obtain ⟨hi, rfl⟩ := setEntry_eq_ok_iff.1 h
  exact Array.getElem?_set_ne hi hp.symm

/-- What can be written to a buffer can be written to another one of its size, and leaves
    the same where it is written, or where the buffers agree. -/
theorem exists_write (h : write xs start entries = .ok ys) (hsize : zs.size = xs.size) :
    ∃ ys', write zs start entries = .ok ys' ∧ ∀ p : ℕ,
      ((start ≤ p ∧ p < start + entries.length) ∨ zs[p]? = xs[p]?) → ys'[p]? = ys[p]? := by
  obtain ⟨hfits, rfl⟩ := write_eq_ok_iff.1 h
  refine ⟨_, write_eq_ok (hsize ▸ hfits), fun p hp => ?_⟩
  rw [getElem?_overwrite hfits, getElem?_overwrite (hsize ▸ hfits)]
  split
  case isTrue => rfl
  case isFalse hout => exact hp.resolve_left hout

theorem exists_setEntry (h : setEntry xs i x = .ok ys) (hsize : zs.size = xs.size) :
    ∃ ys', setEntry zs i x = .ok ys' ∧ ys'[i]? = ys[i]? := by
  obtain ⟨hi, rfl⟩ := setEntry_eq_ok_iff.1 h
  refine ⟨_, setEntry_eq_ok (hsize ▸ hi), ?_⟩
  rw [Array.getElem?_set_self, Array.getElem?_set_self]

end Buffer

/-! ## Lanes -/

namespace Scratch

/-- The places of the working memory of a row. -/
inductive Place
  /-- An entry of the staging memory. -/
  | staging (p : ℕ)
  /-- A slot of the buffer that the lanes leave their runs in. -/
  | front (p : ℕ)
  /-- The length of a run in that buffer. -/
  | runs (p : ℕ)
  /-- A slot of the other buffer. -/
  | back (p : ℕ)
  /-- The length of a run in the other buffer. -/
  | nextRuns (p : ℕ)
  /-- How large everything is. -/
  | extents

/-- What is in a place. -/
def Content : Place → Type
  | .staging _ => Option Single
  | .front _ | .back _ => Option Candidate
  | .runs _ | .nextRuns _ => Option ℕ
  | .extents => List ℕ

/-- How large everything is. -/
def extents (s : Scratch) : List ℕ :=
  [s.staging.size, s.front.slots.size, s.front.lengths.size, s.front.reserved, s.back.slots.size,
    s.back.lengths.size, s.back.reserved]

/-- Look what is in a place. -/
def look (s : Scratch) : (place : Place) → Content place
  | .staging p => s.staging[p]?
  | .front p => s.front.slots[p]?
  | .runs p => s.front.lengths[p]?
  | .back p => s.back.slots[p]?
  | .nextRuns p => s.back.lengths[p]?
  | .extents => s.extents

/-- There is nothing else in the working memory. -/
theorem ext_look {s t : Scratch} (h : ∀ place, s.look place = t.look place) : s = t := by
  have hextents : s.extents = t.extents := h .extents
  obtain ⟨staging, ⟨slots, lengths, reserved⟩, ⟨slots', lengths', reserved'⟩⟩ := s
  obtain ⟨staging₁, ⟨slots₁, lengths₁, reserved₁⟩, ⟨slots₁', lengths₁', reserved₁'⟩⟩ := t
  obtain rfl : staging = staging₁ := Array.ext_getElem? fun p => h (.staging p)
  obtain rfl : slots = slots₁ := Array.ext_getElem? fun p => h (.front p)
  obtain rfl : lengths = lengths₁ := Array.ext_getElem? fun p => h (.runs p)
  obtain rfl : slots' = slots₁' := Array.ext_getElem? fun p => h (.back p)
  obtain rfl : lengths' = lengths₁' := Array.ext_getElem? fun p => h (.nextRuns p)
  simp only [extents, List.cons.injEq, true_and, and_true] at hextents
  obtain ⟨rfl, rfl⟩ := hextents
  rfl

end Scratch

namespace Lane

variable {g : Geometry} {row bias : Array Single}

/-- Where lane `i` writes: its pieces of the staging memory and of the front buffer, and the
    length of its run. -/
def writes (g : Geometry) (i : ℕ) : Set Scratch.Place := {place | match place with
  | .staging p => InPiece g.tile i p
  | .front p => InPiece g.capacity i p
  | .runs p => p = i
  | .back _ | .nextRuns _ | .extents => False}

/-- Where lane `i` reads, apart from the row and the bias. -/
def reads (g : Geometry) (i : ℕ) : Set Scratch.Place :=
  {place | place ∈ writes g i ∨ place = .extents}

theorem size_staging_of_takeTile {n : ℕ} {s t : State n} {values bias : List Single}
    (h : Operations.standard.takeTile i s values bias = .ok t) :
    t.staging.size = s.staging.size := by
  simp only [takeTile_standard, bind_eq_ok_iff] at h
  obtain ⟨staging, hstaging, sums, -, ht⟩ := h
  obtain rfl := Except.ok.inj ht
  exact Buffer.size_of_write hstaging

theorem size_staging_of_takeTiles {n : ℕ} {s t : State n} {tiles : List (List Single × List Single)}
    (h : Operations.standard.takeTiles i s tiles = .ok t) :
    t.staging.size = s.staging.size := by
  induction tiles generalizing s with
  | nil => rw [Except.ok.inj h]
  | cons tile tiles ih =>
    simp only [Operations.takeTiles, bind_eq_ok_iff] at h
    obtain ⟨u, hu, ht⟩ := h
    rw [ih ht, size_staging_of_takeTile hu]

/-- A lane keeps to its pieces. -/
theorem confined (g : Geometry) (row bias : Array Single) (i : ℕ) :
    Confined Scratch.look (reads g i) (writes g i) (run g row bias i) := by
  constructor
  case frame =>
    rintro ⟨staging, ⟨slots, lengths, reserved⟩, back⟩ t h place hplace
    simp only [run_def, bind_eq_ok_iff] at h
    obtain ⟨values, -, laneBias, -, storage, hstorage, staged, hstaged, column, -, done, hdone,
      slots', hslots, lengths', hlengths, staging', hstaging, ht⟩ := h
    obtain rfl := Except.ok.inj ht
    have hrun := length_sortedSlots done.heap
    have htile : done.staging.size = staged.size := size_staging_of_takeTiles hdone
    have hcapacity := Buffer.size_of_piece hstorage
    have hwidth := Buffer.size_of_piece hstaged
    cases place with
    | staging p =>
      refine Buffer.getElem?_of_write hstaging fun hp => hplace ⟨hp.1, ?_⟩
      have := hp.2
      rw [Array.length_toList] at this
      omega
    | front p => exact Buffer.getElem?_of_write hslots fun hp => hplace ⟨hp.1, by omega⟩
    | runs p => exact Buffer.getElem?_of_setEntry hlengths hplace
    | back p | nextRuns p => rfl
    | extents =>
      simp only [Scratch.look, Scratch.extents, Buffer.size_of_write hstaging,
        Buffer.size_of_write hslots, Buffer.size_of_setEntry hlengths]
      rfl
  case depends =>
    rintro ⟨staging, ⟨slots, lengths, reserved⟩, back⟩
      ⟨staging₁, ⟨slots₁, lengths₁, reserved₁⟩, back₁⟩ t hsame h
    simp only [run_def, bind_eq_ok_iff] at h
    obtain ⟨values, hvalues, laneBias, hlaneBias, storage, hstorage, staged, hstaged, column,
      hcolumn, done, hdone, slots', hslots, lengths', hlengths, staging', hstaging, ht⟩ := h
    obtain rfl := Except.ok.inj ht
    have hextents : Scratch.extents _ = Scratch.extents _ := hsame .extents (.inr rfl)
    simp only [Scratch.extents, List.cons.injEq] at hextents
    obtain ⟨hstagingSize, hslotsSize, hlengthsSize, -⟩ := hextents
    have hownStaging : ∀ p, InPiece g.tile i p → staging₁[p]? = staging[p]? :=
      fun p hp => hsame (.staging p) (.inl hp)
    have hownSlots : ∀ p, InPiece g.capacity i p → slots₁[p]? = slots[p]? :=
      fun p hp => hsame (.front p) (.inl hp)
    obtain ⟨slots₂, hslots₂, hslotsSame⟩ := Buffer.exists_write hslots hslotsSize
    obtain ⟨lengths₂, hlengths₂, hlengthsSame⟩ := Buffer.exists_setEntry hlengths hlengthsSize
    obtain ⟨staging₂, hstaging₂, hstagingSame⟩ := Buffer.exists_write hstaging hstagingSize
    refine ⟨⟨staging₂, ⟨slots₂, lengths₂, reserved₁⟩, back₁⟩, ?_, fun place hplace => ?_⟩
    · simp only [run_def, bind_eq_ok_iff]
      exact ⟨values, hvalues, laneBias, hlaneBias, storage,
        (Buffer.piece_congr hslotsSize hownSlots).trans hstorage, staged,
        (Buffer.piece_congr hstagingSize hownStaging).trans hstaged, column, hcolumn, done, hdone,
        slots₂, hslots₂, lengths₂, hlengths₂, staging₂, hstaging₂, rfl⟩
    · cases place with
      | staging p => exact hstagingSame p (.inr (hownStaging p hplace))
      | front p => exact hslotsSame p (.inr (hownSlots p hplace))
      | runs p =>
        obtain rfl : p = i := hplace
        exact hlengthsSame
      | back p | nextRuns p | extents => exact absurd hplace id

/-- No place belongs to two lanes. -/
theorem writes_unique {place : Scratch.Place} (hi : place ∈ writes g i) (hj : place ∈ writes g j) :
    i = j := by
  cases place with
  | staging p | front p => exact InPiece.unique hi hj
  | runs p => exact hi.symm.trans hj
  | back p | nextRuns p | extents => exact absurd hi id

/-- The lanes of a row are independent. -/
theorem independent (g : Geometry) (row bias : Array Single) :
    Independent Scratch.look (reads g) (writes g) fun s i => run g row bias i s := by
  refine ⟨confined g row bias, fun i j hij => ?_, fun i j hij => ?_⟩
  · exact fun place hi hj => hij (writes_unique hi hj)
  · rintro place (hi | rfl) hj
    · exact hij (writes_unique hi hj)
    · exact hj

/-- In whatever order the lanes of a row work, they leave the same. -/
theorem alike_runAll (order order' : TaskOrder) (s : Scratch) :
    Alike (runAll g row bias (order.tasks g.lanes) s)
      (runAll g row bias (order'.tasks g.lanes) s) := by
  rw [runAll, runAll, Operations.runAll, Operations.runAll]
  refine (Alike.refl _).bind fun front => ?_
  exact (independent g row bias).alike_foldlM (fun _ _ => Scratch.ext_look)
    ((order.perm _).trans (order'.perm _).symm) (order.nodup_tasks _) _

end Lane

/-! ## Merges -/

namespace Merge

/-- The places of a level: those of the buffer that it takes its runs from, and those of the
    buffer that it leaves its runs in. -/
inductive Place
  /-- A slot of the buffer with the runs of the level before. -/
  | sourceSlot (p : ℕ)
  /-- The length of a run of the level before. -/
  | sourceRun (p : ℕ)
  /-- A slot of the buffer for the merged runs. -/
  | targetSlot (p : ℕ)
  /-- The length of a merged run. -/
  | targetRun (p : ℕ)
  /-- How large everything is. -/
  | extents

/-- What is in a place. -/
def Content : Place → Type
  | .sourceSlot _ | .targetSlot _ => Option Candidate
  | .sourceRun _ | .targetRun _ => Option ℕ
  | .extents => List ℕ

/-- The two buffers of a level. -/
structure Buffers where
  source : RunBuffer
  target : RunBuffer

/-- How large everything is. -/
def Buffers.extents (b : Buffers) : List ℕ :=
  [b.source.slots.size, b.source.lengths.size, b.source.reserved, b.target.slots.size,
    b.target.lengths.size, b.target.reserved]

/-- Look what is in a place. -/
def Buffers.look (b : Buffers) : (place : Place) → Content place
  | .sourceSlot p => b.source.slots[p]?
  | .sourceRun p => b.source.lengths[p]?
  | .targetSlot p => b.target.slots[p]?
  | .targetRun p => b.target.lengths[p]?
  | .extents => b.extents

/-- There is nothing else in the buffers. -/
theorem Buffers.ext_look {b c : Buffers} (h : ∀ place, b.look place = c.look place) : b = c := by
  have hextents : b.extents = c.extents := h .extents
  obtain ⟨⟨slots, lengths, reserved⟩, ⟨slots', lengths', reserved'⟩⟩ := b
  obtain ⟨⟨slots₁, lengths₁, reserved₁⟩, ⟨slots₁', lengths₁', reserved₁'⟩⟩ := c
  obtain rfl : slots = slots₁ := Array.ext_getElem? fun p => h (.sourceSlot p)
  obtain rfl : lengths = lengths₁ := Array.ext_getElem? fun p => h (.sourceRun p)
  obtain rfl : slots' = slots₁' := Array.ext_getElem? fun p => h (.targetSlot p)
  obtain rfl : lengths' = lengths₁' := Array.ext_getElem? fun p => h (.targetRun p)
  simp only [extents, List.cons.injEq, true_and, and_true] at hextents
  obtain ⟨rfl, rfl⟩ := hextents
  rfl

/-- Merge `j` of a level as a task on both buffers. -/
def task (k span : ℕ) (b : Buffers) (j : ℕ) : Except Fault Buffers := do
  return ⟨b.source, ← run k span b.source j b.target⟩

/-- Where merge `j` writes: its piece of the target, and the length of its run. -/
def writes (span j : ℕ) : Set Place := {place | match place with
  | .targetSlot p => InPiece (2 * span) j p
  | .targetRun p => p = j
  | .sourceSlot _ | .sourceRun _ | .extents => False}

/-- Where merge `j` reads: two runs of the source, and what it will write over. -/
def reads (span j : ℕ) : Set Place := {place | match place with
  | .sourceSlot p => InPiece (2 * span) j p
  | .sourceRun p => InPiece 2 j p
  | .extents => True
  | place => place ∈ writes span j}

variable {k span : ℕ}

theorem size_of_joined {source target : Array Candidate} {pair : List ℕ}
    {outcome : Array Candidate × ℕ} (h : joined k span source target pair = .ok outcome) :
    outcome.1.size = target.size := by
  unfold joined at h
  split at h
  · simp only [bind_eq_ok_iff] at h
    obtain ⟨a, -, b, -, out, -, filled, hfilled, heq⟩ := h
    obtain rfl := Except.ok.inj heq
    exact Buffer.size_of_write hfilled
  · simp only [bind_eq_ok_iff] at h
    obtain ⟨-, -, a, -, filled, hfilled, heq⟩ := h
    obtain rfl := Except.ok.inj heq
    exact Buffer.size_of_write hfilled
  · rw [← Except.ok.inj h]

/-- A merge keeps to its pieces. -/
theorem confined (k span j : ℕ) :
    Confined Buffers.look (reads span j) (writes span j) (task k span · j) := by
  constructor
  case frame =>
    rintro ⟨source, ⟨slots, lengths, reserved⟩⟩ t h place hplace
    obtain ⟨target, hrun, ht⟩ := bind_eq_ok_iff.1 h
    obtain rfl := Except.ok.inj ht
    simp only [run_eq, bind_eq_ok_iff] at hrun
    obtain ⟨width, hwidth, origin, -, into, hinto, pair, -, outcome, hjoined, slots',
      hslots, lengths', hlengths, htarget⟩ := hrun
    obtain ⟨-, rfl⟩ := Buffer.mul_eq_ok_iff.1 hwidth
    obtain rfl := Except.ok.inj htarget
    have hlen : outcome.1.toList.length ≤ 2 * span := by
      rw [Array.length_toList, size_of_joined hjoined]
      exact Buffer.size_of_piece hinto
    cases place with
    | sourceSlot p | sourceRun p => rfl
    | targetSlot p => exact Buffer.getElem?_of_write hslots fun hp => hplace ⟨hp.1, by omega⟩
    | targetRun p => exact Buffer.getElem?_of_setEntry hlengths hplace
    | extents =>
      simp only [Buffers.look, Buffers.extents, Buffer.size_of_write hslots,
        Buffer.size_of_setEntry hlengths]
      rfl
  case depends =>
    rintro ⟨source, ⟨slots, lengths, reserved⟩⟩ ⟨source₁, ⟨slots₁, lengths₁, reserved₁⟩⟩ t hsame h
    obtain ⟨target, hrun, ht⟩ := bind_eq_ok_iff.1 h
    obtain rfl := Except.ok.inj ht
    simp only [run_eq, bind_eq_ok_iff] at hrun
    obtain ⟨width, hwidth, origin, horigin, into, hinto, pair, hpair, outcome, hjoined, slots',
      hslots, lengths', hlengths, htarget⟩ := hrun
    obtain ⟨-, rfl⟩ := Buffer.mul_eq_ok_iff.1 hwidth
    obtain rfl := Except.ok.inj htarget
    have hextents : Buffers.extents _ = Buffers.extents _ := hsame .extents trivial
    simp only [Buffers.extents, List.cons.injEq] at hextents
    obtain ⟨hsourceSize, hrunsSize, -, hslotsSize, hlengthsSize, -⟩ := hextents
    have hownSlots : ∀ p, InPiece (2 * span) j p → slots₁[p]? = slots[p]? :=
      fun p hp => hsame (.targetSlot p) hp
    obtain ⟨slots₂, hslots₂, hslotsSame⟩ := Buffer.exists_write hslots hslotsSize
    obtain ⟨lengths₂, hlengths₂, hlengthsSame⟩ := Buffer.exists_setEntry hlengths hlengthsSize
    refine ⟨⟨source₁, ⟨slots₂, lengths₂, reserved₁⟩⟩, ?_, fun place hplace => ?_⟩
    · refine bind_eq_ok_iff.2 ⟨_, ?_, rfl⟩
      simp only [run_eq, bind_eq_ok_iff]
      exact ⟨_, hwidth, origin,
        (Buffer.piece_congr hsourceSize fun p hp => hsame (.sourceSlot p) hp).trans horigin, into,
        (Buffer.piece_congr hslotsSize hownSlots).trans hinto, pair,
        (Buffer.piece_congr hrunsSize fun p hp => hsame (.sourceRun p) hp).trans hpair, outcome,
        hjoined, slots₂, hslots₂, lengths₂, hlengths₂, rfl⟩
    · cases place with
      | targetSlot p => exact hslotsSame p (.inr (hownSlots p hplace))
      | targetRun p =>
        obtain rfl : p = j := hplace
        exact hlengthsSame
      | sourceSlot p | sourceRun p | extents => exact absurd hplace id

/-- No place belongs to two merges. -/
theorem writes_unique {place : Place} (hi : place ∈ writes span i) (hj : place ∈ writes span j) :
    i = j := by
  cases place with
  | targetSlot p => exact InPiece.unique hi hj
  | targetRun p => exact hi.symm.trans hj
  | sourceSlot p | sourceRun p | extents => exact absurd hi id

/-- The merges of a level are independent. -/
theorem independent (k span : ℕ) :
    Independent Buffers.look (reads span) (writes span) (task k span) := by
  refine ⟨confined k span, fun i j hij => ?_, fun i j hij => ?_⟩
  · exact fun place hi hj => hij (writes_unique hi hj)
  · intro place hi hj
    cases place with
    | targetSlot p | targetRun p => exact hij (writes_unique hi hj)
    | sourceSlot p | sourceRun p | extents => exact hj

/-- No merge of a level changes what the level takes its runs from. -/
theorem foldlM_task (k span : ℕ) (src : RunBuffer) (l : List ℕ) (dst : RunBuffer) :
    l.foldlM (task k span) ⟨src, dst⟩ =
      (l.foldlM (fun dst j => run k span src j dst) dst >>= fun t => .ok ⟨src, t⟩) := by
  induction l generalizing dst with
  | nil => rfl
  | cons j l ih =>
    rw [List.foldlM_cons, List.foldlM_cons, task, bind_assoc, bind_assoc]
    exact bind_congr fun t => ih t

/-- In whatever order the merges of a level are done, they leave the same. -/
theorem alike_level (order order' : TaskOrder) (runs : ℕ) (src dst : RunBuffer) :
    Alike (level k span runs order src dst) (level k span runs order' src dst) := by
  rw [level, level]
  refine (Alike.refl _).bind fun dst => ?_
  have halike := (independent k span).alike_foldlM (fun _ _ => Buffers.ext_look)
    ((order.perm (ceilDiv runs 2)).trans (order'.perm _).symm) (order.nodup_tasks _) ⟨src, dst⟩
  intro t
  have hsame := halike ⟨src, t⟩
  simpa [foldlM_task, bind_eq_ok_iff] using hsame

/-- The same of all levels. -/
theorem alike_levels (order order' : ℕ → TaskOrder) (runs depth span : ℕ) (src dst : RunBuffer) :
    Alike (levels k order runs depth span src dst) (levels k order' runs depth span src dst) := by
  induction runs using Nat.strong_induction_on generalizing depth span src dst with
  | h runs ih =>
    rw [levels, levels]
    split
    case isTrue hmany =>
      refine (alike_level _ _ _ _ _).bind fun t => (Alike.refl _).bind fun width => ?_
      exact (ih _ (ceilDiv_two_lt hmany) _ _ _ _).bind fun _ => .refl _
    case isFalse => exact .refl _

end Merge

end NeighborSearch
