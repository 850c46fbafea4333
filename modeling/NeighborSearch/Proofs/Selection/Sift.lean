import Mathlib.Algebra.Ring.Nat
import NeighborSearch.Proofs.Selection.Heap

/-!
# What a bounded heap looks at

The sifts of a bounded heap are loops over its slots in use. Here they are run as such
(`siftUp?`, `siftDown?`): on these slots alone, with every access checked, and with no
more rounds than a heap has levels. They come to the same as the sifts of a heap that
has other slots too.
-/

namespace NeighborSearch.BoundedHeap

variable {n : ℕ} {slots : Vector Candidate n} {used pos rounds : ℕ}

/-- The first `used` slots. -/
def firstSlots (slots : Vector Candidate n) (used : ℕ) : Array Candidate :=
  slots.toArray.extract 0 used

@[simp] theorem size_firstSlots (hused : used ≤ n) : (firstSlots slots used).size = used := by
  simp [firstSlots, hused]

theorem getElem?_firstSlots {i : ℕ} (hi : i < used) (hused : used ≤ n) :
    (firstSlots slots used)[i]? = some slots[i] := by
  simp [firstSlots, hused, hi]

/-- Exchange two entries, if both are there. -/
def swap? (xs : Array Candidate) (i j : ℕ) : Option (Array Candidate) :=
  if h : i < xs.size ∧ j < xs.size then some (xs.swap i j h.1 h.2) else none

theorem swap?_firstSlots {i j : ℕ} (hi : i < used) (hj : j < used) (hused : used ≤ n) :
    swap? (firstSlots slots used) i j = some (firstSlots (slots.swap i j) used) := by
  rw [swap?, dif_pos (by simp [hused, hi, hj])]
  congr 1
  apply Array.ext
  · simp [hused]
  · intro p hp hp'
    simp [firstSlots, Array.getElem_swap]

/-! ## Sifting up -/

/-- Sifting up as a loop of at most so many rounds. Nothing comes of it if it asks for an
    entry that is not there, or for a further round. -/
def siftUp? : (rounds : ℕ) → (slots : Array Candidate) → (pos : ℕ) → Option (Array Candidate)
  | _, slots, 0 => some slots
  | 0, _, _ + 1 => none
  | rounds + 1, slots, pos + 1 => do
    let above ← slots[pos / 2]?
    let c ← slots[pos + 1]?
    if c ≤ above then
      some slots
    else
      siftUp? rounds (← swap? slots (pos / 2) (pos + 1)) (pos / 2)

theorem siftUp?_eq_some (hpos : pos < used) (hused : used ≤ n)
    (hrounds : pos + 1 < 2 ^ (rounds + 1)) :
    siftUp? rounds (firstSlots slots used) pos =
      some (firstSlots (siftUp slots pos (hpos.trans_le hused)) used) := by
  induction rounds generalizing slots pos with
  | zero =>
    obtain rfl : pos = 0 := by omega
    rw [siftUp?, siftUp, dif_neg (Nat.lt_irrefl 0)]
  | succ rounds ih =>
    cases pos with
    | zero => rw [siftUp?, siftUp, dif_neg (Nat.lt_irrefl 0)]
    | succ pos =>
      have habove : pos / 2 < used := by omega
      rw [siftUp?, getElem?_firstSlots habove hused, getElem?_firstSlots hpos hused, siftUp,
        dif_pos (Nat.succ_pos pos)]
      simp only [Option.bind_eq_bind, Option.bind_some, Nat.add_sub_cancel]
      split
      · rfl
      · rw [swap?_firstSlots habove hpos hused, Option.bind_some]
        exact ih habove (by rw [Nat.pow_succ] at hrounds; omega)

/-! ## Sifting down -/

/-- The position of the greater one of two entries, if both are there. -/
def greaterChild? (slots : Array Candidate) (child : ℕ) : Option ℕ :=
  if child + 1 < slots.size then do
    let left ← slots[child]?
    let right ← slots[child + 1]?
    some (if left < right then child + 1 else child)
  else
    some child

theorem greaterChild?_firstSlots (hused : used ≤ n) {child : ℕ} (hchild : child < used) :
    greaterChild? (firstSlots slots used) child = some (greaterChild slots used hused child) := by
  rw [greaterChild?, greaterChild, size_firstSlots hused]
  split
  case isTrue hright =>
    rw [getElem?_firstSlots hchild hused, getElem?_firstSlots hright hused]
    rfl
  case isFalse => rfl

/-- Sifting down as a loop in the same way. -/
def siftDown? : (rounds : ℕ) → (slots : Array Candidate) → (pos : ℕ) → Option (Array Candidate)
  | rounds, slots, pos =>
    if 2 * pos + 1 < slots.size then
      match rounds with
      | 0 => none
      | rounds + 1 => do
        let child ← greaterChild? slots (2 * pos + 1)
        let below ← slots[child]?
        let c ← slots[pos]?
        if below ≤ c then
          some slots
        else
          siftDown? rounds (← swap? slots pos child) child
    else
      some slots

theorem siftDown?_eq_some (hused : used ≤ n) (hrounds : used < 2 ^ (rounds + 1) * (pos + 1)) :
    siftDown? rounds (firstSlots slots used) pos =
      some (firstSlots (siftDown slots used hused pos) used) := by
  induction rounds generalizing slots pos with
  | zero =>
    have hstop : ¬2 * pos + 1 < used := by omega
    rw [siftDown?, siftDown, size_firstSlots hused, if_neg hstop, dif_neg hstop]
  | succ rounds ih =>
    rw [siftDown?, siftDown, size_firstSlots hused]
    split
    case isFalse => rfl
    case isTrue hdown =>
      have hlt := greaterChild_lt slots hused hdown
      have hle := le_greaterChild slots hused (2 * pos + 1)
      have hpos : pos < used := by omega
      simp only [greaterChild?_firstSlots hused hdown, getElem?_firstSlots hlt hused,
        getElem?_firstSlots hpos hused, Option.bind_eq_bind, Option.bind_some]
      split
      case isTrue => rfl
      case isFalse =>
        rw [swap?_firstSlots hpos hlt hused, Option.bind_some]
        refine ih (hrounds.trans_le ?_)
        rw [Nat.pow_succ, Nat.mul_assoc]
        exact Nat.mul_le_mul_left _ (by omega)

/-! ## Pushing -/

/-- A push keeps to the slots in use, those of the candidates kept before and one more as
    long as there is a free one. It changes nothing, or it sifts a candidate there, in no
    more rounds than these slots have levels. -/
structure PushesWithin (h : BoundedHeap n) (c : Candidate) : Prop where
  up : ∀ _ : h.size < n,
    siftUp? (Nat.log2 (h.size + 1)) (firstSlots (h.slots.set h.size c) (h.size + 1)) h.size =
      some (firstSlots (h.push c).slots (h.size + 1))
  down : ∀ _ : 0 < n, h.size = n → c < h.slots[0] →
    siftDown? (Nat.log2 h.size) (firstSlots (h.slots.set 0 c) h.size) 0 =
      some (firstSlots (h.push c).slots h.size)
  same : h.size = n → (∀ _ : 0 < n, ¬c < h.slots[0]) → h.push c = h
  rest : ∀ i, (h.push c).size ≤ i → (h.push c).slots[i]? = h.slots[i]?

theorem size_push (h : BoundedHeap n) (c : Candidate) : (h.push c).size = min n (h.size + 1) := by
  have hsize := h.size_le
  rw [push]
  split
  case isTrue hfree => exact (Nat.min_eq_right hfree).symm
  case isFalse hnone =>
    split
    case isTrue =>
      split
      · change h.size = _
        omega
      · omega
    case isFalse => omega

theorem pushesWithin (h : BoundedHeap n) (c : Candidate) : h.PushesWithin c where
  up hfree := by
    rw [push, dif_pos hfree]
    exact siftUp?_eq_some (Nat.lt_succ_self _) hfree Nat.lt_log2_self
  down hn hfull hlt := by
    have hnone : ¬h.size < n := by omega
    rw [push, dif_neg hnone, dif_pos hn, if_pos hlt]
    refine siftDown?_eq_some h.size_le ?_
    rw [Nat.zero_add, Nat.mul_one]
    exact Nat.lt_log2_self
  same hfull hge := push_eq_self hfull hge
  rest i hi := by
    rw [size_push] at hi
    rcases Nat.lt_or_ge i n with hin | hni
    · have hfree : h.size < n := by omega
      rw [push, dif_pos hfree]
      simp only
      rw [getElem?_siftUp hfree (by omega), Vector.getElem?_set_ne hfree (by omega)]
    · rw [Vector.getElem?_eq_none hni, Vector.getElem?_eq_none hni]

/-- The heap in the given slots after the candidates `pushed`. -/
def pushAll (storage : Vector Candidate n) (pushed : List Candidate) : BoundedHeap n :=
  pushed.foldl push (.empty storage)

variable (storage : Vector Candidate n) (pushed : List Candidate)

theorem keeps_pushAll : (pushAll storage pushed).Keeps pushed := by
  simpa [pushAll] using (keeps_empty storage).foldl_push pushed

variable {h : BoundedHeap n} {pushed}

/-- What has been pushed and is not kept, is nowhere below what is. -/
theorem Keeps.exists_dropped (hk : h.Keeps pushed) :
    ∃ dropped, (h.toList ++ dropped).Perm pushed ∧ ∀ x ∈ h.toList, ∀ y ∈ dropped, x ≤ y := by
  obtain ⟨dropped, hperm, hle⟩ := exists_smallest_append n pushed
  refine ⟨dropped, (hk.perm.append_right dropped).trans hperm, ?_⟩
  intro x hx y hy
  exact hle x (hk.perm.mem_iff.1 hx) y hy

theorem Keeps.exists_max? (hk : h.Keeps pushed) (hsome : 0 < h.size) :
    ∃ top, h.slots[0]? = some top ∧ h.max? = some top ∧ top ∈ h.toList ∧
      ∀ x ∈ h.toList, x ≤ top := by
  have hn := hsome.trans_le h.size_le
  have hfirst : h.slots[0]? = some h.slots[0] := Vector.getElem?_eq_getElem hn
  have hmax : h.max? = some h.slots[0] := by rw [max?, if_pos hsome, hfirst]
  refine ⟨h.slots[0], hfirst, hmax, ?_, ?_⟩
  · exact List.mem_of_mem_head? (h.max?_eq_head? ▸ hmax)
  · intro x hx
    obtain ⟨i, hi, rfl⟩ := List.getElem_of_mem hx
    rw [h.length_toList] at hi
    have := hk.isHeap.le_first (i := i) (by have := h.size_le; omega) hi
    simpa [toList] using this

/-- After any candidates have been pushed, whatever was in the slots before: a heap keeps
    the smallest of them, as many as it has slots, with the greatest one first and none
    greater than the one above it, and returns them in ascending order. The next push
    looks at the slots in use only, and comes to its end. -/
theorem pushAll_keeps_smallest (storage : Vector Candidate n) (pushed : List Candidate) :
    (pushAll storage pushed).size = min n pushed.length ∧
    IsHeap (pushAll storage pushed).slots (pushAll storage pushed).size ∧
    (∃ dropped, ((pushAll storage pushed).toList ++ dropped).Perm pushed ∧
      ∀ x ∈ (pushAll storage pushed).toList, ∀ y ∈ dropped, x ≤ y) ∧
    (0 < (pushAll storage pushed).size →
      ∃ top, (pushAll storage pushed).slots[0]? = some top ∧
        (pushAll storage pushed).max? = some top ∧ top ∈ (pushAll storage pushed).toList ∧
        ∀ x ∈ (pushAll storage pushed).toList, x ≤ top) ∧
    (pushAll storage pushed).sorted.Perm (pushAll storage pushed).toList ∧
    (pushAll storage pushed).sorted.Pairwise (· ≤ ·) ∧
    (pushAll storage pushed).sorted = (Candidate.sort pushed).take n ∧
    (∀ c, pushAll storage (pushed ++ [c]) = (pushAll storage pushed).push c ∧
      (pushAll storage pushed).PushesWithin c) ∧
    (n = 0 → ∀ c, (pushAll storage pushed).push c = pushAll storage pushed) := by
  have hk := keeps_pushAll storage pushed
  refine ⟨hk.size_eq, hk.isHeap, hk.exists_dropped, hk.exists_max?, List.mergeSort_perm _ _, ?_,
    hk.sorted_eq, fun c => ⟨List.foldl_append, pushesWithin _ c⟩, ?_⟩
  · rw [hk.sorted_eq]
    exact pairwise_smallest
  · rintro rfl c
    exact push_eq_self (Nat.le_zero.1 (size_le _)) fun hn => absurd hn (Nat.lt_irrefl 0)

/-- Two slots that held the least of all candidates, after three others have been pushed. -/
def threePushed : BoundedHeap 2 :=
  pushAll (Vector.replicate 2 (.of ⟨0xff800000⟩ 9))
    [.of ⟨0x40400000⟩ 0, .of ⟨0x3f800000⟩ 1, .of ⟨0x40000000⟩ 2]

theorem max?_threePushed :
    threePushed.size = 2 ∧ ∃ top ∈ threePushed.toList, threePushed.max? = some top := by
  obtain ⟨hsize, -, -, hmax, -⟩ := pushAll_keeps_smallest (Vector.replicate 2 (.of ⟨0xff800000⟩ 9))
    [.of ⟨0x40400000⟩ 0, .of ⟨0x3f800000⟩ 1, .of ⟨0x40000000⟩ 2]
  obtain ⟨top, -, htop, hmem, -⟩ := hmax (hsize.symm ▸ by decide)
  exact ⟨hsize, top, hmem, htop⟩

end NeighborSearch.BoundedHeap
