import NeighborSearch.Selection.Candidate

/-!
# Bounded heaps

A *bounded heap* keeps the smallest of the candidates pushed into it, as many as it
has slots. Its used slots form a heap: the slots `2 * i + 1` and `2 * i + 2` hold
nothing greater than slot `i`, so slot `0` holds the greatest.

As long as a slot is free, a pushed candidate is put there and sifted up. After that
it replaces the greatest one if it is smaller, and is sifted down; otherwise it is
dropped.
-/

namespace NeighborSearch

/-- A heap of at most `n` candidates. -/
structure BoundedHeap (n : Nat) where
  /-- The slots, of which the first `size` are used. -/
  slots : Vector Candidate n
  /-- The number of candidates kept. -/
  size : Nat
  /-- No more candidates are kept than there are slots. -/
  size_le : size ≤ n

namespace BoundedHeap

variable {n : Nat}

/-- The heap that keeps nothing yet, in the given slots. -/
def empty (slots : Vector Candidate n) : BoundedHeap n := ⟨slots, 0, Nat.zero_le n⟩

/-- Exchange the candidate at `pos` with the one above it as long as that is smaller. -/
def siftUp (slots : Vector Candidate n) (pos : Nat) (hpos : pos < n) : Vector Candidate n :=
  if _h : 0 < pos then
    have hparent : (pos - 1) / 2 < pos := by omega
    if slots[pos] ≤ slots[(pos - 1) / 2] then
      slots
    else
      siftUp (slots.swap ((pos - 1) / 2) pos) ((pos - 1) / 2) (by omega)
  else
    slots
termination_by pos

/-- The position of the greater one of the candidates at `child` and `child + 1`; with
    `child` the last one used, `child` itself. -/
def greaterChild (slots : Vector Candidate n) (size : Nat) (hsize : size ≤ n) (child : Nat) :
    Nat :=
  if h : child + 1 < size then
    if slots[child] < slots[child + 1] then child + 1 else child
  else
    child

theorem greaterChild_lt (slots : Vector Candidate n) {size : Nat} (hsize : size ≤ n)
    {child : Nat} (hchild : child < size) :
    greaterChild slots size hsize child < size := by
  unfold greaterChild
  repeat' split
  all_goals omega

theorem le_greaterChild (slots : Vector Candidate n) {size : Nat} (hsize : size ≤ n)
    (child : Nat) :
    child ≤ greaterChild slots size hsize child := by
  unfold greaterChild
  repeat' split
  all_goals omega

/-- Exchange the candidate at `pos` with the greater one of those below it, among the
    first `size`, as long as that is greater. -/
def siftDown (slots : Vector Candidate n) (size : Nat) (hsize : size ≤ n) (pos : Nat) :
    Vector Candidate n :=
  if h : 2 * pos + 1 < size then
    have hlt := greaterChild_lt slots hsize h
    have hle := le_greaterChild slots hsize (2 * pos + 1)
    let child := greaterChild slots size hsize (2 * pos + 1)
    if slots[child] ≤ slots[pos] then
      slots
    else
      siftDown (slots.swap pos child) size hsize child
  else
    slots
termination_by size - pos
decreasing_by
  omega

variable (h : BoundedHeap n)

/-- Offer a candidate to the heap. -/
def push (c : Candidate) : BoundedHeap n :=
  if hfree : h.size < n then
    ⟨siftUp (h.slots.set h.size c) h.size hfree, h.size + 1, hfree⟩
  else if hn : 0 < n then
    if c < h.slots[0] then
      ⟨siftDown (h.slots.set 0 c) h.size h.size_le 0, h.size, h.size_le⟩
    else
      h
  else
    h

/-- The candidates kept, in the order of their slots. -/
def toList : List Candidate := h.slots.toList.take h.size

/-- The greatest candidate kept, which is the first one. -/
def max? : Option Candidate := if 0 < h.size then h.slots[0]? else none

/-- The candidates kept, in ascending order. -/
def sorted : List Candidate := Candidate.sort h.toList

/-- The slots after the candidates kept have been sorted in their place. -/
def sortedSlots : List Candidate := h.sorted ++ h.slots.toList.drop h.size

theorem max?_eq_head? : h.max? = h.toList.head? := by
  unfold max? toList
  by_cases hs : 0 < h.size
  · simp [hs, List.head?_eq_getElem?]
  · simp [hs, List.take_eq_nil_iff.2 (Or.inl (Nat.eq_zero_of_not_pos hs))]

@[simp] theorem length_toList : h.toList.length = h.size := by
  simp [toList, Nat.min_eq_left h.size_le]

end BoundedHeap

end NeighborSearch
