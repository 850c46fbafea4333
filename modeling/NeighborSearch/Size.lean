/-!
# Sizes

Lengths, counts and positions are 64 bits wide. Algorithms count in `Nat`; a
product or a sum that has to fit in a size again is formed by the checked
operations of this file, which answer `none` where it would not.

What is counted is not always kept: a piece of memory has less than 2⁶³ bytes, half of
what a size can count.

A *positive size* carries the proof that it is not zero, so that whoever divides
by one, or cuts a list into pieces of that length, has nothing left to check.
-/

namespace NeighborSearch

/-- A length, a count or a position as it is stored and written. -/
abbrev Size := UInt64

namespace Size

/-- The least number that is too large to be a size. -/
def limit : Nat := 0x10000000000000000

/-- The largest size. -/
def largest : Nat := limit - 1

/-- The product, if it is a size. -/
def mul? (a b : Nat) : Option Nat :=
  if a * b < limit then some (a * b) else none

/-- The sum, if it is a size. -/
def add? (a b : Nat) : Option Nat :=
  if a + b < limit then some (a + b) else none

/-- The least number of bytes that no piece of memory has. -/
def memoryLimit : Nat := 0x8000000000000000

/-- That so many things of `width` bytes each fit into one piece of memory. -/
def FitsMemory (count width : Nat) : Prop := count * width < memoryLimit

instance (count width : Nat) : Decidable (FitsMemory count width) :=
  inferInstanceAs (Decidable (count * width < memoryLimit))

theorem toNat_lt_limit (n : Size) : n.toNat < limit :=
  n.toNat_lt

theorem mul?_eq_some_iff {a b c : Nat} : mul? a b = some c ↔ a * b < limit ∧ a * b = c := by
  simp [mul?]

theorem add?_eq_some_iff {a b c : Nat} : add? a b = some c ↔ a + b < limit ∧ a + b = c := by
  simp [add?]

end Size

/-- A size other than zero. -/
structure PosSize where
  /-- The size itself. -/
  val : Size
  /-- It is not zero. -/
  pos : 0 < val.toNat
deriving DecidableEq

namespace PosSize

/-- The size as a natural number. -/
def toNat (n : PosSize) : Nat := n.val.toNat

/-- The size `n`, unless it is zero. -/
def ofSize? (n : Size) : Option PosSize :=
  if h : 0 < n.toNat then some ⟨n, h⟩ else none

theorem toNat_pos (n : PosSize) : 0 < n.toNat := n.pos

theorem toNat_lt_limit (n : PosSize) : n.toNat < Size.limit :=
  n.val.toNat_lt_limit

instance : ToString PosSize := ⟨fun n => toString n.toNat⟩

end PosSize

end NeighborSearch
