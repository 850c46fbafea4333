import NeighborSearch.Single

/-!
# Candidates

A *candidate* is a distance together with the column it came from. Candidates are
ordered by distance and then by column, so that of two equal distances the one of
the lower column is the smaller candidate.

The distance of a candidate is canonical. Under the total order of patterns this
puts what is not a number after infinity: it is selected only when nothing else is
left.
-/

namespace NeighborSearch

/-- A distance with the column it came from. -/
structure Candidate where
  /-- The distance. -/
  distance : Single
  /-- The column. -/
  index : UInt32
  /-- The distance is the pattern that stands for its value. -/
  canonical : distance.IsCanonical
deriving DecidableEq

namespace Candidate

/-- The candidate of any single, whose canonical form is taken. -/
def of (distance : Single) (index : UInt32) : Candidate :=
  ⟨distance.canonicalize, index, distance.isCanonical_canonicalize⟩

/-- The candidate that fills slots not yet used. -/
def blank : Candidate := ⟨.zero, 0, Single.isCanonical_zero⟩

/-- By distance, and then by column. -/
instance : Ord Candidate where
  compare a b :=
    (compare a.distance.totalKey b.distance.totalKey).then (compare a.index b.index)

instance : LE Candidate := leOfOrd

instance : LT Candidate := ltOfOrd

instance (a b : Candidate) : Decidable (a ≤ b) :=
  inferInstanceAs (Decidable ((compare a b).isLE = true))

instance (a b : Candidate) : Decidable (a < b) :=
  inferInstanceAs (Decidable (compare a b = .lt))

/-- How two candidates compare, where others might not compare at all. -/
def partialCompare (a b : Candidate) : Option Ordering := some (compare a b)

/-- Whether two candidates compare as equal. -/
def same (a b : Candidate) : Bool := compare a b == .eq

/-- The candidates in ascending order. -/
def sort (xs : List Candidate) : List Candidate :=
  xs.mergeSort fun a b => decide (a ≤ b)

end Candidate

end NeighborSearch
