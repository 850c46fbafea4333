import NeighborSearch.Size

/-!
# Matrices

A matrix is its entries, row after row, with its two extents. The extents are sizes,
and so is their product, which is the number of entries; extents whose product is
too large to be a size belong to no matrix, whatever its remainder.
-/

namespace NeighborSearch

/-- Entries that do not make a matrix of the extents asked for. -/
structure ShapeError where
  /-- The number of entries. -/
  length : Nat
  /-- The number of rows asked for. -/
  nrows : Nat
  /-- The number of columns asked for. -/
  ncols : Nat
deriving DecidableEq, Repr

/-- The error in words. -/
def ShapeError.message (e : ShapeError) : String :=
  s!"tried to construct a matrix view with {e.nrows} rows and {e.ncols} columns " ++
    s!"over a slice of length {e.length}"

/-- A matrix, by rows. -/
structure Matrix (α : Type) where
  /-- The entries. -/
  entries : Array α
  /-- The number of rows. -/
  nrows : Nat
  /-- The number of columns. -/
  ncols : Nat
  /-- The number of entries is the product of the extents. -/
  shape : Size.mul? nrows ncols = some entries.size

namespace Matrix

variable {α : Type}

/-- The matrix of the given entries and extents. -/
def ofArray? (entries : Array α) (nrows ncols : Nat) : Except ShapeError (Matrix α) :=
  if shape : Size.mul? nrows ncols = some entries.size then
    .ok ⟨entries, nrows, ncols, shape⟩
  else
    .error ⟨entries.size, nrows, ncols⟩

theorem size_entries (m : Matrix α) : m.entries.size = m.nrows * m.ncols :=
  (Size.mul?_eq_some_iff.1 m.shape).2.symm

theorem size_lt_limit (m : Matrix α) : m.nrows * m.ncols < Size.limit :=
  (Size.mul?_eq_some_iff.1 m.shape).1

/-- A row of the matrix. The place where it begins and the one where it ends have to be
    sizes, and the latter at most the number of entries. -/
def row? (m : Matrix α) (row : Nat) : Option (Array α) := do
  guard (row < m.nrows)
  let start ← Size.mul? row m.ncols
  let stop ← Size.add? start m.ncols
  guard (stop ≤ m.entries.size)
  return m.entries.extract start stop

end Matrix

end NeighborSearch
