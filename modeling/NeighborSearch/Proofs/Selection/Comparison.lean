import NeighborSearch.Proofs.Selection.Order
import NeighborSearch.Proofs.Value

/-!
# How candidates compare

Candidates compare as what their distances stand for, with what is not a number after
all numbers, and of distances that stand for the same as their columns
(`Candidate.of_lt_of_iff`). Only one pattern of those that stand for the same is
canonical, so candidates that compare as equal are the same bit for bit, and there is
one way to put candidates in ascending order (`Candidate.compare_by_value`).
-/

namespace NeighborSearch

/-- Singles have the same canonical form if they stand for the same. -/
theorem Single.canonicalize_eq_iff {x y : Single} :
    x.canonicalize = y.canonicalize ↔ x.value? = y.value? := by
  rw [← Single.totalKey_injective.eq_iff, Single.totalKey_canonicalize_eq_iff]

theorem Single.value?_negativeZero : (⟨0x80000000⟩ : Single).value? = Single.zero.value? :=
  Single.canonicalize_eq_iff.1 (by decide)

namespace Candidate

variable {x y : Single} {i j : UInt32} {a b : Candidate}

/-- By value, then what is not a number, and then by column. -/
theorem of_lt_of_iff :
    of x i < of y j ↔
      (∃ v w, x.value? = some v ∧ y.value? = some w ∧ v < w) ∨
        ((∃ v, x.value? = some v) ∧ y.value? = none) ∨ (x.value? = y.value? ∧ i < j) := by
  rw [lt_iff, of, of]
  simp only [Single.totalKey_canonicalize_lt_iff, Single.totalKey_canonicalize_eq_iff, or_assoc]

/-- A candidate is what its bits are. -/
theorem eq_iff_bits : a = b ↔ a.distance.bits = b.distance.bits ∧ a.index = b.index := by
  obtain ⟨⟨p⟩, i, hp⟩ := a
  obtain ⟨⟨q⟩, j, hq⟩ := b
  simp

theorem compare_eq_signedKey (a b : Candidate) :
    compare a b =
      (compare a.distance.signedKey b.distance.signedKey).then (compare a.index b.index) := by
  rw [Single.compare_signedKey]
  rfl

theorem same_iff : a.same b ↔ a = b := by
  rw [same, beq_iff_eq, compare_eq_eq_iff]

/-- Candidates compare by value and then by column. Those that compare as equal are the
    same bit for bit, the order is linear, candidates have one ascending arrangement, and
    all comparisons agree. -/
theorem compare_by_value :
    (∀ (x y : Single) (i j : UInt32),
      (compare (of x i) (of y j) = .lt ↔
        (∃ v w, x.value? = some v ∧ y.value? = some w ∧ v < w) ∨
          ((∃ v, x.value? = some v) ∧ y.value? = none) ∨ (x.value? = y.value? ∧ i < j)) ∧
      (compare (of x i) (of y j) = .eq ↔
        (of x i).distance.bits = (of y j).distance.bits ∧ (of x i).index = (of y j).index)) ∧
    (∀ a b : Candidate, compare a b =
      (compare a.distance.signedKey b.distance.signedKey).then (compare a.index b.index)) ∧
    (∀ a : Candidate, a ≤ a) ∧
    (∀ a b : Candidate, a ≤ b → b ≤ a → a = b) ∧
    (∀ a b c : Candidate, a ≤ b → b ≤ c → a ≤ c) ∧
    (∀ a b : Candidate, a ≤ b ∨ b ≤ a) ∧
    (∀ xs ys : List Candidate, xs.Perm ys → xs.Pairwise (· ≤ ·) → ys.Pairwise (· ≤ ·) → xs = ys) ∧
    ∀ a b : Candidate,
      a.partialCompare b = some (compare a b) ∧ (a.same b ↔ a = b) ∧
        (compare a b = .eq ↔ a = b) ∧ (a < b ↔ compare a b = .lt) ∧ (a ≤ b ↔ compare a b ≠ .gt) ∧
        (a > b ↔ compare a b = .gt) ∧ (a ≥ b ↔ compare a b ≠ .lt) := by
  refine ⟨fun x y i j => ⟨of_lt_of_iff, compare_eq_eq_iff.trans eq_iff_bits⟩, compare_eq_signedKey,
    le_refl, fun a b => le_antisymm, fun a b c => le_trans, le_total, ?_, ?_⟩
  · intro xs ys hperm hxs hys
    exact hperm.eq_of_pairwise' hxs hys
  · intro a b
    exact ⟨rfl, same_iff, compare_eq_eq_iff, Iff.rfl, compare_le_iff_le.symm,
      compare_gt_iff_gt.symm, compare_ge_iff_ge.symm⟩

/-- Zeros compare by column, whatever their signs. -/
theorem compare_zeros : compare (of ⟨0x80000000⟩ 1) (of .zero 2) = .lt ∧
    compare (of .zero 1) (of ⟨0x80000000⟩ 2) = .lt := by
  obtain ⟨hvalue, -⟩ := compare_by_value
  refine ⟨(hvalue _ _ _ _).1.2 (.inr (.inr ⟨Single.value?_negativeZero, by decide⟩)), ?_⟩
  exact (hvalue _ _ _ _).1.2 (.inr (.inr ⟨Single.value?_negativeZero.symm, by decide⟩))

end Candidate

end NeighborSearch
