import Mathlib.Order.Compare
import NeighborSearch.Proofs.Smallest
import NeighborSearch.Selection.Candidate

/-!
# The order of candidates

Candidates are ordered by the place of their distance in the total order of patterns,
and then by their column. Both together determine the candidate, so the order is
linear, and a list of candidates has one ascending arrangement.
-/

namespace NeighborSearch

/-- A pattern is determined by its place in the total order of patterns. -/
theorem Single.totalKey_injective : Function.Injective Single.totalKey := by
  rintro ⟨x⟩ ⟨y⟩ h
  have hx := x.toNat_lt
  have hy := y.toNat_lt
  have hbits : x.toNat = y.toNat := by
    simp only [totalKey, isNegative, magnitude, decide_eq_true_eq] at h
    split at h <;> split at h <;> omega
  rw [UInt32.toNat_inj.1 hbits]

namespace Candidate

variable {a b c : Candidate}

theorem lt_iff : a < b ↔ a.distance.totalKey < b.distance.totalKey ∨
    a.distance.totalKey = b.distance.totalKey ∧ a.index < b.index := by
  change ((compare a.distance.totalKey b.distance.totalKey).then
    (compare a.index b.index)) = .lt ↔ _
  rw [Ordering.then_eq_lt, compare_lt_iff_lt, compare_eq_iff_eq, Std.compare_eq_lt]

theorem compare_eq_eq_iff : compare a b = .eq ↔ a = b := by
  change ((compare a.distance.totalKey b.distance.totalKey).then
    (compare a.index b.index)) = .eq ↔ _
  rw [Ordering.then_eq_eq, compare_eq_iff_eq, Std.compare_eq_iff_eq,
    Single.totalKey_injective.eq_iff]
  cases a
  cases b
  simp

theorem le_iff_lt_or_eq : a ≤ b ↔ a < b ∨ a = b := by
  rw [← compare_eq_eq_iff]
  change (compare a b).isLE = true ↔ compare a b = .lt ∨ _
  cases compare a b <;> simp

theorem lt_irrefl (a : Candidate) : ¬a < a := by
  rw [lt_iff]
  rintro (h | ⟨-, h⟩)
  · exact Int.lt_irrefl _ h
  · exact UInt32.lt_irrefl _ h

theorem lt_trans (hab : a < b) (hbc : b < c) : a < c := by
  rw [lt_iff] at *
  rcases hab with hab | ⟨hab, hi⟩ <;> rcases hbc with hbc | ⟨hbc, hj⟩
  · exact .inl (hab.trans hbc)
  · exact .inl (hbc ▸ hab)
  · exact .inl (hab ▸ hbc)
  · exact .inr ⟨hab.trans hbc, UInt32.lt_trans hi hj⟩

theorem lt_or_eq_or_gt (a b : Candidate) : a < b ∨ a = b ∨ b < a := by
  rw [← compare_eq_eq_iff, lt_iff, lt_iff]
  change _ ∨ (compare a.distance.totalKey b.distance.totalKey).then _ = .eq ∨ _
  rw [Ordering.then_eq_eq, compare_eq_iff_eq, Std.compare_eq_iff_eq]
  rcases Int.lt_trichotomy a.distance.totalKey b.distance.totalKey with h | h | h
  · exact .inl (.inl h)
  · by_cases hi : a.index = b.index
    · exact .inr (.inl ⟨h, hi⟩)
    · rcases UInt32.lt_or_lt_of_ne hi with hi | hi
      · exact .inl (.inr ⟨h, hi⟩)
      · exact .inr (.inr (.inr ⟨h.symm, hi⟩))
  · exact .inr (.inr (.inl h))

instance : LinearOrder Candidate where
  le_refl a := le_iff_lt_or_eq.2 (.inr rfl)
  le_trans a b c hab hbc := by
    rw [le_iff_lt_or_eq] at *
    rcases hab with hab | rfl
    · rcases hbc with hbc | rfl
      · exact .inl (lt_trans hab hbc)
      · exact .inl hab
    · exact hbc
  le_antisymm a b hab hba := by
    rw [le_iff_lt_or_eq] at *
    rcases hab with hab | rfl
    · rcases hba with hba | rfl
      · exact absurd (lt_trans hab hba) (lt_irrefl a)
      · rfl
    · rfl
  le_total a b := by
    rw [le_iff_lt_or_eq, le_iff_lt_or_eq]
    rcases lt_or_eq_or_gt a b with h | rfl | h
    · exact .inl (.inl h)
    · exact .inl (.inr rfl)
    · exact .inr (.inl h)
  lt_iff_le_not_ge a b := by
    rw [le_iff_lt_or_eq, le_iff_lt_or_eq]
    constructor
    · intro h
      refine ⟨.inl h, ?_⟩
      rintro (h' | rfl)
      · exact lt_irrefl a (lt_trans h h')
      · exact lt_irrefl _ h
    · rintro ⟨h | rfl, h'⟩
      · exact h
      · exact absurd (.inr rfl) h'
  toDecidableLE := inferInstance
  toDecidableLT := inferInstance
  toDecidableEq := inferInstance
  compare_eq_compareOfLessAndEq a b := by
    rw [compareOfLessAndEq]
    by_cases hlt : a < b
    · rw [if_pos hlt]
      exact hlt
    · by_cases heq : a = b
      · rw [if_neg hlt, if_pos heq, compare_eq_eq_iff.2 heq]
      · rw [if_neg hlt, if_neg heq]
        have := compare_eq_eq_iff.not.2 heq
        change ¬compare a b = .lt at hlt
        cases h : compare a b <;> simp_all

theorem sort_take (xs : List Candidate) (k : ℕ) : (sort xs).take k = smallest k xs := rfl

end Candidate

end NeighborSearch
