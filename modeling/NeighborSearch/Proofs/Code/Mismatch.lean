import Mathlib.Algebra.Group.Action.Defs
import Mathlib.Algebra.Order.BigOperators.Group.List
import Mathlib.Algebra.Order.Group.Nat
import NeighborSearch.Proofs.Code.Block

/-!
# Differing bytes by smears and by masks

The bytes in which two codes differ are found in two ways. A word is smeared, so that the
lowest bit of every byte tells whether the byte is zero. Two blocks are compared to a mask,
which has a bit for every byte in which they agree and none beyond
(`testBit_eqMask_of_lt`, `testBit_eqMask_of_ge`), and never more bits than the blocks have
bytes (`popcount32_eqMask_le`). Both ways count exactly, and so does the sum over two strings
of blocks, as far as both go (`smears_and_masks_count_bytes`).
-/

namespace NeighborSearch.Block

variable {a b : Code} {width : UInt32} {i : ℕ}

/-! ## Masks of blocks of one width -/

/-- Below the width, a bit of the mask tells whether the blocks agree in a byte. -/
theorem testBit_eqMask_of_lt (hlen : a.length ≤ 32) (hi : i < a.length) :
    (eqMask a b).toNat.testBit i = true ↔ a[i]? = b[i]? := by
  rw [testBit_eqMask hlen]
  constructor
  · rintro ⟨x, ha, hb⟩
    rw [ha, hb]
  · intro hagree
    have ha := List.getElem?_eq_getElem hi
    exact ⟨a[i], ha, hagree ▸ ha⟩

/-- At the width and beyond, no bit is set. -/
theorem testBit_eqMask_of_ge (hlen : a.length ≤ 32) (hi : a.length ≤ i) :
    (eqMask a b).toNat.testBit i = false := by
  rw [← Bool.not_eq_true, testBit_eqMask hlen]
  rintro ⟨x, ha, -⟩
  rw [List.getElem?_eq_none hi] at ha
  cases ha

/-- What is taken off the width is not more than the width. -/
theorem popcount32_eqMask_le (hlen : a.length = width.toNat) (hwidth : width.toNat ≤ 32) :
    Word.popcount32 (eqMask a b) ≤ width := by
  have hcount : (agreements a b).count true ≤ (agreements a b).length := List.count_le_length
  rw [UInt32.le_iff_toNat_le, toNat_popcount32_eqMask (hlen ▸ hwidth)]
  rw [agreements, List.length_zipWith] at hcount
  exact hcount.trans (hlen ▸ Nat.min_le_left _ _)

/-! ## Strings of blocks -/

/-- Blocks differ in no more bytes than there are in as many blocks as both strings have. -/
theorem sum_differing_le {n : ℕ} {as bs : List Code} (has : ∀ x ∈ as, x.length = n) :
    (List.zipWith Distance.generalized.differing as bs).sum ≤ n * min as.length bs.length := by
  have hblock : ∀ d ∈ List.zipWith Distance.generalized.differing as bs, d ≤ n := by
    rw [← List.map_uncurry_zip_eq_zipWith]
    intro d hd
    obtain ⟨p, hp, rfl⟩ := List.mem_map.1 hd
    have hle := Distance.generalized.differing_le p.1 p.2
    rwa [Distance.weight, Nat.one_mul, has _ (List.of_mem_zip hp).1] at hle
  have hsum := List.sum_le_card_nsmul _ _ hblock
  rwa [List.length_zipWith, smul_eq_mul, Nat.mul_comm] at hsum

/-- A smear counts the bytes of a word that are not zero. The mask of two blocks tells where
    they agree, and what it lacks of the width are the bytes in which they differ. Over two
    strings of blocks of 32 bytes, as far as both go, these are added up, and all of them
    without a difference below zero or a sum that is too large. -/
theorem smears_and_masks_count_bytes :
    (∀ x : UInt64, (Word.nonzeroBytes x).toNat = (Word.toBytes x).countP (· ≠ 0)) ∧
    (∀ (width : UInt32) (a b : Code), width.toNat ≤ 32 →
      a.length = width.toNat → b.length = width.toNat →
      (∀ i < width.toNat, (eqMask a b).toNat.testBit i = true ↔ a[i]? = b[i]?) ∧
      (∀ i ≥ width.toNat, (eqMask a b).toNat.testBit i = false) ∧
      Word.popcount32 (eqMask a b) ≤ width ∧
      (width - Word.popcount32 (eqMask a b)).toNat = Code.differingBytes a b) ∧
    ∀ as bs : List Code, (∀ x ∈ as, x.length = 32) → (∀ y ∈ bs, y.length = 32) →
      32 * min as.length bs.length < 2 ^ 32 →
      checkedMismatches32 as bs = some (mismatches32 as bs) ∧
      (mismatches32 as bs).toNat = (List.zipWith Code.differingBytes as bs).sum := by
  refine ⟨fun x => ?_, fun width a b hwidth ha hb => ?_, fun as bs has hbs hsmall => ?_⟩
  · exact Word.toNat_nonzeroBytes (Word.ofBytes_toBytes x).symm (Word.length_toBytes x)
  · have hlen : a.length ≤ 32 := ha ▸ hwidth
    refine ⟨fun i hi => testBit_eqMask_of_lt hlen (ha ▸ hi), fun i hi =>
      testBit_eqMask_of_ge hlen (ha ▸ hi), popcount32_eqMask_le ha hwidth, ?_⟩
    exact (exact_mismatches ha hb hwidth).toNat_eq
  · have hexact := exact_mismatches32 has hbs ((sum_differing_le has).trans_lt hsmall)
    exact ⟨hexact.checked_eq, hexact.toNat_eq⟩

/-- A word of two bytes that are not zero; two blocks of 16 bytes that differ in the first one;
    and three blocks beside two, of which the first ones differ in their first and last bytes. -/
theorem smears_and_masks_threeBlocks :
    (Word.nonzeroBytes 0x8000000000000001).toNat = 2 ∧
    ((16 : UInt32).toNat ≤ 32 ∧ (List.replicate 16 7 : Code).length = (16 : UInt32).toNat ∧
      (0 :: List.replicate 15 7 : Code).length = (16 : UInt32).toNat ∧
      (eqMask (List.replicate 16 7) (0 :: List.replicate 15 7)).toNat.testBit 0 = false ∧
      (eqMask (List.replicate 16 7) (0 :: List.replicate 15 7)).toNat.testBit 15 = true ∧
      (eqMask (List.replicate 16 7) (0 :: List.replicate 15 7)).toNat.testBit 16 = false) ∧
    ∃ as bs : List Code, as.length = 3 ∧ bs.length = 2 ∧ (∀ x ∈ as, x.length = 32) ∧
      (∀ y ∈ bs, y.length = 32) ∧ 32 * min as.length bs.length < 2 ^ 32 ∧
      (mismatches32 as bs).toNat = 2 := by
  obtain ⟨hsmear, hmask, hblocks⟩ := smears_and_masks_count_bytes
  refine ⟨(hsmear _).trans (by decide), ?_, ?_⟩
  · obtain ⟨hbelow, hbeyond, -⟩ := hmask 16 (List.replicate 16 7) (0 :: List.replicate 15 7)
      (by decide) (by decide) (by decide)
    refine ⟨by decide, by decide, by decide, ?_, ?_, hbeyond 16 (by decide)⟩
    · rw [← Bool.not_eq_true, hbelow 0 (by decide)]
      decide
    · exact (hbelow 15 (by decide)).2 (by decide)
  · have has : ∀ x ∈ ([List.replicate 32 0, List.replicate 32 0, List.replicate 32 9] : List Code),
        x.length = 32 := by decide
    have hbs : ∀ y ∈ ([0x80 :: (List.replicate 30 0 ++ [0x01]), List.replicate 32 0] : List Code),
        y.length = 32 := by decide
    obtain ⟨-, hcount⟩ := hblocks _ _ has hbs (by decide)
    exact ⟨_, _, rfl, rfl, has, hbs, by decide, hcount.trans (by decide)⟩

end NeighborSearch.Block
