import NeighborSearch.Code.Block
import NeighborSearch.Proofs.Code.Count
import NeighborSearch.Proofs.Code.Word

/-!
# Blocks, and strings of words and of bytes

The equality mask of two blocks is the number whose binary digits tell where the blocks
agree (`testBit_eqMask`), and what it lacks of a full mask are the bytes in which they
differ (`exact_mismatches`). Strings of
words are compared word by word (`exact_words`), and strings of bytes by the table of the
bits of a byte (`exact_bytes`).
-/

namespace NeighborSearch

/-! ## Numbers by their binary digits -/

/-- The number with the given binary digits, the least significant one first. -/
def ofDigits : List Bool → ℕ
  | [] => 0
  | digit :: digits => digit.toNat + 2 * ofDigits digits

theorem testBit_ofDigits (digits : List Bool) (k : ℕ) :
    (ofDigits digits).testBit k = digits[k]?.getD false := by
  induction digits generalizing k with
  | nil => simp [ofDigits]
  | cons digit digits ih =>
    have hdigit : digit.toNat < 2 ^ 1 := Bool.toNat_lt digit
    rw [ofDigits, Nat.add_comm, Nat.testBit_two_pow_mul_add (i := 1) _ hdigit]
    cases k with
    | zero => cases digit <;> rfl
    | succ k =>
      rw [if_neg (by omega), List.getElem?_cons_succ]
      exact ih k

/-- The digits that are set. -/
theorem bitCount_ofDigits {width : ℕ} {digits : List Bool} (h : digits.length ≤ width) :
    bitCount width (ofDigits digits) = digits.count true := by
  induction digits generalizing width with
  | nil => exact bitCount_zero_right width
  | cons digit digits ih =>
    obtain ⟨width, rfl⟩ : ∃ w, width = w + 1 := ⟨width - 1, by rw [List.length_cons] at h; omega⟩
    have hmod : (digit.toNat + 2 * ofDigits digits) % 2 = digit.toNat := by
      have := Bool.toNat_lt digit
      omega
    have hdiv : (digit.toNat + 2 * ofDigits digits) / 2 = ofDigits digits := by
      have := Bool.toNat_lt digit
      omega
    rw [ofDigits, bitCount, hmod, hdiv, ih (Nat.le_of_succ_le_succ h), List.count_cons,
      Nat.add_comm]
    cases digit <;> rfl

namespace Block

variable {a b : Code}

/-! ## Equality masks -/

/-- Where two blocks agree, byte by byte. -/
def agreements (a b : Code) : List Bool := List.zipWith (fun x y => decide (x = y)) a b

/-- Every byte that agrees sets a bit above those of the bytes before it. -/
theorem toNat_eqMaskFrom (i : ℕ) (hlen : i + a.length ≤ 32) :
    (eqMaskFrom i a b).toNat = 2 ^ i * ofDigits (agreements a b) := by
  induction a generalizing b i with
  | nil => rfl
  | cons x a ih =>
    cases b with
    | nil => rfl
    | cons y b =>
      rw [List.length_cons] at hlen
      have hi : (UInt32.ofNat i).toNat % 32 = i := by
        rw [UInt32.toNat_ofNat']
        omega
      have hrest := ih (b := b) (i + 1) (by omega)
      have hagree : agreements (x :: a) (y :: b) = decide (x = y) :: agreements a b := rfl
      -- The bits of the later bytes lie above bit `i`, so that the disjunction is a sum.
      rw [eqMaskFrom, UInt32.toNat_or, UInt32.toNat_shiftLeft, hi, hrest, hagree, ofDigits]
      by_cases hxy : x = y
      · have hpow : 2 ^ i < 2 ^ 32 := Nat.pow_lt_pow_right (by decide) (by omega)
        have hone : (1 : UInt32).toNat <<< i % 2 ^ 32 = 2 ^ i := by
          rw [Nat.shiftLeft_eq, UInt32.toNat_one, Nat.one_mul, Nat.mod_eq_of_lt hpow]
        rw [if_pos hxy, hone, decide_eq_true hxy, Nat.or_comm,
          ← Nat.two_pow_add_eq_or_of_lt (Nat.pow_lt_pow_succ (by decide)), Bool.toNat_true,
          Nat.mul_add, Nat.mul_one, Nat.pow_succ, Nat.mul_assoc, Nat.add_comm]
      · rw [if_neg hxy, decide_eq_false hxy, Bool.toNat_false]
        simp [Nat.pow_succ, Nat.mul_assoc]

theorem toNat_eqMask (hlen : a.length ≤ 32) :
    (eqMask a b).toNat = ofDigits (agreements a b) := by
  rw [eqMask, toNat_eqMaskFrom 0 (by omega), Nat.pow_zero, Nat.one_mul]

/-- A bit of the mask is set where both blocks have the same byte, and so none is set at or
    beyond their width. -/
theorem testBit_eqMask (hlen : a.length ≤ 32) (i : ℕ) :
    (eqMask a b).toNat.testBit i = true ↔ ∃ x, a[i]? = some x ∧ b[i]? = some x := by
  rw [toNat_eqMask hlen, testBit_ofDigits, agreements, List.getElem?_zipWith]
  cases a[i]? with
  | none => simp
  | some x =>
    cases b[i]? with
    | none => simp
    | some y => simp [eq_comm]

/-- The mask has as many set bits as there are bytes in which both blocks agree. -/
theorem toNat_popcount32_eqMask (hlen : a.length ≤ 32) :
    (Word.popcount32 (eqMask a b)).toNat = (agreements a b).count true := by
  have hmask : (agreements a b).length ≤ 32 := by
    rw [agreements, List.length_zipWith]
    omega
  rw [Word.toNat_popcount32, toNat_eqMask hlen, bitCount_ofDigits hmask]

/-- Bytes agree or differ. -/
theorem differing_add_count_agreements (hlen : a.length = b.length) :
    Distance.generalized.differing a b + (agreements a b).count true = a.length := by
  rw [Distance.differing_eq_sum, agreements]
  induction a generalizing b with
  | nil => rfl
  | cons x a ih =>
    cases b with
    | nil => cases hlen
    | cons y b =>
      have hrest := ih (Nat.succ.inj hlen)
      rw [List.zipWith_cons_cons, List.zipWith_cons_cons, List.sum_cons, List.count_cons,
        List.length_cons, Distance.ofByte]
      by_cases hxy : x = y
      · simp [hxy]
        omega
      · simp [hxy]
        omega

/-- What the mask of two blocks lacks, with the subtraction checked. -/
def checkedMismatches (width : UInt32) (a b : Code) : Option UInt32 :=
  Word.checkedSub width (Word.popcount32 (eqMask a b))

theorem exact_mismatches {width : UInt32} (ha : a.length = width.toNat)
    (hb : b.length = width.toNat) (hwidth : width.toNat ≤ 32) :
    Word.Exact (checkedMismatches width a b) (mismatches width a b)
      (Distance.generalized.differing a b) := by
  refine Word.Exact.sub ?_ (toNat_popcount32_eqMask (ha ▸ hwidth))
  rw [differing_add_count_agreements (ha.trans hb.symm), ha]

/-- The differing bytes of two strings of blocks, with every operation checked. -/
def checkedMismatches32 (a b : List Code) : Option UInt32 :=
  Word.checkedTotal 0 (List.zipWith (checkedMismatches 32) a b)

theorem exact_mismatches32 {a b : List Code} (ha : ∀ x ∈ a, x.length = 32)
    (hb : ∀ y ∈ b, y.length = 32)
    (h : (List.zipWith Distance.generalized.differing a b).sum < 2 ^ 32) :
    Word.Exact (checkedMismatches32 a b) (mismatches32 a b)
      (List.zipWith Distance.generalized.differing a b).sum := by
  rw [← Nat.zero_add (List.sum _)] at h ⊢
  rw [mismatches32, ← UInt32.zero_add (Word.total _)]
  refine Word.Exact.total_zipWith (fun p hp => ?_) UInt32.toNat_zero h
  exact exact_mismatches (ha _ (List.of_mem_zip hp).1) (hb _ (List.of_mem_zip hp).2) (by decide)

/-! ## Strings of words -/

/-- What `count` finds between the words of two codes, added to what was `counted` before,
    with every word and every sum checked. -/
def checkedWords (count : UInt64 → UInt32) (counted : UInt32) (a b : Code) : Option UInt32 :=
  Word.checkedTotal counted
    (List.zipWith (fun x y => count <$> Word.xor64? x y 0) (wholeChunks 8 a) (wholeChunks 8 b))

/-- What is exact for two words is exact for two codes that consist of words. -/
theorem exact_words {d : Distance} {count : UInt64 → UInt32}
    (hword : ∀ {x y : Code}, x.length = 8 → y.length = 8 →
      (count (Word.at64 x 0 ^^^ Word.at64 y 0)).toNat = d.differing x y)
    (hlen : a.length = b.length) (hwords : 8 ∣ a.length) {counted : UInt32} {n : ℕ}
    (hcounted : counted.toNat = n) (h : n + d.differing a b < 2 ^ 32) :
    Word.Exact (checkedWords count counted a b)
      (counted + Word.total
        (List.zipWith (fun x y => count (x ^^^ y)) (Word.unpack a) (Word.unpack b)))
      (n + d.differing a b) := by
  rw [← d.sum_differing_of_dvd (by decide) hlen hwords] at h ⊢
  rw [checkedWords, Word.unpack, Word.unpack, List.zipWith_map]
  refine Word.Exact.total_zipWith (fun p hp => ?_) hcounted h
  have hx := length_of_mem_wholeChunks (List.of_mem_zip hp).1
  have hy := length_of_mem_wholeChunks (List.of_mem_zip hp).2
  rw [Word.xor64?_eq_some hx.ge hy.ge]
  exact Word.Exact.of_toNat_eq (hword hx hy)

/-- The differing bits of two codes that consist of words, with every word and every sum
    checked. -/
def checkedXorPopcount (a b : Code) : Option UInt32 := checkedWords Word.popcount64 0 a b

theorem exact_xorPopcount (hlen : a.length = b.length) (hwords : 8 ∣ a.length)
    (h : Distance.bitwise.differing a b < 2 ^ 32) :
    Word.Exact (checkedXorPopcount a b) (xorPopcount (Word.unpack a) (Word.unpack b))
      (Distance.bitwise.differing a b) := by
  rw [← Nat.zero_add (Distance.differing _ _ _)] at h ⊢
  rw [xorPopcount, ← UInt32.zero_add (Word.total _)]
  exact exact_words Word.popcount64_xor_word hlen hwords UInt32.toNat_zero h

/-! ## Strings of bytes -/

/-- The differing bits of two strings of bytes, looked up byte by byte and added to what was
    `counted` before, with every sum checked. -/
def checkedBytes (counted : UInt32) (a b : Code) : Option UInt32 :=
  Word.checkedTotal counted
    (List.zipWith (fun x y => some (Word.byteCount (x ^^^ y)).toUInt32) a b)

theorem exact_bytes {counted : UInt32} {n : ℕ} (hcounted : counted.toNat = n)
    (h : n + Distance.bitwise.differing a b < 2 ^ 32) :
    Word.Exact (checkedBytes counted a b)
      (counted + Word.total (List.zipWith (fun x y => (Word.byteCount (x ^^^ y)).toUInt32) a b))
      (n + Distance.bitwise.differing a b) := by
  have hbyte : ∀ p ∈ a.zip b,
      Word.Exact (some (Word.byteCount (p.1 ^^^ p.2)).toUInt32)
        (Word.byteCount (p.1 ^^^ p.2)).toUInt32 (Distance.bitwise.ofByte p.1 p.2) :=
    fun p _ => Word.Exact.of_toNat_eq (Word.toNat_byteCount _)
  rw [Distance.bitwise.differing_eq_sum] at h ⊢
  exact Word.Exact.total_zipWith hbyte hcounted h

end Block

end NeighborSearch
