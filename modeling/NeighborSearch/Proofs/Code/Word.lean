import Mathlib.Data.Nat.Bitwise
import NeighborSearch.Proofs.Code.Distance

/-!
# Words and their bytes

The bits of a word are those of its bytes (`testBit_ofBytes`). So words are combined as
their bytes are (`ofBytes_xor`), the bits of a word are counted byte by byte
(`bitCount_ofBytes`), and the smear of a word leaves one bit for every byte that is not
zero (`smear_and_lowBits`), so that these bytes are counted (`toNat_nonzeroBytes`). The words
of two codes thus differ in as many bits, and in as many bytes, as the codes do.
-/

namespace NeighborSearch

/-! ## Counting bits -/

/-- Only the lowest bits are counted. -/
theorem bitCount_add_two_pow_mul (width n m : ℕ) :
    bitCount width (n + 2 ^ width * m) = bitCount width n := by
  induction width generalizing n with
  | zero => rfl
  | succ width ih =>
    have hsplit : n + 2 ^ (width + 1) * m = n + 2 * (2 ^ width * m) := by
      rw [Nat.pow_succ, Nat.mul_comm (2 ^ width), Nat.mul_assoc]
    rw [bitCount, bitCount, hsplit, Nat.add_mul_mod_self_left, Nat.add_mul_div_left _ _ (by decide),
      ih]

namespace Word

variable {a b bytes : List UInt8}

/-! ## The bits of the bytes -/

theorem testBit_ofBytes (bytes : List UInt8) (k : ℕ) :
    (ofBytes bytes).testBit k = (bytes[k / 8]?.getD 0).toNat.testBit (k % 8) := by
  induction bytes generalizing k with
  | nil => simp [ofBytes]
  | cons byte bytes ih =>
    have hbyte : byte.toNat < 2 ^ 8 := byte.toNat_lt
    rw [ofBytes, Nat.add_comm, Nat.testBit_two_pow_mul_add (i := 8) _ hbyte]
    split
    case isTrue hk => rw [Nat.div_eq_of_lt hk, Nat.mod_eq_of_lt hk]; rfl
    case isFalse hk =>
      have hdiv : k / 8 = (k - 8) / 8 + 1 := by omega
      have hmod : k % 8 = (k - 8) % 8 := by omega
      rw [ih, hdiv, hmod, List.getElem?_cons_succ]

/-- Words are combined byte by byte. -/
theorem ofBytes_xor (h : a.length = b.length) :
    ofBytes a ^^^ ofBytes b = ofBytes (List.zipWith (· ^^^ ·) a b) := by
  apply Nat.eq_of_testBit_eq
  intro k
  rw [Nat.testBit_xor, testBit_ofBytes, testBit_ofBytes, testBit_ofBytes, List.getElem?_zipWith]
  rcases Nat.lt_or_ge (k / 8) a.length with hk | hk
  · have hk' : k / 8 < b.length := h ▸ hk
    rw [List.getElem?_eq_getElem hk, List.getElem?_eq_getElem hk']
    simp
  · have hk' : b.length ≤ k / 8 := h ▸ hk
    rw [List.getElem?_eq_none hk, List.getElem?_eq_none hk']
    simp

/-- The bits of a word are counted byte by byte. -/
theorem bitCount_ofBytes (bytes : List UInt8) :
    bitCount (8 * bytes.length) (ofBytes bytes) =
      (bytes.map fun byte => bitCount 8 byte.toNat).sum := by
  induction bytes with
  | nil => rfl
  | cons byte bytes ih =>
    have hhigh : (byte.toNat + 256 * ofBytes bytes) >>> 8 = ofBytes bytes := by
      have := byte.toNat_lt
      rw [Nat.shiftRight_eq_div_pow]
      omega
    have hlow : bitCount 8 (byte.toNat + 256 * ofBytes bytes) = bitCount 8 byte.toNat :=
      bitCount_add_two_pow_mul 8 _ _
    rw [List.length_cons, Nat.mul_succ, Nat.add_comm, bitCount_add, ofBytes, hhigh, hlow, ih,
      List.map_cons, List.sum_cons]

theorem bitCount_xor (h : a.length = b.length) :
    bitCount (8 * a.length) (ofBytes a ^^^ ofBytes b) = Distance.bitwise.differing a b := by
  have hlen : (List.zipWith (· ^^^ ·) a b).length = a.length := by
    rw [List.length_zipWith, h, Nat.min_self]
  rw [ofBytes_xor h, ← hlen, bitCount_ofBytes, List.map_zipWith]
  rfl

/-! ## Words of a code -/

theorem toNat_at64 (code : Code) (offset : ℕ) :
    (at64 code offset).toNat = ofBytes ((code.drop offset).take 8) := by
  have hlt := ofBytes_lt ((code.drop offset).take 8)
  have hlen : ((code.drop offset).take 8).length ≤ 8 := List.length_take_le _ _
  rw [Nat.shiftLeft_eq, Nat.one_mul] at hlt
  rw [at64, UInt64.toNat_ofNat']
  refine Nat.mod_eq_of_lt (hlt.trans_le (Nat.pow_le_pow_right (by decide) ?_))
  omega

theorem toNat_at32 (code : Code) (offset : ℕ) :
    (at32 code offset).toNat = ofBytes ((code.drop offset).take 4) := by
  have hlt := ofBytes_lt ((code.drop offset).take 4)
  have hlen : ((code.drop offset).take 4).length ≤ 4 := List.length_take_le _ _
  rw [Nat.shiftLeft_eq, Nat.one_mul] at hlt
  rw [at32, UInt32.toNat_ofNat']
  refine Nat.mod_eq_of_lt (hlt.trans_le (Nat.pow_le_pow_right (by decide) ?_))
  omega

theorem toNat_popcount64 (x : UInt64) : (popcount64 x).toNat = bitCount 64 x.toNat := by
  have := bitCount_le 64 x.toNat
  rw [popcount64, UInt32.toNat_ofNat', Nat.mod_eq_of_lt (by omega)]

theorem toNat_popcount32 (x : UInt32) : (popcount32 x).toNat = bitCount 32 x.toNat := by
  have := bitCount_le 32 x.toNat
  rw [popcount32, UInt32.toNat_ofNat', Nat.mod_eq_of_lt (by omega)]

theorem length_take_drop {z : Code} {offset k : ℕ} (h : offset + k ≤ z.length) :
    ((z.drop offset).take k).length = k := by
  rw [List.length_take, List.length_drop]
  omega

/-- Words differ in the bits in which their bytes differ. -/
theorem popcount64_xor_at64 {x y : Code} {offset : ℕ} (hx : offset + 8 ≤ x.length)
    (hy : offset + 8 ≤ y.length) :
    (popcount64 (at64 x offset ^^^ at64 y offset)).toNat =
      Distance.bitwise.differing ((x.drop offset).take 8) ((y.drop offset).take 8) := by
  have hx := length_take_drop hx
  have hy := length_take_drop hy
  rw [toNat_popcount64, UInt64.toNat_xor, toNat_at64, toNat_at64, ← bitCount_xor (hx.trans hy.symm),
    hx]

/-- Codes that are one word each. -/
theorem popcount64_xor_word {x y : Code} (hx : x.length = 8) (hy : y.length = 8) :
    (popcount64 (at64 x 0 ^^^ at64 y 0)).toNat = Distance.bitwise.differing x y := by
  have hword : (popcount64 (at64 x 0 ^^^ at64 y 0)).toNat =
      Distance.bitwise.differing ((x.drop 0).take 8) ((y.drop 0).take 8) :=
    popcount64_xor_at64 hx.ge hy.ge
  rwa [List.drop_zero, List.drop_zero, List.take_of_length_le hx.le,
    List.take_of_length_le hy.le] at hword

theorem popcount32_xor_at32 {x y : Code} {offset : ℕ} (hx : offset + 4 ≤ x.length)
    (hy : offset + 4 ≤ y.length) :
    (popcount32 (at32 x offset ^^^ at32 y offset)).toNat =
      Distance.bitwise.differing ((x.drop offset).take 4) ((y.drop offset).take 4) := by
  have hx := length_take_drop hx
  have hy := length_take_drop hy
  rw [toNat_popcount32, UInt32.toNat_xor, toNat_at32, toNat_at32, ← bitCount_xor (hx.trans hy.symm),
    hx]

/-! ## Words read with a check -/

/-- What differs between the words of two codes at `offset`, if both codes have all the
    bytes of theirs. -/
def xor64? (x y : Code) (offset : ℕ) : Option UInt64 := do
  return (← load64? x offset) ^^^ (← load64? y offset)

/-- The same of words of 32 bits. -/
def xor32? (x y : Code) (offset : ℕ) : Option UInt32 := do
  return (← load32? x offset) ^^^ (← load32? y offset)

theorem xor64?_eq_some {x y : Code} {offset : ℕ} (hx : offset + 8 ≤ x.length)
    (hy : offset + 8 ≤ y.length) :
    xor64? x y offset = some (at64 x offset ^^^ at64 y offset) := by
  rw [xor64?, load64?, load64?, if_pos hx, if_pos hy]
  rfl

theorem xor32?_eq_some {x y : Code} {offset : ℕ} (hx : offset + 4 ≤ x.length)
    (hy : offset + 4 ≤ y.length) :
    xor32? x y offset = some (at32 x offset ^^^ at32 y offset) := by
  rw [xor32?, load32?, load32?, if_pos hx, if_pos hy]
  rfl

/-! ## Bytes by the table -/

/-- The table has the number of bits of every byte. -/
theorem toNat_byteCount (byte : UInt8) :
    (byteCount byte).toUInt32.toNat = bitCount 8 byte.toNat := by
  have hle := bitCount_le 8 byte.toNat
  have hget : byteCount byte = UInt8.ofNat (bitCount 8 byte.toNat) :=
    Vector.getElem_ofFn byte.toNat_lt
  rw [UInt8.toNat_toUInt32, hget, UInt8.toNat_ofNat', Nat.mod_eq_of_lt (by omega)]

/-! ## Bytes that are not zero -/

/-- Where a word has gathered `w` bits, one shift by `w` gathers as many again. -/
theorem testBit_or_shiftRight {n gathered w : ℕ}
    (h : ∀ k, gathered.testBit k = true ↔ ∃ i < w, n.testBit (k + i) = true) (k : ℕ) :
    (gathered ||| gathered >>> w).testBit k = true ↔ ∃ i < 2 * w, n.testBit (k + i) = true := by
  rw [Nat.testBit_or, Bool.or_eq_true, Nat.testBit_shiftRight, h, h]
  constructor
  · rintro (⟨i, hi, hbit⟩ | ⟨i, hi, hbit⟩)
    · exact ⟨i, by omega, hbit⟩
    · exact ⟨w + i, by omega, by rwa [← Nat.add_assoc, Nat.add_comm k w]⟩
  · rintro ⟨i, hi, hbit⟩
    rcases Nat.lt_or_ge i w with hlow | hhigh
    · exact Or.inl ⟨i, hlow, hbit⟩
    · refine Or.inr ⟨i - w, by omega, ?_⟩
      rwa [Nat.add_comm w k, Nat.add_assoc, Nat.add_sub_cancel' hhigh]

/-- The word in which every bit has gathered the seven bits above it. -/
def smear (x : UInt64) : UInt64 :=
  let x := x ||| x >>> 1
  let x := x ||| x >>> 2
  x ||| x >>> 4

theorem nonzeroBytes_eq (x : UInt64) : nonzeroBytes x = popcount64 (smear x &&& lowBits) := rfl

theorem testBit_smear (x : UInt64) (k : ℕ) :
    (smear x).toNat.testBit k = true ↔ ∃ i < 8, x.toNat.testBit (k + i) = true := by
  have hone : ∀ k, x.toNat.testBit k = true ↔ ∃ i < 1, x.toNat.testBit (k + i) = true := by
    simp
  exact testBit_or_shiftRight (testBit_or_shiftRight (testBit_or_shiftRight hone)) k

theorem ne_zero_iff_testBit (byte : UInt8) :
    byte ≠ 0 ↔ ∃ i < 8, byte.toNat.testBit i = true := by
  constructor
  · intro hne
    have hnat : byte.toNat ≠ 0 := fun h => hne (UInt8.toNat_inj.1 h)
    obtain ⟨i, hbit⟩ := Nat.exists_testBit_of_ne_zero hnat
    refine ⟨i, ?_, hbit⟩
    apply Nat.lt_of_not_le
    intro hi
    have hlt : byte.toNat < 2 ^ i :=
      byte.toNat_lt.trans_le (Nat.pow_le_pow_right (by decide) hi)
    rw [Nat.testBit_lt_two_pow hlt] at hbit
    exact absurd hbit (by decide)
  · rintro ⟨i, -, hbit⟩ rfl
    exact absurd hbit (by simp)

/-- The lowest bits of the smear tell the bytes that are not zero from the others. -/
theorem smear_and_lowBits {x : UInt64} (hx : x.toNat = ofBytes bytes) (hlen : bytes.length = 8) :
    (smear x &&& lowBits).toNat = ofBytes (bytes.map fun byte => if byte = 0 then 0 else 1) := by
  have hlow : lowBits.toNat = ofBytes (List.replicate 8 1) := by decide
  apply Nat.eq_of_testBit_eq
  intro k
  rw [UInt64.toNat_and, Nat.testBit_and, hlow, testBit_ofBytes, testBit_ofBytes, List.getElem?_map]
  rcases Nat.lt_or_ge (k / 8) 8 with hk | hk
  · have hk' : k / 8 < bytes.length := hlen ▸ hk
    rw [List.getElem?_replicate_of_lt hk, List.getElem?_eq_getElem hk', Option.map_some,
      Option.getD_some, Option.getD_some]
    rcases Nat.eq_zero_or_pos (k % 8) with hlowest | hother
    · -- The lowest bit of a byte, where all that was gathered is of that byte.
      have hgathered : (smear x).toNat.testBit k = true ↔ bytes[k / 8] ≠ 0 := by
        rw [testBit_smear, ne_zero_iff_testBit]
        refine exists_congr fun i => and_congr_right fun hi => ?_
        have hdiv : (k + i) / 8 = k / 8 := by omega
        have hmod : (k + i) % 8 = i := by omega
        rw [hx, testBit_ofBytes, hdiv, hmod, List.getElem?_eq_getElem hk', Option.getD_some]
      have hone : (1 : UInt8).toNat.testBit (k % 8) = true := by rw [hlowest]; rfl
      rw [hone, Bool.and_true]
      by_cases hzero : bytes[k / 8] = 0
      · rw [if_pos hzero, Bool.eq_false_iff.2 fun h => hgathered.1 h hzero]
        exact (Nat.zero_testBit _).symm
      · rw [if_neg hzero, hgathered.2 hzero, hone]
    · -- The mask drops every other bit.
      have hone : (1 : UInt8).toNat.testBit (k % 8) = false := by
        apply Bool.eq_false_iff.2
        intro h
        exact absurd (Nat.testBit_one_eq_true_iff_self_eq_zero.1 h) hother.ne'
      rw [hone, Bool.and_false]
      split
      · exact (Nat.zero_testBit _).symm
      · exact hone.symm
  · rw [List.getElem?_eq_none (by simpa using hk), List.getElem?_eq_none (by rw [hlen]; exact hk)]
    simp

/-- One bit for every byte that is not zero makes as many bits. -/
theorem sum_bitCount_flags (bytes : List UInt8) :
    (bytes.map fun byte => bitCount 8 (if byte = 0 then 0 else 1 : UInt8).toNat).sum =
      bytes.countP (· ≠ 0) := by
  induction bytes with
  | nil => rfl
  | cons byte bytes ih =>
    rw [List.map_cons, List.sum_cons, ih, List.countP_cons, Nat.add_comm]
    by_cases hzero : byte = 0
    · simp [hzero]
    · simp [hzero, bitCount]

/-- The bytes that are not zero are counted. -/
theorem toNat_nonzeroBytes {x : UInt64} (hx : x.toNat = ofBytes bytes) (hlen : bytes.length = 8) :
    (nonzeroBytes x).toNat = bytes.countP (· ≠ 0) := by
  have hcount := bitCount_ofBytes (bytes.map fun byte => if byte = 0 then 0 else 1)
  rw [List.length_map, hlen, List.map_map] at hcount
  rw [nonzeroBytes_eq, toNat_popcount64, smear_and_lowBits hx hlen, hcount, ← sum_bitCount_flags]
  rfl

/-- The bytes of a word, the least significant one first. -/
def toBytes (x : UInt64) : List UInt8 :=
  (List.range 8).map fun i => (x >>> UInt64.ofNat (8 * i)).toUInt8

@[simp] theorem length_toBytes (x : UInt64) : (toBytes x).length = 8 := rfl

theorem testBit_shiftRight_toUInt8 (x : UInt64) {i j : ℕ} (hi : i < 8) (hj : j < 8) :
    (x >>> UInt64.ofNat (8 * i)).toUInt8.toNat.testBit j = x.toNat.testBit (8 * i + j) := by
  have hshift : (UInt64.ofNat (8 * i)).toNat % 64 = 8 * i := by
    rw [UInt64.toNat_ofNat']
    omega
  rw [UInt64.toNat_toUInt8, UInt64.toNat_shiftRight, hshift, Nat.testBit_mod_two_pow,
    Nat.testBit_shiftRight, decide_eq_true hj, Bool.true_and]

theorem ofBytes_toBytes (x : UInt64) : ofBytes (toBytes x) = x.toNat := by
  apply Nat.eq_of_testBit_eq
  intro k
  rw [testBit_ofBytes, toBytes, List.getElem?_map]
  rcases Nat.lt_or_ge (k / 8) 8 with hk | hk
  · rw [List.getElem?_range hk, Option.map_some, Option.getD_some,
      testBit_shiftRight_toUInt8 x hk (Nat.mod_lt k (by decide)), Nat.div_add_mod]
  · have hbeyond : x.toNat < 2 ^ k :=
      x.toNat_lt.trans_le (Nat.pow_le_pow_right (by decide) (by omega))
    rw [List.getElem?_eq_none (by rw [List.length_range]; exact hk), Nat.testBit_lt_two_pow hbeyond]
    simp

/-- Of two words, the bytes that are not zero in the exclusive or are those that differ. -/
theorem nonzeroBytes_xor_word {x y : Code} (hx : x.length = 8) (hy : y.length = 8) :
    (nonzeroBytes (at64 x 0 ^^^ at64 y 0)).toNat = Distance.generalized.differing x y := by
  have hlen : (List.zipWith (· ^^^ ·) x y).length = 8 := by
    rw [List.length_zipWith, hx, hy, Nat.min_self]
  have hword : (at64 x 0 ^^^ at64 y 0).toNat = ofBytes (List.zipWith (· ^^^ ·) x y) := by
    rw [UInt64.toNat_xor, toNat_at64, toNat_at64, List.drop_zero, List.drop_zero,
      List.take_of_length_le hx.le, List.take_of_length_le hy.le, ofBytes_xor (hx.trans hy.symm)]
  rw [toNat_nonzeroBytes hword hlen, ← List.map_uncurry_zip_eq_zipWith, List.countP_map]
  refine List.countP_congr fun p _ => ?_
  rw [Function.comp_apply, decide_eq_true_iff, decide_eq_true_iff]
  exact not_congr UInt8.xor_eq_zero_iff

end Word

end NeighborSearch
