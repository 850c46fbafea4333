import NeighborSearch.Code.Computer
import NeighborSearch.Proofs.Code.Block

/-!
# Scores are exact

Every strategy cuts the codes in its own way. Its *checked* score reads the same words and
makes the same sums and differences in the same order, and has no result where a code ends
before a word does, or where a sum or a difference does not fit in a word.
For codes whose distance fits in a word at all, the checked score is the score, and it is
the distance (`exact_score`).

The cuts are accounted for one at a time: at the last whole word, at the last whole block,
and within the blocks.
-/

namespace NeighborSearch.Strategy

open Word (Exact)

variable {a b : Code}

/-! ## Checked scores -/

/-- The score of codes of 20 bytes, with every word and every sum checked. -/
def checkedScore20 (a b : Code) : Option UInt32 := do
  let first ← Word.xor64? a b 0
  let second ← Word.xor64? a b 8
  let third ← Word.xor32? a b 16
  let words ← Word.checkedAdd (Word.popcount64 first) (Word.popcount64 second)
  Word.checkedAdd words (Word.popcount32 third)

/-- The score by bits of codes of one length: the words and the bytes after the blocks are
    added one by one to the sum of the blocks. -/
def checkedScoreBits (a b : Code) : Option UInt32 := do
  let wordBytes := 8 * (a.length / 8)
  let aWords := a.take wordBytes
  let bWords := b.take wordBytes
  let blocks ← Word.checkedTotal 0
    (List.zipWith Block.checkedXorPopcount (wholeChunks 64 aWords) (wholeChunks 64 bWords))
  let words ← Block.checkedWords Word.popcount64 blocks (leftover 64 aWords) (leftover 64 bWords)
  Block.checkedBytes words (a.drop wordBytes) (b.drop wordBytes)

/-- The score by bytes of codes of whole words: the words after the blocks are added one by
    one to the sum of the blocks. -/
def checkedScoreBytes (a b : Code) : Option UInt32 := do
  let blocks ← Block.checkedMismatches32 (wholeChunks 32 a) (wholeChunks 32 b)
  Block.checkedWords Word.nonzeroBytes blocks (leftover 32 a) (leftover 32 b)

/-- The score of two codes of a length that the strategy takes, with every word, every sum
    and every difference checked. -/
def checkedScore : Strategy → (a b : Code) → Option UInt32
  | bits4, a, b => Word.popcount32 <$> Word.xor32? a b 0
  | bits8, a, b | bits16, a, b | bits32, a, b | bits64, a, b => Block.checkedXorPopcount a b
  | bits20, a, b => checkedScore20 a b
  | bitsAny, a, b => checkedScoreBits a b
  | bytes8, a, b => Word.nonzeroBytes <$> Word.xor64? a b 0
  | bytes16, a, b => Block.checkedMismatches 16 a b
  | bytes32, a, b => Block.checkedMismatches 32 a b
  | bytesAny, a, b => checkedScoreBytes a b

/-! ## Codes of 20 bytes -/

/-- The three words are the first eight bytes, the next eight and the last four. -/
theorem differing_words20 (a b : Code) :
    Distance.bitwise.differing (a.take 8) (b.take 8) +
      Distance.bitwise.differing ((a.drop 8).take 8) ((b.drop 8).take 8) +
      Distance.bitwise.differing (a.drop 16) (b.drop 16) = Distance.bitwise.differing a b := by
  rw [← Distance.bitwise.differing_take_add_drop 8 a b,
    ← Distance.bitwise.differing_take_add_drop 8 (a.drop 8) (b.drop 8), List.drop_drop,
    List.drop_drop, Nat.add_assoc]

theorem exact_score20 (ha : a.length = 20) (hb : b.length = 20) :
    Exact (checkedScore20 a b) (score20 a b) (Distance.bitwise.differing a b) := by
  have hfirst : (Word.popcount64 (Word.at64 a 0 ^^^ Word.at64 b 0)).toNat =
      Distance.bitwise.differing (a.take 8) (b.take 8) :=
    Word.popcount64_xor_at64 (by omega) (by omega)
  have hsecond : (Word.popcount64 (Word.at64 a 8 ^^^ Word.at64 b 8)).toNat =
      Distance.bitwise.differing ((a.drop 8).take 8) ((b.drop 8).take 8) :=
    Word.popcount64_xor_at64 (by omega) (by omega)
  have hthird : (Word.popcount32 (Word.at32 a 16 ^^^ Word.at32 b 16)).toNat =
      Distance.bitwise.differing (a.drop 16) (b.drop 16) := by
    have hword := Word.popcount32_xor_at32 (ha.ge : 16 + 4 ≤ a.length) (hb.ge : 16 + 4 ≤ b.length)
    rwa [List.take_of_length_le (by rw [List.length_drop, ha]),
      List.take_of_length_le (by rw [List.length_drop, hb])] at hword
  -- Codes of this length differ in 160 bits at most.
  have hle := Distance.bitwise.differing_le a b
  rw [Distance.weight, ha, ← differing_words20] at hle
  rw [← differing_words20, checkedScore20, score20, Word.xor64?_eq_some (by omega) (by omega),
    Word.xor64?_eq_some (by omega) (by omega), Word.xor32?_eq_some (by omega) (by omega)]
  simp only [Option.bind_eq_bind, Option.bind_some]
  have hwords := Exact.add hfirst hsecond (by omega)
  exact hwords.bind (Exact.add hwords.toNat_eq hthird (by omega))

/-! ## Codes of any length -/

/-- The blocks of the whole words, the words after them, and the bytes after those. -/
theorem exact_scoreBits (hlen : a.length = b.length)
    (h : Distance.bitwise.differing a b < 2 ^ 32) :
    Exact (checkedScoreBits a b) (scoreBits a b) (Distance.bitwise.differing a b) := by
  rw [checkedScoreBits, scoreBits]
  generalize hk : 8 * (a.length / 8) = k
  have hwhole : (a.take k).length = (b.take k).length := by
    rw [List.length_take, List.length_take, hlen]
  have hrest : (leftover 64 (a.take k)).length = (leftover 64 (b.take k)).length := by
    rw [length_leftover, length_leftover, hwhole]
  -- What the blocks leave of whole words are whole words.
  have hdvd : 8 ∣ (leftover 64 (a.take k)).length := by
    rw [length_leftover, List.length_take]
    omega
  rw [← Distance.bitwise.differing_take_add_drop k a b,
    ← Distance.bitwise.sum_differing_wholeChunks (by decide : 0 < 64) hwhole] at h ⊢
  have hblock : ∀ p ∈ (wholeChunks 64 (a.take k)).zip (wholeChunks 64 (b.take k)),
      Exact (Block.checkedXorPopcount p.1 p.2) (Block.xorPopcount512 p.1 p.2)
        (Distance.bitwise.differing p.1 p.2) := by
    intro p hp
    have hx := length_of_mem_wholeChunks (List.of_mem_zip hp).1
    have hy := length_of_mem_wholeChunks (List.of_mem_zip hp).2
    have hle := Distance.bitwise.differing_le p.1 p.2
    rw [Distance.weight, hx] at hle
    exact Block.exact_xorPopcount (hx.trans hy.symm) (hx ▸ by decide) (by omega)
  have hblocks := Exact.total_zipWith hblock UInt32.toNat_zero (by omega)
  rw [UInt32.zero_add, Nat.zero_add] at hblocks
  have hwords := Block.exact_words Word.popcount64_xor_word hrest hdvd hblocks.toNat_eq (by omega)
  exact hblocks.bind (hwords.bind (Block.exact_bytes hwords.toNat_eq h))

theorem total_replicate (m : ℕ) (count : UInt32) :
    Word.total (List.replicate m count) = UInt32.ofNat m * count := by
  induction m with
  | zero => exact UInt32.zero_mul.symm
  | succ m ih =>
    have hcons : Word.total (List.replicate (m + 1) count) =
        count + Word.total (List.replicate m count) := rfl
    have hone : UInt32.ofNat 1 = 1 := rfl
    rw [hcons, ih, UInt32.ofNat_add, UInt32.add_mul, hone, UInt32.one_mul, UInt32.add_comm]

theorem xorPopcount512_replicate (x y : UInt8) :
    Block.xorPopcount512 (List.replicate 64 x) (List.replicate 64 y) =
      UInt32.ofNat (64 * Distance.bitwise.ofByte x y) := by
  have hle := Distance.bitwise.ofByte_le x y
  rw [Distance.weight] at hle
  have hexact := Block.exact_xorPopcount (a := List.replicate 64 x) (b := List.replicate 64 y)
    (by simp) (by simp) (by rw [Distance.bitwise.differing_replicate]; omega)
  rw [Distance.bitwise.differing_replicate] at hexact
  rw [← hexact.toNat_eq, UInt32.ofNat_toNat]
  rfl

/-- Codes of whole blocks, with one byte over and over: of a distance that does not fit in a word,
    the score is what is left. -/
theorem scoreBits_replicate (m : ℕ) (x y : UInt8) :
    scoreBits (List.replicate (64 * m) x) (List.replicate (64 * m) y) =
      UInt32.ofNat (64 * m * Distance.bitwise.ofByte x y) := by
  have hwords : 8 * (64 * m / 8) = 64 * m := by omega
  have hblocks (z : UInt8) : leftover 64 (List.replicate (64 * m) z) = [] :=
    leftover_of_dvd (by rw [List.length_replicate]; exact Nat.dvd_mul_right 64 m)
  have htake (z : UInt8) : (List.replicate (64 * m) z).take (64 * m) = List.replicate (64 * m) z :=
    List.take_of_length_le List.length_replicate.le
  have hdrop (z : UInt8) : (List.replicate (64 * m) z).drop (64 * m) = [] :=
    List.drop_of_length_le List.length_replicate.le
  have hnone : Word.unpack [] = [] := by
    rw [Word.unpack, wholeChunks_of_lt (by decide), List.map_nil]
  rw [scoreBits]
  simp only [List.length_replicate, hwords, htake, hdrop, hblocks, hnone,
    wholeChunks_replicate (by decide : 0 < 64), List.zipWith_replicate, Nat.min_self,
    total_replicate, xorPopcount512_replicate, ← UInt32.ofNat_mul]
  rw [Nat.mul_left_comm, ← Nat.mul_assoc]
  exact (UInt32.add_zero _).trans (UInt32.add_zero _)

/-! ## Codes of whole words -/

/-- The blocks, and the words after them. -/
theorem exact_scoreBytes (hlen : a.length = b.length) (hwords : 8 ∣ a.length)
    (h : Distance.generalized.differing a b < 2 ^ 32) :
    Exact (checkedScoreBytes a b) (scoreBytes a b) (Distance.generalized.differing a b) := by
  have hrest : (leftover 32 a).length = (leftover 32 b).length := by
    rw [length_leftover, length_leftover, hlen]
  have hdvd : 8 ∣ (leftover 32 a).length := by
    rw [length_leftover]
    omega
  rw [← Distance.generalized.sum_differing_wholeChunks (by decide : 0 < 32) hlen] at h ⊢
  have hblocks := Block.exact_mismatches32 (a := wholeChunks 32 a) (b := wholeChunks 32 b)
    (fun _ hx => length_of_mem_wholeChunks hx) (fun _ hy => length_of_mem_wholeChunks hy)
    (by omega)
  exact hblocks.bind (Block.exact_words Word.nonzeroBytes_xor_word hrest hdvd hblocks.toNat_eq h)

/-! ## Codes of the lengths that a strategy takes -/

/-- Long codes are scored by bits like codes of any length. -/
theorem forBits_of_lt {n : ℕ} (h : 64 < n) : forBits n = .bitsAny := by
  unfold forBits
  split
  all_goals first | omega | rfl

/-- A strategy for one width takes codes of that width only, and says so of others. -/
theorem check_of_width {s : Strategy} {width : ℕ} (hwidth : s.width? = some width) (n : ℕ) :
    s.check n = if n = width then .ok () else .error (.mismatch width n) := by
  rw [check, hwidth]

theorem eq_of_check {s : Strategy} {width n : ℕ} (hwidth : s.width? = some width)
    (hfits : s.check n = .ok ()) : n = width := by
  rw [check_of_width hwidth] at hfits
  split at hfits
  case isTrue hn => exact hn
  case isFalse => cases hfits

theorem check_bytesAny (n : ℕ) :
    bytesAny.check n = if n % 8 = 0 then .ok () else .error (.notMultiple 8 n) := rfl

theorem dvd_of_check_bytesAny {n : ℕ} (hfits : bytesAny.check n = .ok ()) : 8 ∣ n := by
  rw [check_bytesAny] at hfits
  split at hfits
  case isTrue hn => exact Nat.dvd_of_mod_eq_zero hn
  case isFalse => cases hfits

/-- Codes that a strategy takes and whose distance fits in a word are scored exactly. -/
theorem exact_score (s : Strategy) (hfits : s.check a.length = .ok ()) (hlen : a.length = b.length)
    (hlt : s.measures.differing a b < 2 ^ 32) :
    Exact (s.checkedScore a b) (s.score a b) (s.measures.differing a b) := by
  cases s with
  | bits4 =>
    have ha : a.length = 4 := eq_of_check rfl hfits
    have hword := Word.popcount32_xor_at32 (ha.ge : 0 + 4 ≤ a.length) (hlen ▸ ha.ge)
    rw [List.drop_zero, List.drop_zero, List.take_of_length_le ha.le,
      List.take_of_length_le (hlen ▸ ha.le)] at hword
    rw [checkedScore, Word.xor32?_eq_some ha.ge (hlen ▸ ha.ge)]
    exact Exact.of_toNat_eq hword
  | bits8 | bits16 | bits32 | bits64 =>
    have ha := eq_of_check rfl hfits
    exact Block.exact_xorPopcount hlen (by omega) hlt
  | bits20 =>
    have ha : a.length = 20 := eq_of_check rfl hfits
    exact exact_score20 ha (hlen ▸ ha)
  | bitsAny => exact exact_scoreBits hlen hlt
  | bytes8 =>
    have ha : a.length = 8 := eq_of_check rfl hfits
    rw [checkedScore, Word.xor64?_eq_some ha.ge (hlen ▸ ha.ge)]
    exact Exact.of_toNat_eq (Word.nonzeroBytes_xor_word ha (hlen ▸ ha))
  | bytes16 | bytes32 =>
    have ha := eq_of_check rfl hfits
    exact Block.exact_mismatches ha (hlen ▸ ha) (by decide)
  | bytesAny =>
    exact exact_scoreBytes hlen (dvd_of_check_bytesAny hfits) hlt

end NeighborSearch.Strategy
