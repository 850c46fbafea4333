import NeighborSearch.Chunk

/-!
# Codes and words

A *code* is a string of bytes. It is scored a word at a time: eight bytes make a
word of 64 bits and four bytes one of 32, the least significant byte first.

The set bits of a word are counted by `bitCount`, which goes through the bits one
by one, and those of a byte by a table. `nonzeroBytes` counts the bytes of a word
that are not zero: it folds every byte onto its lowest bit and counts these bits.
-/

namespace NeighborSearch

/-- A binary code: its bytes. -/
abbrev Code := List UInt8

/-- The number of set bits among the `width` lowest bits of `n`. -/
def bitCount : (width n : Nat) → Nat
  | 0, _ => 0
  | width + 1, n => n % 2 + bitCount width (n / 2)

theorem bitCount_le (width n : Nat) : bitCount width n ≤ width := by
  induction width generalizing n with
  | zero => exact Nat.le_refl 0
  | succ width ih =>
    have := ih (n / 2)
    have := Nat.mod_lt n (by decide : 2 > 0)
    simp only [bitCount]
    omega

@[simp] theorem bitCount_zero_right (width : Nat) : bitCount width 0 = 0 := by
  induction width with
  | zero => rfl
  | succ width ih => simp [bitCount, ih]

/-- The bits of a number are those of its low part and those of its high part. -/
theorem bitCount_add (low high n : Nat) :
    bitCount (low + high) n = bitCount low n + bitCount high (n >>> low) := by
  induction low generalizing n with
  | zero => simp [bitCount]
  | succ low ih =>
    rw [Nat.succ_add_eq_add_succ, Nat.add_succ]
    simp only [bitCount]
    have half : n >>> 1 = n / 2 := rfl
    rw [ih, Nat.add_comm low, Nat.shiftRight_add, half]
    omega

namespace Word

/-- The number whose bytes are given, the least significant one first. -/
def ofBytes : List UInt8 → Nat
  | [] => 0
  | b :: bytes => b.toNat + 256 * ofBytes bytes

theorem ofBytes_lt (bytes : List UInt8) : ofBytes bytes < 1 <<< (8 * bytes.length) := by
  induction bytes with
  | nil => exact Nat.one_pos
  | cons b bytes ih =>
    have := b.toNat_lt
    simp only [ofBytes, List.length_cons, Nat.mul_succ, Nat.shiftLeft_add]
    simp only [Nat.shiftLeft_eq] at ih ⊢
    omega

/-- The 32-bit word of the four bytes of `code` at `offset`. -/
def at32 (code : Code) (offset : Nat) : UInt32 :=
  UInt32.ofNat (ofBytes ((code.drop offset).take 4))

/-- The 64-bit word of the eight bytes of `code` at `offset`. -/
def at64 (code : Code) (offset : Nat) : UInt64 :=
  UInt64.ofNat (ofBytes ((code.drop offset).take 8))

/-- The 32-bit word at `offset`, if `code` has all of its bytes. -/
def load32? (code : Code) (offset : Nat) : Option UInt32 :=
  if offset + 4 ≤ code.length then some (at32 code offset) else none

/-- The 64-bit word at `offset`, if `code` has all of its bytes. -/
def load64? (code : Code) (offset : Nat) : Option UInt64 :=
  if offset + 8 ≤ code.length then some (at64 code offset) else none

/-- The 64-bit words that a code consists of. -/
def unpack (code : Code) : List UInt64 :=
  (wholeChunks 8 code).map (at64 · 0)

/-- The number of set bits of a 32-bit word. -/
def popcount32 (x : UInt32) : UInt32 :=
  UInt32.ofNat (bitCount 32 x.toNat)

/-- The number of set bits of a 64-bit word. -/
def popcount64 (x : UInt64) : UInt32 :=
  UInt32.ofNat (bitCount 64 x.toNat)

/-- The number of set bits of every byte. -/
def byteCounts : Vector UInt8 256 :=
  Vector.ofFn fun b => UInt8.ofNat (bitCount 8 b)

/-- The number of set bits of a byte, looked up. -/
def byteCount (b : UInt8) : UInt8 :=
  byteCounts.get ⟨b.toNat, b.toNat_lt⟩

/-- The word in which only the lowest bit of every byte is set. -/
def lowBits : UInt64 := 0x0101010101010101

/-- Counts added up. -/
def total (counts : List UInt32) : UInt32 := counts.foldr (· + ·) 0

/-- The number of bytes of `x` that are not zero. After the three shifts the lowest
    bit of a byte is set exactly when some bit of that byte was. -/
def nonzeroBytes (x : UInt64) : UInt32 :=
  let x := x ||| x >>> 1
  let x := x ||| x >>> 2
  let x := x ||| x >>> 4
  popcount64 (x &&& lowBits)

end Word

end NeighborSearch
