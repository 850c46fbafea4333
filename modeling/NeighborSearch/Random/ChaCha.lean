import NeighborSearch.Random.Source

/-!
# The ChaCha stream

A source that is the keystream of the ChaCha cipher with twelve rounds. Its state is
sixteen words: four constants, eight words of key, the number of the block in two words,
low word first, and two zeros. A round adds, xors and rotates the words in fours, the
columns of the state in one round and its diagonals in the next. The words of a block are
those of the state after twelve rounds plus those before; the blocks are numbered from
zero on.

The eight words of key are taken from the seed by a permuted linear congruential
generator. Numbers are sampled by adding twelve words up; no run depends on that, since a
source may sample as it likes.
-/

namespace NeighborSearch

/-- The rest of a keystream. -/
structure ChaCha where
  /-- The key. -/
  key : Vector UInt32 8
  /-- The number of the next block. -/
  block : UInt64
  /-- The words of the last block that have not been drawn yet. -/
  left : List UInt32

namespace ChaCha

/-! ## Blocks -/

/-- The state of the cipher. -/
abbrev State := Vector UInt32 16

/-- The word turned to the left by some bits. -/
def rotateLeft (word n : UInt32) : UInt32 := (word <<< n) ||| (word >>> (32 - n))

/-- Add word `b` to word `a`, and xor that to word `d`, turned to the left by `n` bits. -/
def mix (a b d : Fin 16) (n : UInt32) (s : State) : State :=
  let s := s.set a (s[a] + s[b])
  s.set d (rotateLeft (s[d] ^^^ s[a]) n)

/-- A quarter of a round, on four words of the state. -/
def quarterRound (s : State) (a b c d : Fin 16) : State :=
  mix c d b 7 (mix a b d 8 (mix c d b 12 (mix a b d 16 s)))

/-- A round on the columns, and one on the diagonals. -/
def doubleRound (s : State) : State :=
  let s := quarterRound s 0 4 8 12
  let s := quarterRound s 1 5 9 13
  let s := quarterRound s 2 6 10 14
  let s := quarterRound s 3 7 11 15
  let s := quarterRound s 0 5 10 15
  let s := quarterRound s 1 6 11 12
  let s := quarterRound s 2 7 8 13
  quarterRound s 3 4 9 14

/-- The state before the rounds of a block. -/
def initial (key : Vector UInt32 8) (block : UInt64) : State :=
  let constants : Vector UInt32 4 := #v[0x61707865, 0x3320646e, 0x79622d32, 0x6b206574]
  constants ++ key ++ #v[block.toUInt32, (block >>> 32).toUInt32, 0, 0]

/-- The words of a block. -/
def words (key : Vector UInt32 8) (block : UInt64) : State :=
  let before := initial key block
  let after := Nat.repeat doubleRound 6 before
  after.zipWith (· + ·) before

/-! ## Seeds -/

/-- The next state of the generator that keys are taken from. -/
def advance (state : UInt64) : UInt64 := state * 6364136223846793005 + 11634580027462260723

/-- The word that a state of this generator stands for: its upper half folded down, and
    turned to the right by its first five bits. -/
def output (state : UInt64) : UInt32 :=
  let folded := (((state >>> 18) ^^^ state) >>> 27).toUInt32
  rotateLeft folded ((32 : UInt32) - (state >>> 59).toUInt32)

/-- The words of key of a seed, each from the state after the one before. -/
def keyWords : (n : Nat) → UInt64 → List UInt32
  | 0, _ => []
  | n + 1, state => output (advance state) :: keyWords n (advance state)

theorem length_keyWords (n : Nat) (state : UInt64) : (keyWords n state).length = n := by
  induction n generalizing state with
  | zero => rfl
  | succ n ih => rw [keyWords, List.length_cons, ih]

/-- The key of a seed. -/
def keyOfSeed (seed : UInt64) : Vector UInt32 8 :=
  ⟨(keyWords 8 seed).toArray, length_keyWords 8 seed⟩

/-! ## Words and samples -/

/-- The next word. -/
def next (source : ChaCha) : UInt32 × ChaCha :=
  match source.left with
  | word :: left => (word, { source with left })
  | [] =>
    let drawn := words source.key source.block
    (drawn[0], { source with block := source.block + 1, left := drawn.toList.tail })

/-- The sum of the high 20 bits of as many words. -/
def twentyBitSum : (words : Nat) → (sum : Nat) → ChaCha → Nat × ChaCha
  | 0, sum, source => (sum, source)
  | words + 1, sum, source =>
    let (word, source) := source.next
    twentyBitSum words (sum + (word >>> 12).toNat) source

/-- A number that is distributed nearly as the normal distribution of mean 0 and variance 1:
    the sum of twelve numbers between 0 and 1, less six. It is a multiple of 2⁻²⁰ of at
    most 23 binary digits, and hence exact as a single, whose unit is 2⁻¹⁴⁹. -/
def normal (source : ChaCha) : Single × ChaCha :=
  let (sum, source) := twentyBitSum 12 0 source
  let value : Int := sum - 6 * 0x100000
  (.ofMagnitude (decide (value < 0)) (Single.magnitudeOfUnits (value.natAbs <<< 129)), source)

instance : RandomSource ChaCha where
  seed seed := ⟨keyOfSeed seed, 0, []⟩
  next := next
  normal := normal

end ChaCha

end NeighborSearch
