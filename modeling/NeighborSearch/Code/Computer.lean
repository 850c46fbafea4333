import NeighborSearch.Code.Block
import NeighborSearch.Code.Distance

/-!
# Distance computers

A *computer* holds a reference code and scores candidate codes against it. It is
made for one *strategy*: a way to cut the codes that suits their length.

* The strategies for one width take the code as one or a few words, or as one block.
* `bitsAny` takes the code as blocks of 64 bytes, then whole words, then bytes.
* `bytesAny` takes a code of whole words as blocks of 32 bytes, then words.

A candidate has to have at least the length of the reference code; what it has
beyond that is ignored. `Strategy.forBits` and `Strategy.forBytes` choose the most
special strategy for a length. Every strategy computes one of the two distances of
`NeighborSearch.Code.Distance`.
-/

namespace NeighborSearch

/-- A way to score codes: by bits or by bytes, and for which lengths. -/
inductive Strategy
  | bits4 | bits8 | bits16 | bits20 | bits32 | bits64 | bitsAny
  | bytes8 | bytes16 | bytes32 | bytesAny
deriving DecidableEq, Repr

namespace Strategy

/-- The one length of code that the strategy is made for, if it is made for one. -/
def width? : Strategy → Option Nat
  | bits4 => some 4
  | bits8 | bytes8 => some 8
  | bits16 | bytes16 => some 16
  | bits20 => some 20
  | bits32 | bytes32 => some 32
  | bits64 => some 64
  | bitsAny | bytesAny => none

/-- The distance that the strategy computes. -/
def measures : Strategy → Distance
  | bits4 | bits8 | bits16 | bits20 | bits32 | bits64 | bitsAny => .bitwise
  | bytes8 | bytes16 | bytes32 | bytesAny => .generalized

/-- Whether the strategy takes codes of length `n`, and if not, why. -/
def check (s : Strategy) (n : Nat) : Except CodeSizeError Unit :=
  match s.width? with
  | some width => if n = width then .ok () else .error (.mismatch width n)
  | none =>
    match s.measures with
    | .bitwise => .ok ()
    | .generalized => if n % 8 = 0 then .ok () else .error (.notMultiple 8 n)

/-- Codes of 20 bytes: two words of eight bytes and one of four. -/
def score20 (a b : Code) : UInt32 :=
  Word.popcount64 (Word.at64 a 0 ^^^ Word.at64 b 0) +
    Word.popcount64 (Word.at64 a 8 ^^^ Word.at64 b 8) +
    Word.popcount32 (Word.at32 a 16 ^^^ Word.at32 b 16)

/-- The differing bits of codes of one length: of their blocks of 64 bytes, of the at
    most seven words after these, and of the at most seven bytes after those. -/
def scoreBits (a b : Code) : UInt32 :=
  let wordBytes := 8 * (a.length / 8)
  let aWords := a.take wordBytes
  let bWords := b.take wordBytes
  let blocks :=
    Word.total
      (List.zipWith Block.xorPopcount512 (wholeChunks 64 aWords) (wholeChunks 64 bWords))
  let words :=
    Block.xorPopcount (Word.unpack (leftover 64 aWords)) (Word.unpack (leftover 64 bWords))
  let tail :=
    Word.total (List.zipWith (fun x y => (Word.byteCount (x ^^^ y)).toUInt32)
      (a.drop wordBytes) (b.drop wordBytes))
  blocks + words + tail

/-- The differing bytes of codes of one length, a multiple of eight: of their blocks of
    32 bytes, and of the at most three words after these. -/
def scoreBytes (a b : Code) : UInt32 :=
  let words := List.zipWith (fun x y => Word.nonzeroBytes (x ^^^ y))
    (Word.unpack (leftover 32 a)) (Word.unpack (leftover 32 b))
  Block.mismatches32 (wholeChunks 32 a) (wholeChunks 32 b) + Word.total words

/-- The distance of two codes of a length that the strategy takes. -/
def score : Strategy → (a b : Code) → UInt32
  | bits4, a, b => Word.popcount32 (Word.at32 a 0 ^^^ Word.at32 b 0)
  | bits8, a, b | bits16, a, b | bits32, a, b =>
    Block.xorPopcount (Word.unpack a) (Word.unpack b)
  | bits20, a, b => score20 a b
  | bits64, a, b => Block.xorPopcount512 a b
  | bitsAny, a, b => scoreBits a b
  | bytes8, a, b => Word.nonzeroBytes (Word.at64 a 0 ^^^ Word.at64 b 0)
  | bytes16, a, b => Block.mismatches 16 a b
  | bytes32, a, b => Block.mismatches 32 a b
  | bytesAny, a, b => scoreBytes a b

/-- The most special strategy by bits for codes of length `n`. -/
def forBits : (n : Nat) → Strategy
  | 4 => bits4
  | 8 => bits8
  | 16 => bits16
  | 20 => bits20
  | 32 => bits32
  | 64 => bits64
  | _ => bitsAny

/-- The most special strategy by bytes for codes of length `n`. -/
def forBytes : (n : Nat) → Strategy
  | 8 => bytes8
  | 16 => bytes16
  | 32 => bytes32
  | _ => bytesAny

/-- By bits, every length has a strategy that takes it. -/
theorem check_forBits (n : Nat) : (forBits n).check n = .ok () := by
  unfold forBits
  split <;> simp [check, width?, measures]

end Strategy

/-- A reference code, and a strategy that takes codes of its length. -/
structure Computer where
  /-- How candidates are scored. -/
  strategy : Strategy
  /-- The reference code. -/
  code : Code
  /-- The strategy takes codes of this length. -/
  fits : strategy.check code.length = .ok ()

namespace Computer

/-- The computer that scores against `code` by the given strategy. -/
def ofCode (s : Strategy) (code : Code) : Except CodeSizeError Computer :=
  match h : s.check code.length with
  | .ok () => .ok ⟨s, code, h⟩
  | .error e => .error e

/-- The computer for the differing bits to `code`. -/
def forBits (code : Code) : Computer :=
  ⟨.forBits code.length, code, Strategy.check_forBits _⟩

/-- The computer for the differing bytes to `code`, whose length has to be a multiple
    of eight. -/
def forBytes (code : Code) : Except CodeSizeError Computer :=
  ofCode (.forBytes code.length) code

/-- The computer for a distance to `code`. -/
def forDistance : Distance → Code → Except CodeSizeError Computer
  | .bitwise, code => .ok (forBits code)
  | .generalized, code => forBytes code

/-- Let `visit` work with the computer for a distance to `code`. Where there is none,
    `visit` is not run. -/
def dispatch {m : Type → Type} [Monad m] {β : Type} (measured : Distance) (code : Code)
    (visit : Computer → m β) : m (Except CodeSizeError β) :=
  match forDistance measured code with
  | .ok computer => .ok <$> visit computer
  | .error e => pure (.error e)

variable (c : Computer)

/-- The length of the reference code. -/
def codeSize : Nat := c.code.length

/-- The number of whole words of 64 bits in the reference code. -/
def wholeWords : Nat := c.codeSize / 8

/-- The number of bytes after the last whole word. -/
def tailBytes : Nat := c.codeSize % 8

/-- The distance of the reference code to the candidate. Only as many bytes of the
    candidate count as the reference code has; with fewer, it cannot be scored. -/
def distance (candidate : Code) : Except CodeSizeError UInt32 :=
  if c.codeSize ≤ candidate.length then
    .ok (c.strategy.score c.code (candidate.take c.codeSize))
  else
    .error (.mismatch c.codeSize candidate.length)

end Computer

end NeighborSearch
