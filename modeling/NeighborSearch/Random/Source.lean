import NeighborSearch.Code.Word
import NeighborSearch.Single

/-!
# Sources of generated data

The data of a run is drawn from a *source*, a stream of 32-bit words that a seed
determines. Bytes are cut from its words, one of each. Numbers are sampled from a normal
distribution: how that is done, and how many words it takes, is up to the source. Whatever
is drawn, the source is handed on as it is afterwards. Runs make no use of how a source
works.
-/

namespace NeighborSearch

/-- A stream of words that a seed determines, with a way to sample numbers. -/
class RandomSource (σ : Type) where
  /-- The stream of a seed. -/
  seed : UInt64 → σ
  /-- The next word, and the stream after it. -/
  next : σ → UInt32 × σ
  /-- A sample of the normal distribution of mean 0 and variance 1, and the stream after all
      words that were drawn for it. -/
  normal : σ → Single × σ

namespace RandomSource

variable {σ α : Type}

/-- Draw `n` times, and append what is drawn. -/
def collect (draw : σ → α × σ) : (n : Nat) → Array α → σ → Array α × σ
  | 0, drawn, source => (drawn, source)
  | n + 1, drawn, source =>
    let (a, source) := draw source
    collect draw n (drawn.push a) source

theorem size_collect (draw : σ → α × σ) (n : Nat) (drawn : Array α) (source : σ) :
    (collect draw n drawn source).1.size = drawn.size + n := by
  induction n generalizing drawn source with
  | zero => rfl
  | succ n ih =>
    rw [collect, ih, Array.size_push]
    omega

/-- Singles, one after the other, each of them drawn in the given way. -/
def singles (draw : σ → Single × σ) (n : Nat) (source : σ) : Array Single × σ :=
  collect draw n #[] source

theorem size_singles (draw : σ → Single × σ) (n : Nat) (source : σ) :
    (singles draw n source).1.size = n := by
  simp [singles, size_collect]

variable [RandomSource σ]

/-- A byte, the low one of a word. -/
def byte (source : σ) : UInt8 × σ :=
  let (word, source) := next source
  (word.toUInt8, source)

/-- Bytes, one after the other. -/
def bytes (n : Nat) (source : σ) : Code × σ :=
  let (drawn, source) := collect byte n #[] source
  (drawn.toList, source)

theorem length_bytes (n : Nat) (source : σ) : (bytes n source).1.length = n := by
  simp [bytes, size_collect]

/-- The absolute value of a sample. -/
def halfNormal (source : σ) : Single × σ :=
  let (x, source) := normal source
  (.ofMagnitude false x.magnitude, source)

end RandomSource

end NeighborSearch
