import NeighborSearch.Code.Word

/-!
# Codes compared block by block

Words are compared by the bits of their exclusive or. Blocks of up to 32 bytes are
compared by their *equality mask*: a 32-bit word that has bit `i` set exactly when
the blocks agree in byte `i`. What the mask lacks of a full one are the bytes in
which the blocks differ.

The comparison of a 64-byte block and the equality mask exist in a scalar and in wider
forms, which agree in every result. A *backend* names the forms in use.
-/

namespace NeighborSearch

namespace Block

/-- The differing bits of two strings of words. -/
def xorPopcount (a b : List UInt64) : UInt32 :=
  Word.total (List.zipWith (fun x y => Word.popcount64 (x ^^^ y)) a b)

/-- The differing bits of two blocks of 64 bytes, as eight words each. -/
def xorPopcount512 (a b : Code) : UInt32 :=
  xorPopcount (Word.unpack a) (Word.unpack b)

/-- The equality mask of two blocks, the bytes of which are numbered from `i` on. -/
def eqMaskFrom (i : Nat) : (a b : Code) → UInt32
  | x :: a, y :: b =>
    ((if x = y then 1 else 0) <<< UInt32.ofNat i) ||| eqMaskFrom (i + 1) a b
  | _, _ => 0

/-- The equality mask of two blocks of at most 32 bytes. -/
def eqMask (a b : Code) : UInt32 := eqMaskFrom 0 a b

/-- The number of differing bytes of two blocks of `width` bytes, for a width of at
    most 32: what their equality mask lacks. -/
def mismatches (width : UInt32) (a b : Code) : UInt32 :=
  width - Word.popcount32 (eqMask a b)

/-- The number of differing bytes of two strings of 32-byte blocks. Blocks beyond the
    shorter string are not looked at. -/
def mismatches32 (a b : List Code) : UInt32 :=
  Word.total (List.zipWith (mismatches 32) a b)

end Block

/-- The names of the forms in use. -/
structure Backend where
  /-- The form of the comparison of 64-byte blocks. -/
  xorPopcount512 : String
  /-- The form of the equality masks. -/
  eqMask : String

namespace Backend

variable (b : Backend)

/-- Whether 64-byte blocks are compared by more than single words. -/
def hasWidePopcount : Bool := b.xorPopcount512 ≠ "scalar"

/-- Whether equality masks are formed by more than single bytes. -/
def hasVectorEqMask : Bool := b.eqMask ≠ "scalar"

/-- The backend in words. -/
def describe : String :=
  s!"xor-popcount-512: {b.xorPopcount512}, eq-mask: {b.eqMask}"

end Backend

end NeighborSearch
