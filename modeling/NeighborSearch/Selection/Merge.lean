import NeighborSearch.Selection.Buffer
import NeighborSearch.Selection.Geometry
import NeighborSearch.TaskOrder

/-!
# Merging runs

Two ascending runs are merged into one, which ends where it has as many candidates as
there is room for. A *level* of merges takes the runs of one buffer by pairs and leaves
the merged runs, each where the first one of its pair was, in another buffer; the last
run of an odd number is copied. Levels follow each other, from buffer to buffer and
back, until a single run is left. With every merge cut off after `k` candidates, it
holds the `k` smallest of all runs.
-/

namespace NeighborSearch

/-- The first `room` candidates of the merge of two ascending lists; of equal ones, that
    of the first list is taken first. -/
def mergeUpTo : (room : Nat) → List Candidate → List Candidate → List Candidate
  | 0, _, _ => []
  | _, [], [] => []
  | room + 1, x :: a, [] => x :: mergeUpTo room a []
  | room + 1, [], y :: b => y :: mergeUpTo room [] b
  | room + 1, x :: a, y :: b =>
    if y < x then y :: mergeUpTo room (x :: a) b else x :: mergeUpTo room a (y :: b)

/-- Merge two ascending runs into `out`, as far as it goes. The number of candidates
    written comes with what `out` is then; the entries after them stay. -/
def mergeInto (a b out : List Candidate) : List Candidate × Nat :=
  let merged := mergeUpTo out.length a b
  (merged ++ out.drop merged.length, merged.length)

namespace Merge

/-- Merge `j` of a level: runs `2 * j` and `2 * j + 1` of `src`, at distance `span`,
    become run `j` of `dst`, at twice that distance. -/
def run (k span : Nat) (src : RunBuffer) (j : Nat) : RunBuffer → Except Fault RunBuffer
  | ⟨slots, lengths, reserved⟩ => do
    let width ← Buffer.mul 2 span
    let source ← Buffer.piece width j src.slots
    let target ← Buffer.piece width j slots
    let pair ← Buffer.piece 2 j src.lengths
    let (merged, written) ←
      match pair.toList with
      | [m, n] => do
        -- Of both runs together at most `k` candidates are needed.
        let a ← Buffer.slice source 0 m
        let b ← Buffer.slice source span (span + n)
        let out ← Buffer.slice target 0 (min (m + n) k)
        let (merged, written) := mergeInto a.toList b.toList out.toList
        pure (← Buffer.write target 0 merged, written)
      | [n] => do
        -- The last run of an odd number has no partner, and is copied.
        let _ ← Buffer.slice target 0 n
        let a ← Buffer.slice source 0 n
        pure (← Buffer.write target 0 a.toList, n)
      | _ => pure (target, 0)
    let slots ← Buffer.write slots (width * j) merged.toList
    let lengths ← Buffer.setEntry lengths j written
    return ⟨slots, lengths, reserved⟩

/-- The merges of a level, in the order that is given for their number. -/
def level (k span runs : Nat) (order : TaskOrder) (src dst : RunBuffer) :
    Except Fault RunBuffer := do
  let dst ← dst.reset (ceilDiv runs 2)
  (order.tasks (ceilDiv runs 2)).foldlM (fun dst j => run k span src j dst) dst

theorem ceilDiv_two_lt {runs : Nat} (h : 1 < runs) : ceilDiv runs 2 < runs := by
  unfold ceilDiv
  omega

/-- The levels, the first one as number `depth`, until one run is left of the `runs` in
    `src`. The buffer with that run comes first in the answer, and then the two buffers in
    the places that they had. -/
def levels (k : Nat) (order : Nat → TaskOrder) (runs depth span : Nat) (src dst : RunBuffer) :
    Except Fault (RunBuffer × RunBuffer × RunBuffer) :=
  if h : 1 < runs then do
    have := ceilDiv_two_lt h
    let dst ← level k span runs (order depth) src dst
    let width ← Buffer.mul span 2
    let (last, dst, src) ← levels k order (ceilDiv runs 2) (depth + 1) width dst src
    return (last, src, dst)
  else
    return (src, src, dst)
termination_by runs

/-- The run that is left, which must hold `k` candidates. -/
def selected (k : Nat) (last : RunBuffer) : Except SelectError (List Candidate) :=
  match last.lengths[0]? with
  | some n =>
    if n = k then
      match Buffer.slice last.slots 0 n with
      | .ok candidates => .ok candidates.toList
      | .error fault => .error fault.toError
    else
      .error (.launchFailed s!"selection produced {n} entries for k = {k}")
  | none => .error (.launchFailed s!"selection produced no entries for k = {k}")

end Merge

end NeighborSearch
