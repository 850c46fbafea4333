import NeighborSearch.Proofs.Selection.Geometry
import NeighborSearch.Proofs.Selection.Order
import NeighborSearch.Proofs.TaskOrder
import NeighborSearch.Selection.Merge

/-!
# What the merges leave

Every run of a level holds the smallest candidates of some group of the row, and a
merge leaves the smallest candidates of two neighbouring groups together
(`exists_run_eq_ok`). A level so joins the groups by pairs (`level_eq_ok`).
-/

namespace NeighborSearch

/-! ## Merging two runs -/

section

variable {α β : Type*}

/-- Two lists merged by any comparison, and cut off, as runs of candidates are: an element of
    the second list is taken if it comes before that of the first one. -/
def mergeBy (before : α → α → Prop) [DecidableRel before] : (room : ℕ) → List α → List α → List α
  | 0, _, _ => []
  | _, [], [] => []
  | room + 1, x :: a, [] => x :: mergeBy before room a []
  | room + 1, [], y :: b => y :: mergeBy before room [] b
  | room + 1, x :: a, y :: b =>
    if before y x then y :: mergeBy before room (x :: a) b
    else x :: mergeBy before room a (y :: b)

variable {before : α → α → Prop} [DecidableRel before]

/-- Ascending lists are merged in ascending order by any comparison that respects it. -/
theorem mergeBy_eq_smallest [LinearOrder α] (room : ℕ) {a b : List α}
    (ha : a.Pairwise (· ≤ ·)) (hb : b.Pairwise (· ≤ ·))
    (hle : ∀ x ∈ a, ∀ y ∈ b, (before y x → y ≤ x) ∧ (¬before y x → x ≤ y)) :
    mergeBy before room a b = smallest room (a ++ b) := by
  fun_induction mergeBy before room a b with
  | case1 a b => rfl
  | case2 room => simp [smallest]
  | case3 room x a ih =>
    rw [List.pairwise_cons] at ha
    rw [ih ha.2 hb (by simp), List.append_nil, List.append_nil, smallest_succ_cons ha.1]
  | case4 room y b ih =>
    rw [List.pairwise_cons] at hb
    rw [ih ha hb.2 (by simp), List.nil_append, List.nil_append, smallest_succ_cons hb.1]
  | case5 room x a y b hbefore ih =>
    have hfirst := List.pairwise_cons.1 hb
    have hyx := (hle x List.mem_cons_self y List.mem_cons_self).1 hbefore
    have hleast : ∀ z ∈ (x :: a) ++ b, y ≤ z := by
      intro z hz
      rcases List.mem_append.1 hz with hz | hz
      · rcases List.mem_cons.1 hz with rfl | hz
        · exact hyx
        · exact hyx.trans ((List.pairwise_cons.1 ha).1 z hz)
      · exact hfirst.1 z hz
    rw [ih ha hfirst.2 fun u hu v hv => hle u hu v (List.mem_cons_of_mem _ hv),
      smallest_perm List.perm_middle, smallest_succ_cons hleast]
  | case6 room x a y b hnot ih =>
    have hfirst := List.pairwise_cons.1 ha
    have hxy := (hle x List.mem_cons_self y List.mem_cons_self).2 hnot
    have hleast : ∀ z ∈ a ++ y :: b, x ≤ z := by
      intro z hz
      rcases List.mem_append.1 hz with hz | hz
      · exact hfirst.1 z hz
      · rcases List.mem_cons.1 hz with rfl | hz
        · exact hxy
        · exact hxy.trans ((List.pairwise_cons.1 hb).1 z hz)
    rw [ih hfirst.2 hb fun u hu v hv => hle u (List.mem_cons_of_mem _ hu) v hv, List.cons_append,
      smallest_succ_cons hleast]

end

theorem mergeUpTo_eq_mergeBy (room : ℕ) (a b : List Candidate) :
    mergeUpTo room a b = mergeBy (· < ·) room a b := by
  fun_induction mergeUpTo room a b with
  | case1 a b => rw [mergeBy]
  | case2 room hroom => rw [mergeBy]; exact hroom
  | case3 room x a ih => rw [ih, mergeBy]
  | case4 room y b ih => rw [ih, mergeBy]
  | case5 room x a y b hlt ih => rw [ih, mergeBy, if_pos hlt]
  | case6 room x a y b hnot ih => rw [ih, mergeBy, if_neg hnot]

theorem mergeUpTo_eq_smallest (room : ℕ) {a b : List Candidate} (ha : a.Pairwise (· ≤ ·))
    (hb : b.Pairwise (· ≤ ·)) : mergeUpTo room a b = smallest room (a ++ b) := by
  rw [mergeUpTo_eq_mergeBy]
  exact mergeBy_eq_smallest room ha hb fun _ _ _ _ => ⟨le_of_lt, le_of_not_gt⟩

/-- With room for all that is wanted of both runs, exactly that is written. -/
theorem mergeInto_eq {k : ℕ} {a b out : List Candidate} (ha : a.Pairwise (· ≤ ·))
    (hb : b.Pairwise (· ≤ ·)) (hout : out.length = min (a.length + b.length) k) :
    mergeInto a b out = (smallest k (a ++ b), (smallest k (a ++ b)).length) := by
  have hmerged : mergeUpTo out.length a b = smallest k (a ++ b) := by
    rw [mergeUpTo_eq_smallest _ ha hb, hout]
    rcases Nat.le_total k (a.length + b.length) with h | h
    · rw [Nat.min_eq_right h]
    · rw [Nat.min_eq_left h]
      exact smallest_of_length_le (by simp) (by simpa using h)
  have hrest : out.drop (smallest k (a ++ b)).length = [] := by
    rw [List.drop_eq_nil_iff, length_smallest, List.length_append, hout, Nat.min_comm]
  rw [mergeInto]
  simp only [hmerged, hrest, List.append_nil]

/-! ## Groups of candidates -/

/-- Neighbours joined by pairs; the last one of an odd number stays alone. -/
def pairUp {α : Type*} : List (List α) → List (List α)
  | [] => []
  | [a] => [a]
  | a :: b :: groups => (a ++ b) :: pairUp groups

@[simp] theorem length_pairUp {α : Type*} (groups : List (List α)) :
    (pairUp groups).length = ceilDiv groups.length 2 := by
  fun_induction pairUp groups with
  | case1 => simp [ceilDiv]
  | case2 a => simp [ceilDiv]
  | case3 a b groups ih =>
    rw [List.length_cons, ih, List.length_cons, List.length_cons, ceilDiv, ceilDiv]
    omega

theorem getElem?_pairUp {α : Type*} (groups : List (List α)) (j : ℕ) :
    (pairUp groups)[j]? = (groups[2 * j]?).map (· ++ (groups[2 * j + 1]?).getD []) := by
  fun_induction pairUp groups generalizing j with
  | case1 => rfl
  | case2 a =>
    cases j with
    | zero => simp
    | succ j => simp [Nat.mul_succ]
  | case3 a b groups ih =>
    cases j with
    | zero => rfl
    | succ j => simpa [Nat.mul_succ] using ih j

/-! ## The runs of a buffer -/

/-- The extents of a buffer of runs: how many candidates there is room for, and how many
    runs. -/
structure RunBuffer.Fits (b : RunBuffer) (slots reserved : ℕ) : Prop where
  slots : b.slots.size = slots
  reserved : b.reserved = reserved

theorem RunBuffer.HoldsAll.holds_map {b : RunBuffer} {width i : ℕ} {α : Type*}
    {f : α → List Candidate} {groups : List α} (h : b.HoldsAll width (groups.map f))
    (hi : i < groups.length) : b.Holds width i (f groups[i]) := by
  have := h.holds i (by simpa using hi)
  rwa [List.getElem_map] at this

/-- A run that is there lies within the slots. -/
theorem RunBuffer.Holds.add_le {b : RunBuffer} {width i : ℕ} {run : List Candidate}
    (h : b.Holds width i run) (hi : width * i < b.slots.size) :
    width * i + run.length ≤ b.slots.size := by
  rcases Nat.eq_zero_or_pos run.length with hzero | hpos
  · omega
  · exact h.entries.le_size hpos

/-- The only run of a buffer is at its beginning. -/
theorem RunBuffer.HoldsAll.lengths_eq {b : RunBuffer} {width : ℕ} {run : List Candidate}
    (h : b.HoldsAll width [run]) : b.lengths = #[run.length] := by
  obtain ⟨n, hn⟩ := Array.size_eq_one_iff.1 h.size
  have hlength := (h.holds 0 Nat.one_pos).length
  rw [hn] at hlength ⊢
  simpa using hlength

theorem RunBuffer.HoldsAll.take_slots {b : RunBuffer} {width : ℕ} {run : List Candidate}
    (h : b.HoldsAll width [run]) : b.slots.toList.take run.length = run := by
  have hread := (h.holds 0 Nat.one_pos).entries.toList_extract
  simpa using hread

namespace Merge

variable {k span j : ℕ} {src dst : RunBuffer} {groups : List (List Candidate)}

/-! ## One merge -/

/-- What a merge makes of its pieces: what its piece of the target is then, and the length of
    the run. -/
def joined (k span : ℕ) (source target : Array Candidate) : List ℕ →
    Except Fault (Array Candidate × ℕ)
  | [m, n] => do
    let a ← Buffer.slice source 0 m
    let b ← Buffer.slice source span (span + n)
    let out ← Buffer.slice target 0 (min (m + n) k)
    let (merged, written) := mergeInto a.toList b.toList out.toList
    return (← Buffer.write target 0 merged, written)
  | [n] => do
    let _ ← Buffer.slice target 0 n
    let a ← Buffer.slice source 0 n
    return (← Buffer.write target 0 a.toList, n)
  | _ => .ok (target, 0)

/-- A merge takes its pieces, joins the runs, and puts the outcome back. -/
theorem run_eq (k span : ℕ) (src : RunBuffer) (j : ℕ) (slots : Array Candidate)
    (lengths : Array ℕ) (reserved : ℕ) :
    run k span src j ⟨slots, lengths, reserved⟩ = (do
      let width ← Buffer.mul 2 span
      let source ← Buffer.piece width j src.slots
      let target ← Buffer.piece width j slots
      let pair ← Buffer.piece 2 j src.lengths
      let outcome ← joined k span source target pair.toList
      let slots ← Buffer.write slots (width * j) outcome.1.toList
      let lengths ← Buffer.setEntry lengths j outcome.2
      return ⟨slots, lengths, reserved⟩) := by
  rw [run]
  refine bind_congr fun width => bind_congr fun source => bind_congr fun target =>
    bind_congr fun pair => ?_
  rcases pair.toList with _ | ⟨m, _ | ⟨n, _ | _⟩⟩ <;>
    simp only [joined, bind_assoc, pure_bind, ok_bind]

/-- What the runs of a merge are joined to stands in its piece, before whatever was there. -/
theorem run_eq_ok_of_joined {merged : List Candidate} (hplace : 2 * span * j < src.slots.size)
    (hslots : dst.slots.size = src.slots.size) (hlengths : 2 * j < src.lengths.size)
    (hj : j < dst.lengths.size) (hspan : 2 * span < Size.limit)
    (hfits : merged.length ≤ min (2 * span) (src.slots.size - 2 * span * j))
    (hjoined : ∀ target : Array Candidate,
      target.size = min (2 * span) (src.slots.size - 2 * span * j) →
      joined k span (src.slots.extract (2 * span * j) (2 * span * j + 2 * span)) target
        (src.lengths.extract (2 * j) (2 * j + 2)).toList =
          .ok (Buffer.overwrite target 0 merged, merged.length)) :
    ∃ rest, (merged ++ rest).length = min (2 * span) (dst.slots.size - 2 * span * j) ∧
      run k span src j dst = .ok ⟨Buffer.overwrite dst.slots (2 * span * j) (merged ++ rest),
        dst.lengths.set j merged.length, dst.reserved⟩ := by
  obtain ⟨slots, lengths, reserved⟩ := dst
  simp only at hslots hj
  have htarget := Buffer.size_piece slots (2 * span * j) (2 * span)
  rw [hslots] at htarget
  have hwritten : 0 + merged.length ≤
      (slots.extract (2 * span * j) (2 * span * j + 2 * span)).size := by omega
  obtain ⟨rest, hrest, hpiece⟩ := Buffer.exists_toList_overwrite_piece hwritten
  refine ⟨rest, hrest, ?_⟩
  rw [run_eq, Buffer.mul_eq_ok hspan, ok_bind, Buffer.piece_eq_ok hplace, ok_bind,
    Buffer.piece_eq_ok (hslots ▸ hplace), ok_bind, Buffer.piece_eq_ok hlengths, ok_bind,
    hjoined _ htarget, ok_bind, hpiece, Buffer.write_eq_ok (by omega), ok_bind,
    Buffer.setEntry_eq_ok hj]
  rfl

/-- The first run of a merge is at the beginning of its piece. -/
theorem mul_two_mul (span j : ℕ) : span * (2 * j) = 2 * span * j + 0 := by
  rw [Nat.mul_left_comm, Nat.mul_assoc, Nat.add_zero]

/-- Of two runs that are there, a merge leaves what `k` allows, before whatever was
    there. -/
theorem run_eq_ok_of_pair {a b : List Candidate} (ha : src.Holds span (2 * j) a)
    (hb : src.Holds span (2 * j + 1) b) (hasc : a.Pairwise (· ≤ ·)) (hbsc : b.Pairwise (· ≤ ·))
    (hplace : span * (2 * j + 1) < src.slots.size) (hslots : dst.slots.size = src.slots.size)
    (hj : j < dst.lengths.size) (hspan : 2 * span < Size.limit) :
    ∃ rest, (smallest k (a ++ b) ++ rest).length = min (2 * span) (dst.slots.size - 2 * span * j) ∧
      run k span src j dst = .ok ⟨Buffer.overwrite dst.slots (2 * span * j)
        (smallest k (a ++ b) ++ rest), dst.lengths.set j (smallest k (a ++ b)).length,
        dst.reserved⟩ := by
  have hsecond : span * (2 * j + 1) = 2 * span * j + span := by
    rw [Nat.mul_succ, mul_two_mul, Nat.add_zero]
  have hawidth := ha.le_width
  have hbwidth := hb.le_width
  have hbfits := hb.add_le hplace
  rw [hsecond] at hplace hbfits
  have hplaces : 2 * j + 1 < src.lengths.size := by
    obtain ⟨h, -⟩ := Array.getElem?_eq_some_iff.1 hb.length
    exact h
  have hpair : (src.lengths.extract (2 * j) (2 * j + 2)).toList = [a.length, b.length] := by
    have hlengths : Buffer.Holds src.lengths (2 * j) [a.length, b.length] := by
      intro i hi
      match i with
      | 0 => exact ha.length
      | 1 => exact hb.length
    exact hlengths.toList_extract
  have hsource := Buffer.size_piece src.slots (2 * span * j) (2 * span)
  have hfits : (smallest k (a ++ b)).length ≤
      min (2 * span) (src.slots.size - 2 * span * j) := by
    rw [length_smallest, List.length_append]
    omega
  refine run_eq_ok_of_joined (by omega) hslots (by omega) hj hspan hfits fun target htarget => ?_
  -- Both runs are read back from the piece, each from its half.
  have haread := (ha.entries.piece (2 * span) (mul_two_mul span j) (by omega)).toList_extract
  have hbread := (hb.entries.piece (2 * span) hsecond (by omega)).toList_extract
  rw [Nat.zero_add] at haread
  have houtSize : (target.extract 0 (min (a.length + b.length) k)).toList.length =
      min (a.length + b.length) k := by
    rw [Array.length_toList, Array.size_extract]
    omega
  rw [hpair, joined, Buffer.slice_eq_ok (Nat.zero_le _) (by omega), ok_bind,
    Buffer.slice_eq_ok (Nat.le_add_right _ _) (by omega), ok_bind,
    Buffer.slice_eq_ok (Nat.zero_le _) (by omega), ok_bind, haread, hbread,
    mergeInto_eq hasc hbsc houtSize]
  simp only [Buffer.write_eq_ok ((Nat.zero_add _).trans_le (htarget ▸ hfits)), ok_bind]
  rfl

/-- A run without a partner is copied. -/
theorem run_eq_ok_of_last {a : List Candidate} (ha : src.Holds span (2 * j) a)
    (hlast : src.lengths.size = 2 * j + 1) (hplace : span * (2 * j) < src.slots.size)
    (hslots : dst.slots.size = src.slots.size) (hj : j < dst.lengths.size)
    (hspan : 2 * span < Size.limit) :
    ∃ rest, (a ++ rest).length = min (2 * span) (dst.slots.size - 2 * span * j) ∧
      run k span src j dst = .ok ⟨Buffer.overwrite dst.slots (2 * span * j) (a ++ rest),
        dst.lengths.set j a.length, dst.reserved⟩ := by
  have hawidth := ha.le_width
  have hafits := ha.add_le hplace
  rw [mul_two_mul, Nat.add_zero] at hplace hafits
  have hpair : (src.lengths.extract (2 * j) (2 * j + 2)).toList = [a.length] := by
    have hlengths : Buffer.Holds src.lengths (2 * j) [a.length] := by
      intro i hi
      match i with
      | 0 => exact ha.length
    rw [← hlengths.toList_extract]
    refine congrArg Array.toList (Array.extract_eq_extract_right.2 ?_)
    rw [List.length_singleton]
    omega
  have hsource := Buffer.size_piece src.slots (2 * span * j) (2 * span)
  have hfits : a.length ≤ min (2 * span) (src.slots.size - 2 * span * j) := by omega
  refine run_eq_ok_of_joined hplace hslots (by omega) hj hspan hfits fun target htarget => ?_
  have haread := (ha.entries.piece (2 * span) (mul_two_mul span j) (by omega)).toList_extract
  rw [Nat.zero_add] at haread
  rw [hpair, joined, Buffer.slice_eq_ok (Nat.zero_le _) (by omega), ok_bind,
    Buffer.slice_eq_ok (Nat.zero_le _) (by omega), ok_bind, haread,
    Buffer.write_eq_ok (by omega), ok_bind]
  rfl

/-- The runs that a level leaves, and what the other runs are meant to be. -/
def Leaves (k span : ℕ) (groups : List (List Candidate)) (j : ℕ) (b : RunBuffer) : Prop :=
  ∀ group, (pairUp groups)[j]? = some group → b.Holds (2 * span) j (smallest k group)

/-- While merges of a level are at work: the buffer has its extents, and a place for the
    length of every run. -/
structure Ready (slots runs reserved : ℕ) (b : RunBuffer) : Prop where
  fits : b.Fits slots reserved
  lengths : b.lengths.size = runs

/-- A merge leaves the smallest candidates of two groups, and other runs as they are. -/
theorem exists_run_eq_ok (hsrc : src.HoldsAll span (groups.map (smallest k)))
    (hplaces : ∀ i < groups.length, span * i < src.slots.size) (hspan : 2 * span < Size.limit)
    {reserved : ℕ} (hj : j < ceilDiv groups.length 2)
    (hdst : Ready src.slots.size (ceilDiv groups.length 2) reserved dst) :
    ∃ t, run k span src j dst = .ok t ∧
      Ready src.slots.size (ceilDiv groups.length 2) reserved t ∧ Leaves k span groups j t ∧
      ∀ i, i ≠ j → Leaves k span groups i dst → Leaves k span groups i t := by
  obtain ⟨⟨hslots, hreserved⟩, hlengths⟩ := hdst
  have hlt : 2 * j < groups.length := (lt_ceilDiv_iff (by decide)).1 hj
  have hsize : src.lengths.size = groups.length := by simpa using hsrc.size
  have hfirst := hsrc.holds_map hlt
  have hplace := hplaces (2 * j) hlt
  -- What the merge writes begins with the run, whether there is a partner or not.
  obtain ⟨group, hgroup, rest, hlen, hrun⟩ : ∃ group, (pairUp groups)[j]? = some group ∧
      ∃ rest, (smallest k group ++ rest).length = min (2 * span) (dst.slots.size - 2 * span * j) ∧
        run k span src j dst = .ok ⟨Buffer.overwrite dst.slots (2 * span * j)
          (smallest k group ++ rest), dst.lengths.set j (smallest k group).length,
          dst.reserved⟩ := by
    rw [getElem?_pairUp, List.getElem?_eq_getElem hlt]
    rcases Nat.lt_or_ge (2 * j + 1) groups.length with hpartner | halone
    · have hsecond := hsrc.holds_map hpartner
      rw [List.getElem?_eq_getElem hpartner]
      refine ⟨_, rfl, ?_⟩
      rw [Option.getD_some, ← smallest_smallest_append (Nat.le_refl k),
        ← smallest_append_smallest (Nat.le_refl k)]
      exact run_eq_ok_of_pair hfirst hsecond pairwise_smallest pairwise_smallest
        (hplaces _ hpartner) hslots (hlengths ▸ hj) hspan
    · rw [List.getElem?_eq_none halone]
      refine ⟨_, rfl, ?_⟩
      simp only [Option.getD_none, List.append_nil]
      exact run_eq_ok_of_last hfirst (by omega) hplace hslots (hlengths ▸ hj) hspan
  have hwrite : 2 * span * j + (smallest k group ++ rest).length ≤ dst.slots.size := by
    rw [Nat.mul_left_comm, ← Nat.mul_assoc] at hplace
    omega
  refine ⟨_, hrun, ⟨⟨by simpa using hslots, hreserved⟩, by simpa using hlengths⟩, ?_, ?_⟩
  · intro group' hgroup'
    obtain rfl : group = group' := Option.some.inj (hgroup.symm.trans hgroup')
    refine ⟨by simp [hlengths, hj], ?_, (Buffer.holds_overwrite hwrite).append_left⟩
    have := List.length_append ▸ hlen
    omega
  · intro i hne hleaves group' hgroup'
    exact (hleaves group' hgroup').write hne (by omega) hwrite (hlengths ▸ hj)

/-! ## Levels -/

/-- In whatever order its merges are done, a level joins the groups by pairs. -/
theorem level_eq_ok (hsrc : src.HoldsAll span (groups.map (smallest k)))
    (hplaces : ∀ i < groups.length, span * i < src.slots.size) (hspan : 2 * span < Size.limit)
    {reserved : ℕ} (hdst : dst.Fits src.slots.size reserved)
    (hreserved : ceilDiv groups.length 2 ≤ reserved) (order : TaskOrder) :
    ∃ t, level k span groups.length order src dst = .ok t ∧ t.Fits src.slots.size reserved ∧
      t.HoldsAll (2 * span) ((pairUp groups).map (smallest k)) := by
  have hstart : Ready src.slots.size (ceilDiv groups.length 2) reserved
      { dst with lengths := Array.replicate (ceilDiv groups.length 2) 0 } :=
    ⟨⟨hdst.slots, hdst.reserved⟩, Array.size_replicate⟩
  obtain ⟨t, ht, hready, hleaves⟩ := order.exists_foldlM_eq_ok
    (fun b j hj hb => exists_run_eq_ok hsrc hplaces hspan hj hb) hstart
  refine ⟨t, ?_, hready.fits, ?_, ?_⟩
  · rw [level, RunBuffer.reset, if_pos (hdst.reserved ▸ hreserved)]
    exact ht
  · simpa using hready.lengths
  · intro j hj
    rw [List.getElem_map]
    have hlt : j < (pairUp groups).length := by simpa using hj
    exact hleaves j (by simpa using hlt) _ (List.getElem?_eq_getElem hlt)

/-- The last run is what is selected, if it is as long as it must be. -/
theorem selected_eq_ok {last : RunBuffer} {width : ℕ} {run : List Candidate}
    (h : last.HoldsAll width [run]) (hlen : run.length = k) : selected k last = .ok run := by
  have hfits : run.length ≤ last.slots.size := by
    simpa using congrArg List.length h.take_slots
  have hread : (last.slots.extract 0 run.length).toList = run := by
    simpa using h.take_slots
  simp only [selected, h.lengths_eq, List.getElem?_toArray, List.getElem?_cons_zero, if_pos hlen,
    Buffer.slice_eq_ok (Nat.zero_le _) hfits, hread]

end Merge

end NeighborSearch
