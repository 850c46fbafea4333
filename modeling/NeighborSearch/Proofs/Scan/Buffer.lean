import NeighborSearch.Proofs.Code.Computer
import NeighborSearch.Scan.Buffer

/-!
# What a scan leaves

A scan is *refused* for the first thing that is wrong with it (`Refused`): with the shapes
of the query and the buffer (`Misshapen`), with the output, or with the length that the
distance asks for. A scan that *fits* (`Fits`) is never refused.

* `run_distances_of_refused`: a refused scan tells its error and leaves the output as it was.
* `Fits.run_distances_eq`: what a scan that fits writes does not depend on what the output
  held before, nor on the order in which the entries are written.
* `run_distances_of_fits`: for queries that are not too long these are the distances.
* `checkedDistances_eq`: nothing on the way breaks off. The *checked* scan has no result
  where codes of no bytes would have to be cut from the buffer, where a position has no code
  or no entry, or where a score breaks off; for queries that are not too long it is the scan.
-/

namespace NeighborSearch.Scan

variable {measured : Distance} {query codes : Code} {order : TaskOrder} {out : Array UInt32}
  {n : ℕ} {e : ScanError}

/-! ## Shapes -/

/-- The buffer consists of `n` codes of the length of the query, which has some bytes. -/
structure Consists (query codes : Code) (n : ℕ) : Prop where
  pos : 0 < query.length
  length_eq : codes.length = n * query.length

/-- Why a buffer does not consist of codes of the length of the query. -/
inductive Misshapen (query codes : Code) : ScanError → Prop
  | emptyQuery : query.length = 0 → Misshapen query codes .emptyQuery
  | raggedCodes : 0 < query.length → ¬query.length ∣ codes.length →
    Misshapen query codes (.raggedCodes codes.length query.length)

/-- A scan of `n` codes for an output of as many entries, by a distance that is defined for
    the query. -/
structure Fits (measured : Distance) (query codes : Code) (n : ℕ) : Prop
    extends Consists query codes n where
  whole_words : measured = .generalized → query.length % 8 = 0

/-- The first thing that is wrong with a scan for an output of so many entries. -/
inductive Refused (measured : Distance) (query codes : Code) (entries : ℕ) : ScanError → Prop
  | shape {e : ScanError} : Misshapen query codes e → Refused measured query codes entries e
  | outputLength {n : ℕ} : Consists query codes n → entries ≠ n →
    Refused measured query codes entries (.outputLength n entries)
  | codeSize : Consists query codes entries → measured = .generalized → query.length % 8 ≠ 0 →
    Refused measured query codes entries (.codeSize (.notMultiple 8 query.length))

/-- A buffer consists of codes or is misshapen. -/
theorem consists_or_misshapen (query codes : Code) :
    (∃ n, Consists query codes n) ∨ ∃ e, Misshapen query codes e := by
  rcases Nat.eq_zero_or_pos query.length with hzero | hpos
  · exact .inr ⟨_, .emptyQuery hzero⟩
  · by_cases hdvd : query.length ∣ codes.length
    · obtain ⟨n, hn⟩ := hdvd
      exact .inl ⟨n, hpos, hn.trans (Nat.mul_comm _ _)⟩
    · exact .inr ⟨_, .raggedCodes hpos hdvd⟩

/-- A scan fits or is refused. -/
theorem fits_or_refused (measured : Distance) (query codes : Code) (entries : ℕ) :
    Fits measured query codes entries ∨ ∃ e, Refused measured query codes entries e := by
  rcases consists_or_misshapen query codes with ⟨n, hn⟩ | ⟨e, he⟩
  · by_cases hentries : entries = n
    · subst hentries
      by_cases hwords : measured = .generalized → query.length % 8 = 0
      · exact .inl ⟨hn, hwords⟩
      · obtain ⟨hmeasured, hragged⟩ := Classical.not_imp.1 hwords
        exact .inr ⟨_, .codeSize hn hmeasured hragged⟩
    · exact .inr ⟨_, .outputLength hn hentries⟩
  · exact .inr ⟨e, .shape he⟩

theorem countCodes_of_consists (h : Consists query codes n) : countCodes query codes = .ok n := by
  have hmod : codes.length % query.length = 0 := by rw [h.length_eq, Nat.mul_mod_left]
  rw [countCodes, if_neg h.pos.ne', if_neg (not_not_intro hmod), h.length_eq,
    Nat.mul_div_cancel _ h.pos]

theorem countCodes_of_misshapen (h : Misshapen query codes e) :
    countCodes query codes = .error e := by
  cases h with
  | emptyQuery hzero => rw [countCodes, if_pos hzero]
  | raggedCodes hpos hdvd =>
    have hmod : codes.length % query.length ≠ 0 := fun h => hdvd (Nat.dvd_of_mod_eq_zero h)
    rw [countCodes, if_neg hpos.ne', if_pos hmod]

theorem checkOutput_of_consists (h : Consists query codes n) (entries : ℕ) :
    checkOutput query codes entries =
      if entries = n then .ok n else .error (.outputLength n entries) := by
  rw [checkOutput, countCodes_of_consists h]
  by_cases hentries : entries = n
  · simp [hentries, bind, Except.bind, pure, Except.pure]
  · simp [hentries, bind, Except.bind, throw, throwThe, MonadExceptOf.throw]

theorem checkOutput_of_misshapen (h : Misshapen query codes e) (entries : ℕ) :
    checkOutput query codes entries = .error e := by
  rw [checkOutput, countCodes_of_misshapen h]
  rfl

/-! ## Scans, refused or not -/

/-- The visitor of a scan fills the output, or there is no computer for the query. -/
theorem run_dispatch (measured : Distance) (query : Code) (visit : Computer → ScanM Unit)
    (out : Array UInt32) :
    (do match ← Computer.dispatch measured query visit with
        | .error cause => throw (.codeSize cause)
        | .ok () => return () : ScanM Unit).run out =
      match Computer.forDistance measured query with
      | .error cause => (.error (.codeSize cause), out)
      | .ok computer => (visit computer).run out := by
  rw [Computer.dispatch]
  cases Computer.forDistance measured query with
  | error cause => rfl
  | ok computer =>
    dsimp only
    generalize visit computer = filled
    change StateT.run (ExceptT.run _) out = StateT.run filled.run out
    rw [ExceptT.run_bind, ExceptT.run_map, StateT.run_bind, StateT.run_map]
    obtain ⟨result | _, left⟩ := StateT.run filled.run out <;> rfl

/-- The shapes are checked first, then the length of the query; only then are entries
    written. -/
theorem run_distances (measured : Distance) (query codes : Code) (order : TaskOrder)
    (out : Array UInt32) :
    (distances measured query codes order).run out =
      match checkOutput query codes out.size with
      | .error e => (.error e, out)
      | .ok numCodes =>
        match Computer.forDistance measured query with
        | .error cause => (.error (.codeSize cause), out)
        | .ok computer =>
          (fill computer (wholeChunks query.length codes).toArray
            (order.tasks numCodes)).run out := by
  have hchecked : ∀ (checked : Except ScanError ℕ) (scan : ℕ → ScanM Unit),
      (do let numCodes ← checked; scan numCodes : ScanM Unit).run out = match checked with
        | .error e => (.error e, out)
        | .ok numCodes => (scan numCodes).run out := by
    intro checked scan
    cases checked <;> rfl
  refine (hchecked (checkOutput query codes out.size) _).trans ?_
  split
  · rfl
  · exact run_dispatch measured query _ out

/-- A refused scan leaves the output as it was. -/
theorem run_distances_of_refused (h : Refused measured query codes out.size e)
    (order : TaskOrder) : (distances measured query codes order).run out = (.error e, out) := by
  rw [run_distances]
  cases h with
  | shape hshape => rw [checkOutput_of_misshapen hshape]
  | outputLength hn hentries => rw [checkOutput_of_consists hn, if_neg hentries]
  | codeSize hn hmeasured hragged =>
    subst hmeasured
    rw [checkOutput_of_consists hn, if_pos rfl, Computer.forDistance_of_ragged hragged]

/-! ## What is written -/

/-- The code at a place of a buffer of codes of one size. -/
def codeAt (size : ℕ) (codes : Code) (i : ℕ) : Code := (codes.drop (i * size)).take size

/-- The output holds the distance of every code of the buffer to the query. -/
structure HoldsDistances (measured : Distance) (query codes : Code) (n : ℕ)
    (out : Array UInt32) : Prop where
  size_eq : out.size = n
  entry_eq : ∀ i < n, ∃ d, out[i]? = some d ∧
    measured.between query (codeAt query.length codes i) = .ok d ∧
    d.toNat = measured.differing query (codeAt query.length codes i)

theorem Consists.wholeChunks_eq (h : Consists query codes n) :
    wholeChunks query.length codes = (List.range n).map (codeAt query.length codes) := by
  have hcount : codes.length / query.length = n := by
    rw [h.length_eq, Nat.mul_div_cancel _ h.pos]
  rw [wholeChunks_eq_map_range h.pos, hcount]
  apply List.map_congr_left
  intro i _
  rw [codeAt, Nat.mul_comm]

theorem Consists.length_codeAt (h : Consists query codes n) {i : ℕ} (hi : i < n) :
    (codeAt query.length codes i).length = query.length := by
  have hend : (i + 1) * query.length ≤ n * query.length := Nat.mul_le_mul_right _ hi
  rw [Nat.succ_mul] at hend
  rw [codeAt, List.length_take, List.length_drop, h.length_eq]
  omega

/-- The score of the code at a place, by its distance to the query. -/
def scoreAt (measured : Distance) (query codes : Code) (i : ℕ) : UInt32 :=
  UInt32.ofNat (measured.differing query (codeAt query.length codes i))

/-- A computer for the query scores every code by its distance, and breaks off nowhere. -/
theorem Consists.distance_codeAt (h : Consists query codes n) {c : Computer}
    (hc : c.Scores measured query) {i : ℕ} (hi : i < n) :
    c.distance (codeAt query.length codes i) = .ok (scoreAt measured query codes i) ∧
      c.checkedDistance (codeAt query.length codes i) = some (scoreAt measured query codes i) ∧
      measured.between query (codeAt query.length codes i) =
        .ok (scoreAt measured query codes i) ∧
      (scoreAt measured query codes i).toNat =
        measured.differing query (codeAt query.length codes i) := by
  have hlength := h.length_codeAt hi
  obtain ⟨score, hscore, hcount, hbetween, hchecked⟩ := hc.distance_eq hlength.ge
  rw [List.take_of_length_le hlength.le] at hcount hbetween
  have heq : score = scoreAt measured query codes i := by
    rw [scoreAt, ← hcount, UInt32.ofNat_toNat]
  rw [← heq]
  exact ⟨hscore, hchecked, hbetween, hcount⟩

/-- Entries written one after the other. -/
def writeAll (score : ℕ → UInt32) (positions : List ℕ) (out : Array UInt32) : Array UInt32 :=
  positions.foldl (fun out i => out.setIfInBounds i (score i)) out

@[simp] theorem size_writeAll (score : ℕ → UInt32) (positions : List ℕ) (out : Array UInt32) :
    (writeAll score positions out).size = out.size := by
  induction positions generalizing out with
  | nil => rfl
  | cons i positions ih => exact (ih _).trans Array.size_setIfInBounds

theorem getElem?_writeAll (score : ℕ → UInt32) (positions : List ℕ) (out : Array UInt32) {j : ℕ}
    (hj : j < out.size) :
    (writeAll score positions out)[j]? = if j ∈ positions then some (score j) else out[j]? := by
  induction positions generalizing out with
  | nil => rfl
  | cons i positions ih =>
    have hrest := ih (out.setIfInBounds i (score i)) (by rwa [Array.size_setIfInBounds])
    refine hrest.trans ?_
    by_cases hmem : j ∈ positions
    · rw [if_pos hmem, if_pos (List.mem_cons_of_mem i hmem)]
    · rw [if_neg hmem, Array.getElem?_setIfInBounds]
      by_cases hij : i = j
      · subst hij
        rw [if_pos rfl, if_pos hj, if_pos List.mem_cons_self]
      · rw [if_neg hij, if_neg]
        rintro (_ | ⟨_, hmem'⟩)
        · exact hij rfl
        · exact hmem hmem'

/-- All entries of an output, written in any order: what was there before is gone. -/
theorem writeAll_tasks (score : ℕ → UInt32) (order : TaskOrder) (hout : out.size = n) :
    writeAll score (order.tasks n) out = ((List.range n).map score).toArray := by
  apply Array.ext_getElem?
  intro j
  rcases Nat.lt_or_ge j n with hj | hj
  · rw [getElem?_writeAll _ _ _ (hout ▸ hj), if_pos (order.mem_tasks.2 hj)]
    simp [hj]
  · rw [Array.getElem?_eq_none (by simpa [hout] using hj),
      Array.getElem?_eq_none (by simpa using hj)]

/-- The visitor writes the scores of the codes at the positions, all of which there are. -/
theorem run_fill {c : Computer} {pieces : Array Code} (score : ℕ → UInt32) {positions : List ℕ}
    (h : ∀ i ∈ positions, ∃ code, pieces[i]? = some code ∧ c.distance code = .ok (score i))
    (out : Array UInt32) :
    (fill c pieces positions).run out = (.ok (), writeAll score positions out) := by
  induction positions generalizing out with
  | nil => rfl
  | cons i positions ih =>
    obtain ⟨code, hcode, hdistance⟩ := h i List.mem_cons_self
    have hrest := ih (fun j hj => h j (List.mem_cons_of_mem i hj)) (out.setIfInBounds i (score i))
    rw [fill, hcode]
    dsimp only
    rw [hdistance]
    exact hrest

/-- The distances of all codes, by their positions. -/
def scores (measured : Distance) (query codes : Code) (n : ℕ) : Array UInt32 :=
  ((List.range n).map (scoreAt measured query codes)).toArray

theorem Fits.holdsDistances (h : Fits measured query codes n)
    (hsmall : 8 * query.length < 2 ^ 32) :
    HoldsDistances measured query codes n (scores measured query codes n) := by
  obtain ⟨c, -, hscores⟩ := Computer.exists_forDistance_scores h.whole_words hsmall
  refine ⟨by simp [scores], fun i hi => ⟨scoreAt measured query codes i, by simp [scores, hi], ?_⟩⟩
  exact (h.distance_codeAt hscores hi).2.2

/-- The count that is written for the code at a place of the buffer. -/
def writtenAt (measured : Distance) (query codes : Code) (i : ℕ) : UInt32 :=
  (Computer.chosen measured query.length).score query (codeAt query.length codes i)

/-- A scan that fits writes a count for every code, whatever the output held before and in
    whatever order the codes are scored. -/
theorem Fits.run_distances_eq (h : Fits measured query codes n) (order : TaskOrder)
    (hout : out.size = n) :
    (distances measured query codes order).run out =
      (.ok (), ((List.range n).map (writtenAt measured query codes)).toArray) := by
  obtain ⟨c, hmade, rfl, hstrategy⟩ := Computer.exists_forDistance_eq_ok h.whole_words
  rw [run_distances, checkOutput_of_consists h.toConsists, if_pos hout, hmade, h.wholeChunks_eq]
  dsimp only
  rw [run_fill (writtenAt measured c.code codes) _ out, writeAll_tasks _ order hout]
  intro i hi
  have hlt := order.mem_tasks.1 hi
  refine ⟨codeAt c.code.length codes i, by simp [hlt], ?_⟩
  rw [c.distance_eq_ok (h.length_codeAt hlt), hstrategy, writtenAt]

/-- The count is the distance if that fits in a word. -/
theorem Fits.toNat_writtenAt (h : Fits measured query codes n) {i : ℕ} (hi : i < n)
    (hlt : measured.differing query (codeAt query.length codes i) < 2 ^ 32) :
    (writtenAt measured query codes i).toNat =
      measured.differing query (codeAt query.length codes i) := by
  obtain ⟨c, -, rfl, hstrategy⟩ := Computer.exists_forDistance_eq_ok h.whole_words
  obtain rfl : c.strategy.measures = measured :=
    hstrategy ▸ Computer.measures_chosen measured _
  rw [writtenAt, ← hstrategy]
  exact (Strategy.exact_score c.strategy c.fits (h.length_codeAt hi).symm hlt).toNat_eq

/-- A scan that fits leaves the distances of all codes. -/
theorem run_distances_of_fits (h : Fits measured query codes n)
    (hsmall : 8 * query.length < 2 ^ 32) (order : TaskOrder) (hout : out.size = n) :
    (distances measured query codes order).run out = (.ok (), scores measured query codes n) := by
  obtain ⟨c, -, hscores⟩ := Computer.exists_forDistance_scores h.whole_words hsmall
  have hall : (List.range n).map (writtenAt measured query codes) =
      (List.range n).map (scoreAt measured query codes) := by
    refine List.map_congr_left fun i hi => UInt32.toNat_inj.1 ?_
    have hlt := List.mem_range.1 hi
    have hscore := (h.distance_codeAt hscores hlt).2.2.2
    rw [hscore, h.toNat_writtenAt hlt (hscore ▸ (scoreAt measured query codes i).toNat_lt)]
  rw [h.run_distances_eq order hout, hall, scores]

/-- The order makes no difference, whatever the lengths. -/
theorem run_distances_order (measured : Distance) (query codes : Code) (order order' : TaskOrder)
    (out : Array UInt32) :
    (distances measured query codes order).run out =
      (distances measured query codes order').run out := by
  rcases fits_or_refused measured query codes out.size with hfits | ⟨e, hrefused⟩
  · rw [hfits.run_distances_eq order rfl, hfits.run_distances_eq order' rfl]
  · rw [run_distances_of_refused hrefused, run_distances_of_refused hrefused]

/-! ## Nothing breaks off -/

/-- Write the scores of the codes at the positions, each of which has to have a code that is
    long enough, and an entry. -/
def checkedFill (c : Computer) (pieces : Array Code) :
    List ℕ → Array UInt32 → Option (Array UInt32)
  | [], out => some out
  | i :: positions, out => do
    let code ← pieces[i]?
    let score ← c.checkedDistance code
    if c.codeSize ≤ code.length ∧ i < out.size then
      checkedFill c pieces positions (out.setIfInBounds i score)
    else
      none

/-- A scan in which everything is checked on the way. -/
def checkedDistances (measured : Distance) (query codes : Code) (order : TaskOrder)
    (out : Array UInt32) : Option (Except ScanError Unit × Array UInt32) :=
  match checkOutput query codes out.size with
  | .error e => some (.error e, out)
  | .ok numCodes =>
    match Computer.forDistance measured query with
    | .error cause => some (.error (.codeSize cause), out)
    | .ok c =>
      -- Codes of no bytes cannot be cut from the buffer.
      if 0 < c.codeSize then do
        let out ← checkedFill c (wholeChunks c.codeSize codes).toArray (order.tasks numCodes) out
        return (.ok (), out)
      else
        none

theorem checkedFill_eq_some {c : Computer} {pieces : Array Code} (score : ℕ → UInt32)
    {positions : List ℕ}
    (h : ∀ i ∈ positions, ∃ code, pieces[i]? = some code ∧ c.codeSize ≤ code.length ∧
      c.checkedDistance code = some (score i))
    (hout : ∀ i ∈ positions, i < out.size) :
    checkedFill c pieces positions out = some (writeAll score positions out) := by
  induction positions generalizing out with
  | nil => rfl
  | cons i positions ih =>
    obtain ⟨code, hcode, hlong, hscore⟩ := h i List.mem_cons_self
    have hi := hout i List.mem_cons_self
    rw [checkedFill, hcode, Option.bind_eq_bind, Option.bind_some, hscore, Option.bind_eq_bind,
      Option.bind_some, if_pos ⟨hlong, hi⟩]
    refine ih (fun j hj => h j (List.mem_cons_of_mem i hj)) fun j hj => ?_
    rw [Array.size_setIfInBounds]
    exact hout j (List.mem_cons_of_mem i hj)

/-- The checked scan has a result, and it is the one of the scan. -/
theorem checkedDistances_eq (measured : Distance) (query codes : Code) (order : TaskOrder)
    (out : Array UInt32) (hsmall : 8 * query.length < 2 ^ 32) :
    checkedDistances measured query codes order out =
      some ((distances measured query codes order).run out) := by
  rcases fits_or_refused measured query codes out.size with hfits | ⟨e, hrefused⟩
  · obtain ⟨c, hmade, hscores⟩ := Computer.exists_forDistance_scores hfits.whole_words hsmall
    have hsize : c.codeSize = query.length := hscores.codeSize_eq
    rw [run_distances_of_fits hfits hsmall order rfl, checkedDistances,
      checkOutput_of_consists hfits.toConsists, if_pos rfl, hmade]
    dsimp only
    rw [hsize, if_pos hfits.pos, hfits.wholeChunks_eq,
      checkedFill_eq_some (scoreAt measured query codes) _ fun i hi => order.mem_tasks.1 hi,
      writeAll_tasks _ order rfl]
    · rfl
    · intro i hi
      have hlt := order.mem_tasks.1 hi
      exact ⟨_, by simp [hlt], hsize.le.trans (hfits.length_codeAt hlt).ge,
        (hfits.distance_codeAt hscores hlt).2.1⟩
  · rw [run_distances_of_refused hrefused, checkedDistances]
    cases hrefused with
    | shape hshape => rw [checkOutput_of_misshapen hshape]
    | outputLength hn hentries => rw [checkOutput_of_consists hn, if_neg hentries]
    | codeSize hn hmeasured hragged =>
      subst hmeasured
      rw [checkOutput_of_consists hn, if_pos rfl, Computer.forDistance_of_ragged hragged]

/-! ## All scans -/

/-- A scan succeeds exactly if it fits, and then leaves the distance of every code, whatever
    the output held before and in whatever order the entries are written. Else it tells the
    first thing that is wrong, and leaves the output as it was. It never breaks off. -/
theorem distances_complete_or_untouched (measured : Distance) (query codes : Code)
    (hsmall : 8 * query.length < 2 ^ 32) :
    (∀ n, Fits measured query codes n →
      ∃ scores, HoldsDistances measured query codes n scores ∧
        ∀ (order : TaskOrder) (out : Array UInt32), out.size = n →
          (distances measured query codes order).run out = (.ok (), scores)) ∧
    ∀ (order : TaskOrder) (out : Array UInt32),
      (((distances measured query codes order).run out).1 = .ok () ↔
        Fits measured query codes out.size) ∧
      (∀ e, ((distances measured query codes order).run out).1 = .error e ↔
        Refused measured query codes out.size e) ∧
      (∀ e, Refused measured query codes out.size e →
        (distances measured query codes order).run out = (.error e, out)) ∧
      checkedDistances measured query codes order out =
        some ((distances measured query codes order).run out) := by
  refine ⟨fun n hfits => ⟨_, hfits.holdsDistances hsmall, fun order out hout =>
    run_distances_of_fits hfits hsmall order hout⟩, fun order out => ?_⟩
  have hchecked := checkedDistances_eq measured query codes order out hsmall
  refine ⟨?_, ?_, fun e hrefused => run_distances_of_refused hrefused order, hchecked⟩
  · constructor
    · intro hok
      rcases fits_or_refused measured query codes out.size with hfits | ⟨e, hrefused⟩
      · exact hfits
      · rw [run_distances_of_refused hrefused] at hok
        cases hok
    · intro hfits
      rw [run_distances_of_fits hfits hsmall order rfl]
  · intro e
    constructor
    · intro herror
      rcases fits_or_refused measured query codes out.size with hfits | ⟨e', hrefused⟩
      · rw [run_distances_of_fits hfits hsmall order rfl] at herror
        cases herror
      · rw [run_distances_of_refused hrefused] at herror
        cases herror
        exact hrefused
    · intro hrefused
      rw [run_distances_of_refused hrefused]

/-- Three codes of one byte, scored last to first, and a query of a word and a half that the
    distance by bytes is not defined for. -/
theorem distances_threeCodes :
    8 * ([0x0f] : Code).length < 2 ^ 32 ∧ Fits .bitwise [0x0f] [0x0f, 0x00, 0xff] 3 ∧
      (∃ scores, (distances .bitwise [0x0f] [0x0f, 0x00, 0xff] .backwards).run #[7, 7, 7] =
        (.ok (), scores) ∧ scores.size = 3 ∧ scores[2]? = some 4) ∧
      8 * (List.replicate 12 0 : Code).length < 2 ^ 32 ∧
      (distances .generalized (List.replicate 12 0) (List.replicate 24 1) .backwards).run #[7, 8] =
        (.error (.codeSize (.notMultiple 8 12)), #[7, 8]) := by
  have hsmall : 8 * ([0x0f] : Code).length < 2 ^ 32 := by decide
  have hsmall' : 8 * (List.replicate 12 0 : Code).length < 2 ^ 32 := by decide
  have hfits : Fits .bitwise [0x0f] [0x0f, 0x00, 0xff] 3 := ⟨⟨by decide, rfl⟩, nofun⟩
  have hrefused : Refused .generalized (List.replicate 12 0) (List.replicate 24 1)
      #[7, 8].size (.codeSize (.notMultiple 8 12)) :=
    .codeSize ⟨by decide, by decide⟩ rfl (by decide)
  obtain ⟨hall, -⟩ := distances_complete_or_untouched .bitwise [0x0f] [0x0f, 0x00, 0xff] hsmall
  obtain ⟨scores, hscores, hrun⟩ := hall 3 hfits
  obtain ⟨d, hd, -, hcount⟩ := hscores.entry_eq 2 (by decide)
  have hfour : d = 4 := UInt32.toNat_inj.1 (hcount.trans (by decide))
  refine ⟨hsmall, hfits, ⟨scores, hrun .backwards #[7, 7, 7] rfl, hscores.size_eq, hfour ▸ hd⟩,
    hsmall', ?_⟩
  obtain ⟨-, hany⟩ := distances_complete_or_untouched .generalized (List.replicate 12 0)
    (List.replicate 24 1) hsmall'
  exact (hany .backwards #[7, 8]).2.2.1 _ hrefused

end NeighborSearch.Scan
