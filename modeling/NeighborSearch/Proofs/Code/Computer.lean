import NeighborSearch.Proofs.Code.Score

/-!
# Computers agree

However a computer was made, it is determined by its code and by what it measures: it
*scores* a distance to the code (`Computer.Scores`) if it gives, for every candidate of at
least the length of the code, the distance to as much of the candidate, and refuses every
shorter candidate. Every computer whose code is small enough scores what its strategy
measures (`scores`), so that all computers for one code and one distance agree with the
distance taken byte by byte, and hence with each other (`Scores.outcome_eq`).
-/

namespace NeighborSearch

/-- The distance of two codes of one length as a 32-bit count, taken byte by byte. -/
def Distance.between : Distance → Code → Code → Except CodeSizeError UInt32
  | .bitwise => Code.bitDistance
  | .generalized => Code.byteDistance

/-- Byte by byte, the bits of codes are counted without a sum that is too large. -/
theorem Code.bitDistance_eq {a b : Code} (hlen : a.length = b.length)
    (h : differingBits a b < 2 ^ 32) :
    ∃ score, bitDistance a b = .ok score ∧
      Word.Exact (Block.checkedBytes 0 a b) score (differingBits a b) := by
  have hcheck : checkLengths a b = .ok () := if_pos hlen
  have hexact := Block.exact_bytes (a := a) (b := b) UInt32.toNat_zero
    (by rw [Nat.zero_add]; exact h)
  rw [UInt32.zero_add, Nat.zero_add] at hexact
  refine ⟨_, ?_, hexact⟩
  rw [bitDistance, hcheck]
  rfl

/-- Byte by byte, a distance that a word holds is found exactly. -/
theorem Distance.between_eq (d : Distance) {a b : Code} (hlen : a.length = b.length)
    {score : UInt32} (hscore : score.toNat = d.differing a b) : d.between a b = .ok score := by
  have h : d.differing a b < 2 ^ 32 := hscore ▸ score.toNat_lt
  cases d with
  | bitwise =>
    obtain ⟨score', heq, hexact⟩ := Code.bitDistance_eq hlen h
    rw [between, heq, UInt32.toNat_inj.1 (hexact.toNat_eq.trans hscore.symm)]
  | generalized =>
    have hcheck : Code.checkLengths a b = .ok () := if_pos hlen
    have hcount : UInt32.ofNat (Code.differingBytes a b) = score := by
      rw [← UInt32.toNat_inj, UInt32.toNat_ofNat', hscore]
      exact Nat.mod_eq_of_lt h
    rw [between, Code.byteDistance, hcheck, ← hcount]
    rfl

namespace Computer

/-- The distance of the reference code to the candidate, with every word, every sum and
    every difference on the way checked. -/
def checkedDistance (c : Computer) (candidate : Code) : Option UInt32 :=
  c.strategy.checkedScore c.code (candidate.take c.codeSize)

/-- The computer scores candidates by the distance `d` to `code`. -/
structure Scores (c : Computer) (d : Distance) (code : Code) : Prop where
  /-- It reports the length of the code. -/
  codeSize_eq : c.codeSize = code.length
  /-- The score of a candidate is the distance to as much of it as the code is long, and
      is computed without a word beyond the end, a sum that is too large or a difference
      below zero. -/
  distance_eq : ∀ {candidate : Code}, code.length ≤ candidate.length →
    ∃ score, c.distance candidate = .ok score ∧
      score.toNat = d.differing code (candidate.take code.length) ∧
      d.between code (candidate.take code.length) = .ok score ∧
      c.checkedDistance candidate = some score
  /-- What a candidate has beyond that has no influence. -/
  distance_append : ∀ {candidate : Code}, code.length ≤ candidate.length →
    ∀ rest, c.distance (candidate ++ rest) = c.distance candidate
  /-- A shorter candidate is refused. -/
  distance_of_lt : ∀ {candidate : Code}, candidate.length < code.length →
    c.distance candidate = .error (.mismatch code.length candidate.length)

theorem scores (c : Computer) (h : c.strategy.measures.weight * c.code.length < 2 ^ 32) :
    c.Scores c.strategy.measures c.code where
  codeSize_eq := rfl
  distance_eq := by
    intro candidate hlen
    have htake : c.code.length = (candidate.take c.code.length).length := by
      rw [List.length_take, Nat.min_eq_left hlen]
    have hexact := Strategy.exact_score c.strategy c.fits htake
      ((Distance.differing_le _ _ _).trans_lt h)
    exact ⟨_, if_pos hlen, hexact.toNat_eq, Distance.between_eq _ htake hexact.toNat_eq,
      hexact.checked_eq⟩
  distance_append := by
    intro candidate hlen rest
    have henough : c.codeSize ≤ candidate.length := hlen
    have henough' : c.codeSize ≤ (candidate ++ rest).length := by
      rw [List.length_append]
      exact hlen.trans (Nat.le_add_right _ _)
    rw [distance, distance, if_pos henough, if_pos henough', List.take_append_of_le_length henough]
  distance_of_lt := fun hlen => if_neg hlen.not_ge

/-- Computers for one code and one distance have the same outcome on every candidate. -/
theorem Scores.outcome_eq {c c' : Computer} {d : Distance} {code : Code} (h : c.Scores d code)
    (h' : c'.Scores d code) (candidate : Code) : c.distance candidate = c'.distance candidate := by
  rcases Nat.lt_or_ge candidate.length code.length with hlt | hle
  · rw [h.distance_of_lt hlt, h'.distance_of_lt hlt]
  · obtain ⟨score, heq, -, hbetween, -⟩ := h.distance_eq hle
    obtain ⟨score', heq', -, hbetween', -⟩ := h'.distance_eq hle
    rw [heq, heq', ← hbetween, hbetween']

/-! ## How computers are made -/

variable {s : Strategy} {code : Code}

theorem ofCode_eq_ok (hfits : s.check code.length = .ok ()) :
    ofCode s code = .ok ⟨s, code, hfits⟩ := by
  unfold ofCode
  split
  case h_1 => rfl
  case h_2 e he =>
    rw [hfits] at he
    cases he

theorem ofCode_eq_error {e : CodeSizeError} (hcheck : s.check code.length = .error e) :
    ofCode s code = .error e := by
  unfold ofCode
  split
  case h_1 hfits =>
    rw [hcheck] at hfits
    cases hfits
  case h_2 e' he =>
    rw [hcheck] at he
    cases he
    rfl

/-- What a strategy that takes the code makes of it agrees with every other computer for
    the code that measures the same. -/
theorem exists_ofCode_scores {c : Computer} {d : Distance} (hc : c.Scores d code)
    (hd : s.measures = d) (hfits : s.check code.length = .ok ())
    (h : d.weight * code.length < 2 ^ 32) :
    ∃ c', ofCode s code = .ok c' ∧ c'.Scores d code ∧
      ∀ candidate, c'.distance candidate = c.distance candidate := by
  subst hd
  have hscores := scores ⟨s, code, hfits⟩ h
  exact ⟨_, ofCode_eq_ok hfits, hscores, hscores.outcome_eq hc⟩

theorem measures_forBits (n : ℕ) : (Strategy.forBits n).measures = .bitwise := by
  unfold Strategy.forBits
  split <;> rfl

theorem measures_forBytes (n : ℕ) : (Strategy.forBytes n).measures = .generalized := by
  unfold Strategy.forBytes
  split <;> rfl

/-- The strategy chosen by bytes takes the lengths that are multiples of eight. -/
theorem check_forBytes (n : ℕ) :
    (Strategy.forBytes n).check n = if n % 8 = 0 then .ok () else .error (.notMultiple 8 n) := by
  unfold Strategy.forBytes
  split
  · rfl
  · rfl
  · rfl
  · exact Strategy.check_bytesAny n

/-- The strategy that is chosen for a distance between codes of length `n`. -/
def chosen : Distance → (n : ℕ) → Strategy
  | .bitwise, n => .forBits n
  | .generalized, n => .forBytes n

theorem measures_chosen (d : Distance) (n : ℕ) : (chosen d n).measures = d := by
  cases d with
  | bitwise => exact measures_forBits n
  | generalized => exact measures_forBytes n

/-- For codes of whole words, and by bits for all codes, there is a computer. -/
theorem exists_forDistance_eq_ok {d : Distance} (hwords : d = .generalized → code.length % 8 = 0) :
    ∃ c, forDistance d code = .ok c ∧ c.code = code ∧ c.strategy = chosen d code.length := by
  cases d with
  | bitwise => exact ⟨_, rfl, rfl, rfl⟩
  | generalized =>
    have hfits : (Strategy.forBytes code.length).check code.length = .ok () := by
      rw [check_forBytes, if_pos (hwords rfl)]
    exact ⟨_, ofCode_eq_ok hfits, rfl, rfl⟩

/-- The computer scores the distance if the code is not too long. -/
theorem exists_forDistance_scores {d : Distance}
    (hwords : d = .generalized → code.length % 8 = 0) (hsmall : 8 * code.length < 2 ^ 32) :
    ∃ c, forDistance d code = .ok c ∧ c.Scores d code := by
  obtain ⟨c, hmade, rfl, hstrategy⟩ := exists_forDistance_eq_ok hwords
  obtain rfl : c.strategy.measures = d := hstrategy ▸ measures_chosen d _
  have hweight : c.strategy.measures.weight ≤ 8 := by
    cases c.strategy.measures <;> decide
  exact ⟨c, hmade, c.scores ((Nat.mul_le_mul_right _ hweight).trans_lt hsmall)⟩

/-- Codes of the length of the reference code are scored as a whole. -/
theorem distance_eq_ok (c : Computer) {candidate : Code}
    (hlen : candidate.length = c.code.length) :
    c.distance candidate = .ok (c.strategy.score c.code candidate) := by
  rw [distance, codeSize, if_pos hlen.ge, List.take_of_length_le hlen.le]

theorem forDistance_of_ragged (hragged : code.length % 8 ≠ 0) :
    forDistance .generalized code = .error (.notMultiple 8 code.length) := by
  apply ofCode_eq_error
  rw [check_forBytes, if_neg hragged]

/-- A visitor works with the computer `c`. -/
def Dispatched (d : Distance) (code : Code) (c : Computer) : Prop :=
  ∀ {m : Type → Type} [Monad m] {β : Type} (visit : Computer → m β),
    dispatch d code visit = .ok <$> visit c

theorem dispatched {d : Distance} {c : Computer} (h : forDistance d code = .ok c) :
    Dispatched d code c := by
  intro m _ β visit
  rw [dispatch, h]

/-! ## All computers for a code -/

/-- By bits, the computer that is chosen for a code, the one for any length and the one for
    the width of the code all score the differing bits, as they are counted byte by byte.
    What is made for another width refuses the code. -/
theorem bitwise_scores (code : Code) :
    (8 * code.length < 2 ^ 32 →
      (∀ other : Code, other.length = code.length →
        ∃ score, Code.bitDistance code other = .ok score ∧
          Word.Exact (Block.checkedBytes 0 code other) score (Code.differingBits code other)) ∧
      ∃ c, Dispatched .bitwise code c ∧ c.Scores .bitwise code ∧
        ∀ s : Strategy, s.measures = .bitwise → s = .bitsAny ∨ s.width? = some code.length →
          ∃ c', ofCode s code = .ok c' ∧ c'.Scores .bitwise code ∧
            ∀ candidate, c'.distance candidate = c.distance candidate) ∧
    ∀ (s : Strategy) (width : ℕ), s.measures = .bitwise → s.width? = some width →
      code.length ≠ width → ofCode s code = .error (.mismatch width code.length) := by
  refine ⟨fun h => ⟨?_, forBits code, dispatched rfl, ?_⟩, ?_⟩
  · intro other hlen
    exact Code.bitDistance_eq hlen.symm ((Distance.bitwise.differing_le code other).trans_lt h)
  · have hmeasures := measures_forBits code.length
    have hscores : (forBits code).Scores .bitwise code := by
      have hown := scores (forBits code) (by rw [forBits, hmeasures]; exact h)
      rwa [forBits, hmeasures] at hown
    refine ⟨hscores, fun s hs hwidth => exists_ofCode_scores hscores hs ?_ h⟩
    rcases hwidth with rfl | hwidth
    · rfl
    · rw [Strategy.check_of_width hwidth, if_pos rfl]
  · intro s width _ hwidth hne
    apply ofCode_eq_error
    rw [Strategy.check_of_width hwidth, if_neg hne]

/-- A code of four bytes: five bits differ, and the fifth byte of the candidate does not
    count. -/
theorem bitwise_scores_fourBytes :
    8 * ([0x0f, 0x00, 0xff, 0x81] : Code).length < 2 ^ 32 ∧
      (∃ c, ofCode .bits4 [0x0f, 0x00, 0xff, 0x81] = .ok c ∧
        c.distance [0x00, 0x00, 0xff, 0x80, 0x55] = .ok 5 ∧
        c.distance [0x00] = .error (.mismatch 4 1)) ∧
      ofCode .bits8 [0x0f, 0x00, 0xff, 0x81] = .error (.mismatch 8 4) := by
  have hsmall : 8 * ([0x0f, 0x00, 0xff, 0x81] : Code).length < 2 ^ 32 := by decide
  obtain ⟨-, _, -, -, hall⟩ := (bitwise_scores [0x0f, 0x00, 0xff, 0x81]).1 hsmall
  obtain ⟨c, hmade, hscores, -⟩ := hall .bits4 rfl (Or.inr rfl)
  have hlonger : ([0x0f, 0x00, 0xff, 0x81] : Code).length ≤
      ([0x00, 0x00, 0xff, 0x80, 0x55] : Code).length := by decide
  obtain ⟨score, hscore, hcount, -⟩ := hscores.distance_eq hlonger
  have hfive : score = 5 := UInt32.toNat_inj.1 (hcount.trans (by decide))
  refine ⟨hsmall, ⟨c, hmade, hfive ▸ hscore, hscores.distance_of_lt (by decide)⟩, ?_⟩
  exact (bitwise_scores [0x0f, 0x00, 0xff, 0x81]).2 .bits8 8 rfl rfl (by decide)

/-- By bytes, the computer that is chosen for a code of whole words, the one for any number
    of words and the one for the width of the code all score the differing bytes. Of a code
    that does not consist of words, none is made, and no visitor is run. -/
theorem bytewise_scores (code : Code) :
    (code.length < 2 ^ 32 → code.length % 8 = 0 →
      ∃ c, Dispatched .generalized code c ∧ c.Scores .generalized code ∧
        ∀ s : Strategy, s.measures = .generalized →
          s = .bytesAny ∨ s.width? = some code.length →
          ∃ c', ofCode s code = .ok c' ∧ c'.Scores .generalized code ∧
            ∀ candidate, c'.distance candidate = c.distance candidate) ∧
    (code.length % 8 ≠ 0 →
      ofCode .bytesAny code = .error (.notMultiple 8 code.length) ∧
      ∀ {m : Type → Type} [Monad m] {β : Type} (visit : Computer → m β),
        dispatch .generalized code visit = pure (.error (.notMultiple 8 code.length))) := by
  refine ⟨fun h hwords => ?_, fun hragged => ⟨?_, fun visit => ?_⟩⟩
  · have hweight : Distance.generalized.weight * code.length < 2 ^ 32 := by
      rwa [Distance.weight, Nat.one_mul]
    have hfits : (Strategy.forBytes code.length).check code.length = .ok () := by
      rw [check_forBytes, if_pos hwords]
    have hscores := scores ⟨_, code, hfits⟩ (by rw [measures_forBytes]; exact hweight)
    rw [measures_forBytes] at hscores
    have hchosen : forDistance .generalized code = .ok ⟨_, code, hfits⟩ := ofCode_eq_ok hfits
    refine ⟨_, dispatched hchosen, hscores, fun s hs hwidth =>
      exists_ofCode_scores hscores hs ?_ hweight⟩
    rcases hwidth with rfl | hwidth
    · rw [Strategy.check_bytesAny, if_pos hwords]
    · rw [Strategy.check_of_width hwidth, if_pos rfl]
  · apply ofCode_eq_error
    rw [Strategy.check_bytesAny, if_neg hragged]
  · have hnone : forDistance .generalized code = .error (.notMultiple 8 code.length) := by
      apply ofCode_eq_error
      rw [check_forBytes, if_neg hragged]
    rw [dispatch, hnone]

/-- A code of a block and a word, of which two bytes differ, and one of a word and a half. -/
theorem bytewise_scores_fortyBytes :
    ((List.replicate 40 0 : Code).length < 2 ^ 32 ∧ (List.replicate 40 0 : Code).length % 8 = 0 ∧
      ∃ c, ofCode .bytesAny (List.replicate 40 0) = .ok c ∧
        c.distance (0x80 :: List.replicate 38 0 ++ [0x01]) = .ok 2 ∧
        c.distance [0x00] = .error (.mismatch 40 1)) ∧
    (List.replicate 12 0 : Code).length % 8 ≠ 0 ∧
      ofCode .bytesAny (List.replicate 12 0) = .error (.notMultiple 8 12) := by
  have hsmall : (List.replicate 40 0 : Code).length < 2 ^ 32 := by decide
  have hwords : (List.replicate 40 0 : Code).length % 8 = 0 := by decide
  have hragged : (List.replicate 12 0 : Code).length % 8 ≠ 0 := by decide
  obtain ⟨_, -, -, hall⟩ := (bytewise_scores (List.replicate 40 0)).1 hsmall hwords
  obtain ⟨c, hmade, hscores, -⟩ := hall .bytesAny rfl (Or.inl rfl)
  have hlonger : (List.replicate 40 0 : Code).length ≤
      (0x80 :: List.replicate 38 0 ++ [0x01] : Code).length := by decide
  obtain ⟨score, hscore, hcount, -⟩ := hscores.distance_eq hlonger
  have htwo : score = 2 := UInt32.toNat_inj.1 (hcount.trans (by decide))
  refine ⟨⟨hsmall, hwords, c, hmade, htwo ▸ hscore, hscores.distance_of_lt (by decide)⟩,
    hragged, ?_⟩
  exact ((bytewise_scores (List.replicate 12 0)).2 hragged).1

end Computer

end NeighborSearch
