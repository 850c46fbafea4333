import Mathlib.Data.Nat.Bitwise
import NeighborSearch.Proofs.Code.Computer

/-!
# Distances are metrics

On the codes of one length both distances are metrics, and they bound each other: two bytes
that differ do so in at least one bit and in at most eight. All of this holds byte by byte
(`ofByte_comm`, `ofByte_triangle`, …), hence of the sums over the bytes, and hence of what
the computers score, which treat the code that they are made for and the candidate in
different ways (`dispatchedScore_metric`).
-/

namespace NeighborSearch

/-! ## Bits -/

/-- A bit in which two numbers differ is set in one of them. -/
theorem bitCount_xor_le (width m n : ℕ) :
    bitCount width (m ^^^ n) ≤ bitCount width m + bitCount width n := by
  induction width generalizing m n with
  | zero => exact Nat.zero_le _
  | succ width ih =>
    have hhigh := ih (m / 2) (n / 2)
    have hlow : (m ^^^ n) % 2 ≤ m % 2 + n % 2 := by
      rw [Nat.xor_mod_two_eq]
      omega
    rw [bitCount, bitCount, bitCount, Nat.xor_div_two]
    omega

/-- A number without a set bit is zero. -/
theorem bitCount_eq_zero_iff {width n : ℕ} (h : n < 2 ^ width) : bitCount width n = 0 ↔ n = 0 := by
  induction width generalizing n with
  | zero =>
    rw [Nat.pow_zero] at h
    exact ⟨fun _ => Nat.lt_one_iff.1 h, fun _ => rfl⟩
  | succ width ih =>
    rw [Nat.pow_succ] at h
    have hhalf := ih (show n / 2 < 2 ^ width by omega)
    rw [bitCount]
    omega

namespace Distance

variable (d : Distance) {a b c : UInt8} {x y z : Code}

/-! ## Bytes -/

theorem ofByte_comm (a b : UInt8) : d.ofByte a b = d.ofByte b a := by
  cases d with
  | bitwise => rw [ofByte, ofByte, UInt8.xor_comm]
  | generalized =>
    rw [ofByte, ofByte]
    exact if_congr eq_comm rfl rfl

theorem ofByte_eq_zero_iff : d.ofByte a b = 0 ↔ a = b := by
  cases d with
  | bitwise =>
    rw [ofByte, bitCount_eq_zero_iff (a ^^^ b).toNat_lt, ← UInt8.toNat_zero, UInt8.toNat_inj,
      UInt8.xor_eq_zero_iff]
  | generalized => simp [ofByte]

theorem ofByte_triangle (a b c : UInt8) : d.ofByte a c ≤ d.ofByte a b + d.ofByte b c := by
  cases d with
  | bitwise =>
    have hvia : a ^^^ c = (a ^^^ b) ^^^ (b ^^^ c) := by
      rw [UInt8.xor_assoc, ← UInt8.xor_assoc b, UInt8.xor_self, UInt8.zero_xor]
    rw [ofByte, ofByte, ofByte, hvia, UInt8.toNat_xor]
    exact bitCount_xor_le _ _ _
  | generalized =>
    by_cases hab : a = b
    · rw [hab]
      exact Nat.le_add_left _ _
    · have hone : generalized.ofByte a b = 1 := if_neg hab
      rw [hone]
      exact (generalized.ofByte_le a c).trans (Nat.le_add_right _ _)

/-- Bytes that differ do so in a bit, and in no more than all. -/
theorem ofByte_bitwise_bounds (a b : UInt8) :
    generalized.ofByte a b ≤ bitwise.ofByte a b ∧
      bitwise.ofByte a b ≤ 8 * generalized.ofByte a b := by
  by_cases hab : a = b
  · rw [generalized.ofByte_eq_zero_iff.2 hab, bitwise.ofByte_eq_zero_iff.2 hab]
    exact ⟨Nat.le_refl _, Nat.zero_le _⟩
  · have hone : generalized.ofByte a b = 1 := if_neg hab
    rw [hone]
    exact ⟨Nat.pos_of_ne_zero fun h => hab (bitwise.ofByte_eq_zero_iff.1 h), bitwise.ofByte_le a b⟩

/-! ## Codes -/

@[simp] theorem differing_nil_left (y : Code) : d.differing [] y = 0 := by
  rw [differing_eq_sum, List.zipWith_nil_left, List.sum_nil]

@[simp] theorem differing_cons (a b : UInt8) (x y : Code) :
    d.differing (a :: x) (b :: y) = d.ofByte a b + d.differing x y := by
  rw [differing_eq_sum, differing_eq_sum, List.zipWith_cons_cons, List.sum_cons]

theorem differing_comm (x y : Code) : d.differing x y = d.differing y x := by
  rw [differing_eq_sum, differing_eq_sum, List.zipWith_comm]
  simp only [d.ofByte_comm]

theorem differing_eq_zero_iff (h : x.length = y.length) : d.differing x y = 0 ↔ x = y := by
  induction x generalizing y with
  | nil =>
    obtain rfl := List.eq_nil_of_length_eq_zero h.symm
    rw [differing_nil_left]
    exact ⟨fun _ => rfl, fun _ => rfl⟩
  | cons a x ih =>
    obtain ⟨b, y, rfl⟩ := List.exists_cons_of_length_eq_add_one h.symm
    rw [differing_cons, Nat.add_eq_zero_iff, ofByte_eq_zero_iff, ih (Nat.succ.inj h),
      List.cons.injEq]

/-- The way over a code that is long enough is no shorter. -/
theorem differing_triangle (h : x.length ≤ y.length) (z : Code) :
    d.differing x z ≤ d.differing x y + d.differing y z := by
  induction x generalizing y z with
  | nil =>
    rw [differing_nil_left]
    exact Nat.zero_le _
  | cons a x ih =>
    cases y with
    | nil => exact absurd h (Nat.not_succ_le_zero _)
    | cons b y =>
      cases z with
      | nil =>
        rw [d.differing_comm _ [], differing_nil_left]
        exact Nat.zero_le _
      | cons c z =>
        have hbyte := d.ofByte_triangle a b c
        have hrest := ih (Nat.le_of_succ_le_succ h) z
        rw [differing_cons, differing_cons, differing_cons]
        omega

/-- Codes differ in at most as many bytes as bits, and in at most eight bits for each byte. -/
theorem differing_bitwise_bounds (x y : Code) :
    generalized.differing x y ≤ bitwise.differing x y ∧
      bitwise.differing x y ≤ 8 * generalized.differing x y := by
  induction x generalizing y with
  | nil => simp
  | cons a x ih =>
    cases y with
    | nil =>
      rw [differing_comm, differing_comm bitwise, differing_nil_left, differing_nil_left]
      exact ⟨Nat.le_refl _, Nat.zero_le _⟩
    | cons b y =>
      have hbyte := ofByte_bitwise_bounds a b
      have hrest := ih y
      rw [differing_cons, differing_cons]
      omega

/-- The laws of a metric with a bound, on the codes of one length. -/
structure IsMetric (n bound : ℕ) (dist : Code → Code → ℕ) : Prop where
  comm : ∀ x y : Code, x.length = n → y.length = n → dist x y = dist y x
  eq_zero_iff : ∀ x y : Code, x.length = n → y.length = n → (dist x y = 0 ↔ x = y)
  triangle : ∀ x y z : Code, x.length = n → y.length = n → z.length = n →
    dist x z ≤ dist x y + dist y z
  le_bound : ∀ x y : Code, x.length = n → y.length = n → dist x y ≤ bound

theorem isMetric_differing (n : ℕ) : IsMetric n (d.weight * n) d.differing where
  comm x y _ _ := d.differing_comm x y
  eq_zero_iff _ _ hx hy := d.differing_eq_zero_iff (hx.trans hy.symm)
  triangle _ _ z hx hy _ := d.differing_triangle (hx.trans hy.symm).le z
  le_bound x y hx _ := hx ▸ d.differing_le x y

end Distance

namespace Computer

/-! ## Scores -/

/-- What the computer that is chosen for a code and a distance scores a candidate. -/
def dispatchedScore (measured : Distance) (code candidate : Code) :
    Except CodeSizeError UInt32 := do
  let scored ← dispatch measured code fun c => c.distance candidate
  scored

/-- The computers chosen for codes of one length score the distance `dist`. -/
def ScoresAll (measured : Distance) (n : ℕ) (dist : Code → Code → ℕ) : Prop :=
  ∀ x y : Code, x.length = n → y.length = n →
    ∃ score, dispatchedScore measured x y = .ok score ∧ score.toNat = dist x y

theorem scoresAll_differing {measured : Distance} {n : ℕ} (hsmall : 8 * n < 2 ^ 32)
    (hwords : measured = .generalized → n % 8 = 0) : ScoresAll measured n measured.differing := by
  intro x y hx hy
  obtain ⟨c, hmade, hscores⟩ : ∃ c, forDistance measured x = .ok c ∧ c.Scores measured x :=
    exists_forDistance_scores (hx ▸ hwords) (hx ▸ hsmall)
  obtain ⟨score, hscore, hcount, -⟩ := hscores.distance_eq (hx.trans hy.symm).le
  refine ⟨score, ?_, ?_⟩
  · rw [dispatchedScore, dispatch, hmade]
    simp only [hscore]
    rfl
  · rw [hcount, List.take_of_length_le (hy.trans hx.symm).le]

/-- The scores of the chosen computers are a metric on the codes of one length, by bits and,
    if the codes consist of words, also by bytes. The two are bounded by each other: every
    byte that differs adds at least one bit and at most eight. -/
theorem dispatchedScore_metric {n : ℕ} (hsmall : 8 * n < 2 ^ 32) :
    ∃ bits, ScoresAll .bitwise n bits ∧ Distance.IsMetric n (8 * n) bits ∧
      (n % 8 = 0 → ∃ bytes, ScoresAll .generalized n bytes ∧ Distance.IsMetric n n bytes ∧
        ∀ x y : Code, x.length = n → y.length = n →
          bytes x y ≤ bits x y ∧ bits x y ≤ 8 * bytes x y) := by
  refine ⟨_, scoresAll_differing hsmall nofun, Distance.bitwise.isMetric_differing n,
    fun hwords => ⟨_, scoresAll_differing hsmall fun _ => hwords, ?_,
      fun x y _ _ => Distance.differing_bitwise_bounds x y⟩⟩
  have hbytes := Distance.generalized.isMetric_differing n
  rwa [Distance.weight, Nat.one_mul] at hbytes

/-- Codes of five words, scored as a block and a word: the reference code and the candidate
    may change places, and a third code between them makes the way no shorter. -/
theorem dispatchedScore_fiveWords :
    8 * 40 < 2 ^ 32 ∧ 40 % 8 = 0 ∧
      ∃ there back first second : UInt32,
        dispatchedScore .generalized (List.replicate 40 0x00) (List.replicate 40 0x0f) =
          .ok there ∧
        dispatchedScore .generalized (List.replicate 40 0x0f) (List.replicate 40 0x00) =
          .ok back ∧
        dispatchedScore .generalized (List.replicate 40 0x00)
          (0x01 :: List.replicate 39 0x0f) = .ok first ∧
        dispatchedScore .generalized (0x01 :: List.replicate 39 0x0f)
          (List.replicate 40 0x0f) = .ok second ∧
        there = back ∧ 0 < there.toNat ∧ there.toNat ≤ 40 ∧
        there.toNat ≤ first.toNat + second.toNat := by
  have hsmall : 8 * 40 < 2 ^ 32 := by decide
  obtain ⟨_, -, -, hbytes⟩ := dispatchedScore_metric hsmall
  obtain ⟨dist, hscores, hmetric, -⟩ := hbytes (by decide)
  have hx : (List.replicate 40 0x00 : Code).length = 40 := by decide
  have hy : (List.replicate 40 0x0f : Code).length = 40 := by decide
  have hz : (0x01 :: List.replicate 39 0x0f : Code).length = 40 := by decide
  have hne : (List.replicate 40 0x00 : Code) ≠ List.replicate 40 0x0f := by decide
  obtain ⟨there, hthere, hxy⟩ := hscores _ _ hx hy
  obtain ⟨back, hback, hyx⟩ := hscores _ _ hy hx
  obtain ⟨first, hfirst, hxz⟩ := hscores _ _ hx hz
  obtain ⟨second, hsecond, hzy⟩ := hscores _ _ hz hy
  refine ⟨hsmall, by decide, there, back, first, second, hthere, hback, hfirst, hsecond, ?_, ?_,
    ?_, ?_⟩
  · rw [← UInt32.toNat_inj, hxy, hyx, hmetric.comm _ _ hx hy]
  · rw [hxy]
    exact Nat.pos_of_ne_zero fun h => hne ((hmetric.eq_zero_iff _ _ hx hy).1 h)
  · rw [hxy]
    exact hmetric.le_bound _ _ hx hy
  · rw [hxy, hxz, hzy]
    exact hmetric.triangle _ _ _ hx hz hy

end Computer

end NeighborSearch
