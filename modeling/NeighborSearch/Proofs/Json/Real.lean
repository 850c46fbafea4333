import NeighborSearch.Proofs.Double
import NeighborSearch.Proofs.Json.Read

/-!
# Doubles are read back

A number that is no integer is read part by part, and is what its text says unless it is too
large. Each part hands on what has been read so far (`Number.Scanned.Holds`). So the text
of a double that is not too large is read as this text (`readAs_double`).
-/

namespace NeighborSearch.Json

namespace Number

/-! ## Significands and exponents -/

theorem absorb_fst_lt {s : ℕ} (hs : s < significandLimit) (ds : List Char) :
    (absorb s ds).1 < significandLimit := by
  fun_induction absorb s ds with
  | case1 s => exact hs
  | case2 s d ds next hnext ih => exact ih hnext
  | case3 s d ds next hnext => exact hs

theorem absorb_snd_le (s : ℕ) (ds : List Char) : (absorb s ds).2 ≤ ds.length := by
  fun_induction absorb s ds with
  | case1 s => exact Nat.le_refl _
  | case2 s d ds next hnext ih => exact ih.trans (Nat.le_succ _)
  | case3 s d ds next hnext => exact Nat.le_refl _

theorem exponentOf_le (ds : List Char) : exponentOf ds ≤ Nat.ofDigitChars 10 ds 0 := by
  suffices hle : ∀ m n : ℕ, m ≤ n →
      ds.foldl (fun n d => min exponentLimit (10 * n + (d.toNat - '0'.toNat))) m ≤
        Nat.ofDigitChars 10 ds n from hle 0 0 (Nat.le_refl 0)
  induction ds with
  | nil => exact fun m n h => h
  | cons d ds ih =>
    intro m n h
    rw [Nat.ofDigitChars_cons]
    exact ih _ _ ((Nat.min_le_right _ _).trans (by omega))

/-- What has a power of ten that is not too large is not too large. -/
theorem isTooLarge_eq_false {s : ℕ} {e : ℤ} (hs : s < significandLimit) (he : e ≤ 200) :
    isTooLarge s e = false := by
  rw [isTooLarge]
  split_ifs with hsmall hlarge
  · rfl
  · omega
  · refine decide_eq_false (Nat.not_le.2 ?_)
    calc
      Rounding.toDigits 53 s * Rounding.toDigits 53 (10 ^ e.toNat)
      _ ≤ (2 * s) * (2 * 10 ^ e.toNat) :=
        Nat.mul_le_mul (Rounding.toDigits_within_half (by decide)).2
          (Rounding.toDigits_within_half (by decide)).2
      _ ≤ (2 * significandLimit) * (2 * 10 ^ 200) :=
        Nat.mul_le_mul (Nat.mul_le_mul_left 2 hs.le)
          (Nat.mul_le_mul_left 2 (Nat.pow_le_pow_right (by decide) (by omega)))
      _ < (1 <<< 1024) - (1 <<< 970) := by decide

/-! ## Parts of a number -/

/-- What has been read is this text, before this rest, with a power of ten up to the bound. -/
structure Scanned.Holds (p : Scanned) (text : List Char) (bound : ℕ) (rest : List Char) : Prop where
  text_eq : p.text = text
  rest_eq : p.rest = rest
  exponent_le : p.exponent ≤ bound
  significand_lt : p.significand < significandLimit

/-- Digits as they stand before a point: the first of several is not zero. -/
structure IsWhole (ds : List Char) : Prop where
  digits : ∀ d ∈ ds, d.isDigit = true
  ne_nil : ds ≠ []
  eq_zero : ∀ rest, ds = '0' :: rest → rest = []

/-- A point with digits after it, or nothing. -/
inductive IsFraction : List Char → Prop
  | none : IsFraction []
  | point {ds : List Char} (hdigits : ∀ d ∈ ds, d.isDigit = true) (hne : ds ≠ []) :
      IsFraction ('.' :: ds)

/-- An exponent that is at most the bound, or nothing. -/
inductive IsExponent (bound : ℕ) : List Char → Prop
  | none : IsExponent bound []
  | positive {ds : List Char} (hdigits : ∀ d ∈ ds, d.isDigit = true) (hne : ds ≠ [])
      (hle : Nat.ofDigitChars 10 ds 0 ≤ bound) : IsExponent bound ('e' :: ds)
  | negative {ds : List Char} (hdigits : ∀ d ∈ ds, d.isDigit = true) (hne : ds ≠ []) :
      IsExponent bound ('e' :: '-' :: ds)

/-- A number with a point or an exponent, with few digits before the point. -/
def IsReal (bound : ℕ) (cs : List Char) : Prop :=
  ∃ ds fs es, cs = ds ++ fs ++ es ∧ IsWhole ds ∧ IsFraction fs ∧ IsExponent bound es ∧
    fs ++ es ≠ [] ∧ ds.length ≤ 16

variable {cs ds fs es text rest : List Char} {bound n : ℕ} {p : Scanned}

theorem exists_integerPart_eq (hds : IsWhole ds) (hrest : EndsDigits rest) :
    ∃ p, integerPart (ds ++ rest) = .ok p ∧ p.Holds ds ds.length rest := by
  refine ⟨⟨ds, (absorb 0 ds).1, (absorb 0 ds).2, rest⟩, ?_, rfl, rfl,
    Int.ofNat_le.2 (absorb_snd_le 0 ds), absorb_fst_lt (by decide) ds⟩
  rw [integerPart, digits1_append hds.digits hds.ne_nil hrest, ok_bind]
  dsimp only
  split
  case h_1 => cases hds.eq_zero _ rfl
  case h_2 => rfl

theorem exists_fractionPart_eq (hfs : IsFraction fs) (hp : p.Holds text bound (fs ++ rest))
    (hrest : ∀ c ∈ rest.head?, c.isDigit = false ∧ c ≠ '.') :
    ∃ q, fractionPart p = .ok q ∧ q.Holds (text ++ fs) bound rest := by
  obtain ⟨rfl, hfraction, hexponent, hsignificand⟩ := hp
  cases hfs with
  | none =>
    rw [List.nil_append] at hfraction
    refine ⟨p, fractionPart_of_head ?_, (List.append_nil _).symm, hfraction, hexponent,
      hsignificand⟩
    rw [hfraction]
    exact fun hpoint => (hrest '.' hpoint).2 rfl
  | @point ds hdigits hne =>
    refine ⟨⟨p.text ++ '.' :: ds, (absorb p.significand ds).1,
      p.exponent - (ds.length - (absorb p.significand ds).2 : ℕ), rest⟩, ?_, rfl, rfl, ?_,
      absorb_fst_lt hsignificand ds⟩
    · rw [fractionPart, hfraction]
      change (digits1 (ds ++ rest) >>= fun _ => _ : Except ReadError Scanned) = _
      rw [digits1_append hdigits hne fun c hc => (hrest c hc).1]
      rfl
    · dsimp only
      omega

theorem exponentSign_of_digits (hdigits : ∀ d ∈ ds, d.isDigit = true) (hne : ds ≠ []) :
    exponentSign (ds ++ rest) = ([], ds ++ rest) := by
  obtain ⟨d, ds, rfl⟩ := List.exists_cons_of_ne_nil hne
  have hd := hdigits d List.mem_cons_self
  rw [List.cons_append, exponentSign]
  · intro cs heq
    rw [(List.cons.inj heq).1] at hd
    cases hd
  · intro cs heq
    rw [(List.cons.inj heq).1] at hd
    cases hd

theorem exists_exponentPart_eq (hes : IsExponent n es) (hp : p.Holds text bound (es ++ rest))
    (hrest : EndsNumber rest) :
    ∃ q, exponentPart p = .ok q ∧ q.Holds (text ++ es) (bound + n) rest := by
  obtain ⟨rfl, hexponent, hbound, hsignificand⟩ := hp
  have hends : EndsDigits rest := fun c hc => (hrest c hc).1
  cases hes with
  | none =>
    rw [List.nil_append] at hexponent
    refine ⟨p, exponentPart_of_endsNumber (hexponent ▸ hrest), (List.append_nil _).symm,
      hexponent, by omega, hsignificand⟩
  | @positive ds hdigits hne hle =>
    have hexponentOf := exponentOf_le ds
    refine ⟨⟨p.text ++ 'e' :: ds, p.significand, p.exponent + (exponentOf ds : ℤ), rest⟩, ?_, rfl,
      rfl, by dsimp only; omega, hsignificand⟩
    rw [exponentPart, hexponent]
    dsimp only [List.cons_append]
    rw [if_pos (.inl rfl), exponentSign_of_digits hdigits hne]
    dsimp only
    rw [digits1_append hdigits hne hends]
    rfl
  | @negative ds hdigits hne =>
    refine ⟨⟨p.text ++ 'e' :: '-' :: ds, p.significand, p.exponent + -(exponentOf ds : ℤ), rest⟩,
      ?_, rfl, rfl, by dsimp only; omega, hsignificand⟩
    rw [exponentPart, hexponent]
    dsimp only [List.cons_append]
    rw [if_pos (.inl rfl), exponentSign]
    dsimp only
    rw [digits1_append hdigits hne hends]
    rfl

theorem valueOf_eq_real {whole : Scanned} (hp : p.Holds text bound rest) (hbound : bound ≤ 200)
    (htext : text ≠ whole.text) : valueOf false whole p = .ok (.real (String.ofList text)) := by
  obtain ⟨rfl, -, hexponent, hsignificand⟩ := hp
  rw [valueOf, if_neg (fun h => htext h.2)]
  dsimp only
  rw [isTooLarge_eq_false hsignificand (by omega)]
  rfl

theorem IsExponent.head (hes : IsExponent n es) (hrest : EndsNumber rest) :
    ∀ c ∈ (es ++ rest).head?, c.isDigit = false ∧ c ≠ '.' := by
  intro c hc
  cases hes with
  | none => exact ⟨(hrest c hc).1, (hrest c hc).2.1⟩
  | positive | negative =>
    obtain rfl := Option.some.inj hc
    decide

theorem IsFraction.endsDigits (hfs : IsFraction fs) (hrest : EndsDigits rest) :
    EndsDigits (fs ++ rest) := by
  cases hfs with
  | none => exact hrest
  | point =>
    intro c hc
    obtain rfl := Option.some.inj hc
    rfl

/-- A number with a point or an exponent is read as it stands. -/
theorem read_real (hreal : IsReal bound cs) (hbound : bound ≤ 184) (hrest : EndsNumber rest) :
    read false (cs ++ rest) = .ok (.real (String.ofList cs), rest) := by
  obtain ⟨ds, fs, es, rfl, hds, hfs, hes, hne, hlength⟩ := hreal
  have hhead := hes.head hrest
  obtain ⟨whole, hwhole, hp⟩ :=
    exists_integerPart_eq hds (hfs.endsDigits fun c hc => (hhead c hc).1)
  obtain ⟨q, hq, hq'⟩ := exists_fractionPart_eq hfs hp hhead
  obtain ⟨r, hr, hr'⟩ := exists_exponentPart_eq hes hq' hrest
  have hvalue : valueOf false whole r = _ :=
    valueOf_eq_real hr' (by omega) (by simpa [hp.text_eq] using hne)
  rw [List.append_assoc, List.append_assoc, read_eq, hwhole, ok_bind, hq, ok_bind, hr, ok_bind,
    hvalue, hr'.rest_eq]
  rfl

/-- A number with a point or an exponent begins with a digit. -/
theorem IsReal.exists_eq_cons (h : IsReal bound cs) :
    ∃ d rest, cs = d :: rest ∧ d.isDigit = true := by
  obtain ⟨ds, fs, es, rfl, hds, -⟩ := h
  obtain ⟨d, ds, rfl⟩ := List.exists_cons_of_ne_nil hds.ne_nil
  exact ⟨d, _, rfl, hds.digits d List.mem_cons_self⟩

/-! ## The digits of a double -/

theorem isDigit_of_mem_toDigits {n : ℕ} : ∀ d ∈ Nat.toDigits 10 n, d.isDigit = true :=
  fun _ hd => Nat.isDigit_of_mem_toDigits (by decide) (by decide) hd

/-- A number that is not zero does not begin with a zero. -/
theorem exists_toDigits_eq_cons_of_ne {n : ℕ} (hn : n ≠ 0) :
    ∃ d ds, Nat.toDigits 10 n = d :: ds ∧ d ≠ '0' := by
  obtain ⟨d, ds, hds⟩ := List.exists_cons_of_ne_nil (Nat.toDigits_ne_nil (n := n) (b := 10))
  refine ⟨d, ds, hds, ?_⟩
  rintro rfl
  obtain rfl := eq_nil_of_toDigits hds
  have hvalue := Nat.ofDigitChars_ten_toDigits (n := n)
  rw [hds] at hvalue
  exact hn hvalue.symm

theorem IsWhole.singleton {d : Char} (hd : d.isDigit = true) : IsWhole [d] where
  digits := List.forall_mem_singleton.2 hd
  ne_nil := List.cons_ne_nil d []
  eq_zero _ h := (List.cons.inj h).2.symm

theorem IsWhole.cons {d : Char} (hne : d ≠ '0') (hdigits : ∀ c ∈ d :: ds, c.isDigit = true) :
    IsWhole (d :: ds) where
  digits := hdigits
  ne_nil := List.cons_ne_nil d ds
  eq_zero _ h := absurd (List.cons.inj h).1 hne

/-! ## The text of a double -/

open Double

theorem isReal_positional {n : ℕ} (hn : n ≠ 0) {point : ℤ} (hpoint : point ≤ 16) :
    IsReal bound (Decimal.positional (Nat.toDigits 10 n) point) := by
  have hzeros (count : ℕ) : ∀ d ∈ List.replicate count '0', d.isDigit = true :=
    fun d hd => List.eq_of_mem_replicate hd ▸ rfl
  have hdigits := isDigit_of_mem_toDigits (n := n)
  rw [Decimal.positional]
  split_ifs with hpos
  · refine ⟨_, _, [], (List.append_nil _).symm, ?_, .point ?_ ?_, .none, by simp, ?_⟩
    · obtain ⟨d, ds, hds, hne⟩ := exists_toDigits_eq_cons_of_ne hn
      obtain ⟨count, hcount⟩ := Nat.exists_eq_succ_of_ne_zero (n := point.toNat) (by omega)
      rw [hds, hcount, List.take_succ_cons, List.cons_append]
      refine .cons hne (List.forall_mem_cons.2 ⟨?_, List.forall_mem_append.2 ⟨?_, hzeros _⟩⟩)
      · exact hdigits d (hds ▸ List.mem_cons_self)
      · exact fun c hc => hdigits c (hds ▸ List.mem_cons_of_mem d (List.mem_of_mem_take hc))
    · split_ifs
      · exact hzeros 1
      · exact fun c hc => hdigits c (List.mem_of_mem_drop hc)
    · split_ifs with hnone
      · exact List.cons_ne_nil _ _
      · exact hnone
    · rw [List.length_append, List.length_replicate, List.length_take]
      omega
  · refine ⟨['0'], '.' :: (List.replicate (-point).toNat '0' ++ Nat.toDigits 10 n), [],
      (List.append_nil _).symm, .singleton rfl, .point ?_ ?_, .none, by simp, by decide⟩
    · exact List.forall_mem_append.2 ⟨hzeros _, hdigits⟩
    · simp [Nat.toDigits_ne_nil]

theorem isExponent_toString {e : ℤ} (he : e ≤ bound) :
    IsExponent bound ('e' :: (toString e).toList) := by
  rw [Int.toString_eq_repr, Int.repr_eq_if]
  split_ifs with hsign
  · rw [Nat.toList_repr]
    refine .positive isDigit_of_mem_toDigits Nat.toDigits_ne_nil ?_
    rw [Nat.ofDigitChars_ten_toDigits]
    omega
  · rw [String.toList_append, Nat.toList_repr]
    exact .negative isDigit_of_mem_toDigits Nat.toDigits_ne_nil

theorem isReal_scientific (n : ℕ) {point : ℤ} (hpoint : point - 1 ≤ bound) :
    IsReal bound (Decimal.scientific (Nat.toDigits 10 n) point) := by
  obtain ⟨d, ds, hds⟩ := List.exists_cons_of_ne_nil (Nat.toDigits_ne_nil (n := n) (b := 10))
  have hdigits := isDigit_of_mem_toDigits (n := n)
  rw [hds, List.forall_mem_cons] at hdigits
  rw [Decimal.scientific, hds]
  refine ⟨[d], _, _, rfl, .singleton hdigits.1, ?_, isExponent_toString hpoint, by simp,
    Nat.le_add_left 1 15⟩
  split_ifs with hlength
  · exact .none
  · exact .point hdigits.2 (by rintro rfl; exact hlength (Nat.le_refl 1))

theorem isReal_text {x : Double} {k : ℕ} (hx : x.units ≤ 2 ^ k * unitsInOne) :
    IsReal (k + 1) x.text.toList := by
  have hnone : IsReal (k + 1) "0.0".toList :=
    ⟨['0'], ['.', '0'], [], rfl, .singleton rfl,
      .point (List.forall_mem_singleton.2 rfl) (List.cons_ne_nil _ _), .none,
      List.cons_ne_nil _ _, by decide⟩
  rw [text]
  split_ifs with hzero
  · exact hnone
  · dsimp only
    rw [String.toList_ofList]
    rcases x.shortest_cases with hshortest | hshortest
    · rw [hshortest]
      exact hnone
    · have hpoint := hshortest.point_le hzero hx
      split_ifs with hshort
      · exact isReal_positional (hshortest.digits_ne_zero hzero) hshort.2
      · exact isReal_scientific _ (by omega)

end Number

/-- The text of a double that is not too large is read as it stands. -/
theorem readAs_double {x : Double} {k : ℕ} (hx : x.units ≤ 2 ^ k * Double.unitsInOne)
    (hk : k ≤ 183) : ReadAs x.text.toList (.real x.text) := by
  intro room inside rest hrest
  have hreal := Number.isReal_text hx
  obtain ⟨d, ds, hcons, hd⟩ := hreal.exists_eq_cons
  have hread := Number.read_real hreal (by omega) hrest
  rw [String.ofList_toList] at hread
  rw [hcons, List.cons_append] at hread ⊢
  rw [readValueWith_of_isDigit hd, hread]
  rfl

end NeighborSearch.Json
