import Mathlib.Data.List.TakeDrop
import Mathlib.Data.List.TakeWhile
import Mathlib.Data.Nat.Notation
import NeighborSearch.Json.Number
import NeighborSearch.Proofs.Outcome

/-!
# Integers are read back

An integer that 64 bits hold is read back from its decimal digits, unless what follows goes
on with the number (`Number.read_toDigits`). More generally, what any number is read as does
not depend on what follows, as long as that does not go on with it (`Number.exists_read`).
-/

namespace NeighborSearch.Json

/-- A text that does not go on with a number that stands before it. -/
def EndsNumber (rest : List Char) : Prop :=
  ∀ c ∈ rest.head?, c.isDigit = false ∧ c ≠ '.' ∧ c ≠ 'e' ∧ c ≠ 'E'

namespace Number

theorem absorb_eq {s : ℕ} {ds : List Char} (h : Nat.ofDigitChars 10 ds s < significandLimit) :
    absorb s ds = (Nat.ofDigitChars 10 ds s, 0) := by
  induction ds generalizing s with
  | nil => rfl
  | cons d ds ih =>
    rw [Nat.ofDigitChars_cons] at h ⊢
    have hnext : 10 * s + (d.toNat - '0'.toNat) < significandLimit := by
      have hle := Nat.le_mul_of_pos_left (10 * s + (d.toNat - '0'.toNat))
        (Nat.pow_pos (n := ds.length) (show 0 < 10 by decide))
      rw [Nat.ofDigitChars_eq_ofDigitChars_zero] at h
      omega
    rw [absorb, if_pos hnext, ih h]

/-- Nothing but zero is written with a zero in front. -/
theorem eq_nil_of_toDigits {n : ℕ} {ds : List Char} (h : Nat.toDigits 10 n = '0' :: ds) :
    ds = [] := by
  induction n using Nat.strongRecOn generalizing ds with
  | ind n ih =>
    rcases Nat.lt_or_ge n 10 with hlt | hge
    · rw [Nat.toDigits_of_lt_base hlt] at h
      exact (List.cons.inj h).2.symm
    · -- The digits before the last one would be a single zero.
      exfalso
      have hsome : Nat.toDigits 10 (n / 10) ≠ [] := List.length_pos_iff.1 Nat.length_toDigits_pos
      obtain ⟨d, front, hfront⟩ := List.exists_cons_of_ne_nil hsome
      rw [Nat.toDigits_of_base_le (by decide) hge, hfront, List.cons_append] at h
      obtain rfl := (List.cons.inj h).1
      obtain rfl := ih (n / 10) (by omega) hfront
      have hvalue := Nat.ofDigitChars_toDigits (b := 10) (n := n / 10) (by decide) (by decide)
      rw [hfront] at hvalue
      have : n / 10 = 0 := hvalue.symm
      omega

/-- A text that does not go on with digits that stand before it. -/
def EndsDigits (rest : List Char) : Prop := ∀ c ∈ rest.head?, c.isDigit = false

theorem digits1_append {ds rest : List Char} (hdigits : ∀ d ∈ ds, d.isDigit = true)
    (hne : ds ≠ []) (hrest : EndsDigits rest) : digits1 (ds ++ rest) = .ok (ds, rest) := by
  have hspan : (ds ++ rest).span Char.isDigit = (ds, rest) := by
    rw [List.span_eq_takeWhile_dropWhile, List.takeWhile_append_of_pos hdigits,
      List.dropWhile_append_of_pos hdigits]
    cases rest with
    | nil => simp
    | cons c rest =>
      have hc : ¬c.isDigit = true := by simp [hrest c rfl]
      rw [List.takeWhile_cons_of_neg hc, List.dropWhile_cons_of_neg hc, List.append_nil]
  rw [digits1, hspan]
  split
  case h_1 h | h_2 h => exact absurd (Prod.mk.inj h).1 hne
  case h_3 h => rw [h]

theorem digits1_toDigits (n : ℕ) {rest : List Char} (hrest : EndsNumber rest) :
    digits1 (Nat.toDigits 10 n ++ rest) = .ok (Nat.toDigits 10 n, rest) :=
  digits1_append (fun _ hd => Nat.isDigit_of_mem_toDigits (by decide) (by decide) hd)
    (List.length_pos_iff.1 Nat.length_toDigits_pos) fun c hc => (hrest c hc).1

theorem integerPart_toDigits {n : ℕ} (hn : n < significandLimit) {rest : List Char}
    (hrest : EndsNumber rest) :
    integerPart (Nat.toDigits 10 n ++ rest) = .ok ⟨Nat.toDigits 10 n, n, 0, rest⟩ := by
  have hvalue : Nat.ofDigitChars 10 (Nat.toDigits 10 n) 0 = n :=
    Nat.ofDigitChars_toDigits (by decide) (by decide)
  have habsorb : absorb 0 (Nat.toDigits 10 n) = (n, 0) := by
    rw [absorb_eq (hvalue.symm ▸ hn), hvalue]
  rw [integerPart, digits1_toDigits n hrest, ok_bind]
  simp only
  split
  case h_1 h => cases eq_nil_of_toDigits h
  case h_2 =>
    rw [habsorb]
    rfl

/-- The value of a number, given its digits before the point and all of it. -/
def valueOf (negative : Bool) (whole p : Scanned) : Except ReadError Json :=
  match if whole.exponent = 0 ∧ p.text = whole.text then integer? negative whole.significand
    else none with
  | some n => .ok (.int n)
  | none =>
    if isTooLarge p.significand p.exponent then .error .malformed
    else .ok (.real (String.ofList (if negative then '-' :: p.text else p.text)))

/-- A number is read part by part. -/
theorem read_eq (negative : Bool) (cs : List Char) :
    read negative cs = do
      let whole ← integerPart cs
      let p ← exponentPart (← fractionPart whole)
      return (← valueOf negative whole p, p.rest) := by
  refine bind_congr fun whole => bind_congr fun q => bind_congr fun p => ?_
  rw [valueOf]
  by_cases hwhole : whole.exponent = 0 ∧ p.text = whole.text
  · rw [if_pos hwhole, if_pos hwhole]
    cases integer? negative whole.significand with
    | none => cases isTooLarge p.significand p.exponent <;> rfl
    | some n => rfl
  · rw [if_neg hwhole, if_neg hwhole]
    cases isTooLarge p.significand p.exponent <;> rfl

theorem eq_of_valueOf {negative : Bool} {whole p : Scanned} {v : Json}
    (h : valueOf negative whole p = .ok v) : (∃ n, v = .int n) ∨ ∃ text, v = .real text := by
  unfold valueOf at h
  split at h
  · exact .inl ⟨_, (Except.ok.inj h).symm⟩
  · split at h
    · cases h
    · exact .inr ⟨_, (Except.ok.inj h).symm⟩

theorem fractionPart_of_head {p : Scanned} (h : p.rest.head? ≠ some '.') :
    fractionPart p = .ok p := by
  rw [fractionPart]
  split
  case h_1 cs heq => exact absurd (congrArg List.head? heq) h
  case h_2 => rfl

theorem exponentPart_of_endsNumber {p : Scanned} (h : EndsNumber p.rest) :
    exponentPart p = .ok p := by
  rw [exponentPart]
  split
  case h_1 e cs heq =>
    obtain ⟨-, -, he, hE⟩ := h e (congrArg List.head? heq)
    rw [if_neg (by rintro (rfl | rfl) <;> contradiction)]
  case h_2 => rfl

/-- The digits of an integer that 64 bits hold are read as this integer. -/
theorem read_toDigits {negative : Bool} {n : ℕ} {m : Int} (h : integer? negative n = some m)
    {rest : List Char} (hrest : EndsNumber rest) :
    read negative (Nat.toDigits 10 n ++ rest) = .ok (.int m, rest) := by
  have hn : n < significandLimit := by
    rw [integer?] at h
    split at h <;> split at h
    · rw [significandLimit]
      omega
    · cases h
    · assumption
    · cases h
  rw [read, integerPart_toDigits hn hrest, ok_bind,
    fractionPart_of_head fun hpoint => (hrest '.' hpoint).2.1 rfl, ok_bind,
    exponentPart_of_endsNumber hrest, ok_bind]
  simp only [h]
  rfl

/-! ## What follows a number -/

theorem exists_digits1 {cs ds rest : List Char} (h : digits1 cs = .ok (ds, rest)) :
    cs = ds ++ rest ∧ ds ≠ [] ∧
      ∀ rest', EndsDigits rest' → digits1 (ds ++ rest') = .ok (ds, rest') := by
  rw [digits1, List.span_eq_takeWhile_dropWhile] at h
  split at h
  case h_1 | h_2 => cases h
  case h_3 ds' rest' hnil hcons heq =>
    obtain ⟨rfl, rfl⟩ := Prod.mk.inj (Except.ok.inj h)
    obtain ⟨hds, hrest⟩ := Prod.mk.inj heq
    have hcs : cs = ds' ++ rest' := by rw [← hds, ← hrest, List.takeWhile_append_dropWhile]
    have hdigits : ∀ d ∈ ds', d.isDigit = true := fun d hd => by
      rw [← hds] at hd
      exact List.mem_takeWhile_imp hd
    have hne : ds' ≠ [] := by
      rintro rfl
      cases rest' with
      | nil => exact hnil rfl rfl
      | cons c rest => exact hcons c rest rfl rfl
    exact ⟨hcs, hne, fun rest hrest => digits1_append hdigits hne hrest⟩

theorem exists_integerPart {cs : List Char} {p : Scanned} (h : integerPart cs = .ok p) :
    cs = p.text ++ p.rest ∧ p.text ≠ [] ∧ ∀ rest', EndsDigits rest' →
      integerPart (p.text ++ rest') = .ok { p with rest := rest' } := by
  obtain ⟨⟨ds, rest⟩, hdigits, hread⟩ := bind_eq_ok_iff.1 h
  obtain ⟨rfl, hne, hlocal⟩ := exists_digits1 hdigits
  dsimp only at hread
  split at hread
  case h_1 => cases hread
  case h_2 hzero =>
    obtain rfl := Except.ok.inj hread
    refine ⟨rfl, hne, fun rest' hrest => ?_⟩
    rw [integerPart, hlocal rest' hrest, ok_bind]
    dsimp only
    split
    case h_1 => exact absurd rfl (hzero _ _)
    case h_2 => rfl

/-- A fraction is nothing, or begins with a point. -/
theorem exists_fractionPart {p q : Scanned} (h : fractionPart p = .ok q) :
    ∃ part, p.rest = part ++ q.rest ∧ (∀ c ∈ part.head?, c = '.') ∧
      ∀ rest', EndsDigits rest' → (part = [] → rest'.head? ≠ some '.') →
        fractionPart { p with rest := part ++ rest' } = .ok { q with rest := rest' } := by
  rw [fractionPart] at h
  split at h
  case h_1 cs hcs =>
    obtain ⟨⟨ds, rest⟩, hdigits, hread⟩ := bind_eq_ok_iff.1 h
    obtain ⟨rfl, -, hlocal⟩ := exists_digits1 hdigits
    obtain rfl := Except.ok.inj hread
    refine ⟨'.' :: ds, hcs, fun c hc => (Option.some.inj hc).symm, fun rest' hrest _ => ?_⟩
    change (digits1 (ds ++ rest') >>= fun p => _ : Except ReadError Scanned) = _
    rw [hlocal rest' hrest]
    rfl
  case h_2 hpoint =>
    obtain rfl := Except.ok.inj h
    exact ⟨[], rfl, nofun, fun rest' _ hrest => fractionPart_of_head (hrest rfl)⟩

theorem exponentSign_append {cs sign tail : List Char} (h : exponentSign cs = (sign, tail))
    {d : Char} {ds rest : List Char} (htail : tail = d :: ds ++ rest) (rest' : List Char) :
    cs = sign ++ tail ∧ exponentSign (sign ++ (d :: ds ++ rest')) = (sign, d :: ds ++ rest') := by
  unfold exponentSign at h
  split at h
  case h_1 | h_2 =>
    obtain ⟨rfl, rfl⟩ := Prod.mk.inj h
    exact ⟨rfl, rfl⟩
  case h_3 hplus hminus =>
    obtain ⟨rfl, rfl⟩ := Prod.mk.inj h
    subst htail
    refine ⟨rfl, ?_⟩
    rw [List.nil_append, exponentSign]
    · exact fun cs heq => hplus _ (by rw [(List.cons.inj heq).1]; rfl)
    · exact fun cs heq => hminus _ (by rw [(List.cons.inj heq).1]; rfl)

/-- An exponent is nothing, or begins with its letter. -/
theorem exists_exponentPart {p q : Scanned} (h : exponentPart p = .ok q) :
    ∃ part, p.rest = part ++ q.rest ∧ (∀ c ∈ part.head?, c = 'e' ∨ c = 'E') ∧
      ∀ rest', EndsNumber rest' →
        exponentPart { p with rest := part ++ rest' } = .ok { q with rest := rest' } := by
  rw [exponentPart] at h
  split at h
  case h_1 e cs hcs =>
    split_ifs at h with he
    · cases hsign : exponentSign cs with
      | mk sign tail =>
        rw [hsign] at h
        obtain ⟨⟨ds, rest⟩, hdigits, hread⟩ := bind_eq_ok_iff.1 h
        obtain ⟨htail, hne, hlocal⟩ := exists_digits1 hdigits
        obtain ⟨d, ds, rfl⟩ := List.exists_cons_of_ne_nil hne
        obtain rfl := Except.ok.inj hread
        have hlocalSign := exponentSign_append hsign htail
        refine ⟨e :: (sign ++ d :: ds), ?_, fun c hc => Option.some.inj hc ▸ he,
          fun rest' hrest => ?_⟩
        · rw [hcs, (hlocalSign []).1, htail]
          simp
        · rw [exponentPart]
          dsimp only [List.cons_append]
          rw [if_pos he, List.append_assoc, (hlocalSign rest').2]
          dsimp only
          rw [hlocal rest' fun c hc => (hrest c hc).1]
          rfl
    · obtain rfl := Except.ok.inj h
      exact ⟨[], rfl, nofun, fun rest' hrest => exponentPart_of_endsNumber hrest⟩
  case h_2 =>
    obtain rfl := Except.ok.inj h
    exact ⟨[], rfl, nofun, fun rest' hrest => exponentPart_of_endsNumber hrest⟩

theorem mem_head?_append {α : Type} {as bs : List α} {a : α} (h : a ∈ (as ++ bs).head?) :
    a ∈ as.head? ∨ a ∈ bs.head? := by
  cases as with
  | nil => exact .inr h
  | cons => exact .inl h

/-- A number is read from a part of the text, whatever follows that does not go on with it. -/
theorem exists_read {negative : Bool} {cs rest : List Char} {v : Json}
    (h : read negative cs = .ok (v, rest)) :
    ∃ body, cs = body ++ rest ∧ body ≠ [] ∧ ((∃ n, v = .int n) ∨ ∃ text, v = .real text) ∧
      ∀ rest', EndsNumber rest' → read negative (body ++ rest') = .ok (v, rest') := by
  rw [read_eq] at h
  obtain ⟨whole, hwhole, h⟩ := bind_eq_ok_iff.1 h
  obtain ⟨q, hq, h⟩ := bind_eq_ok_iff.1 h
  obtain ⟨p, hp, h⟩ := bind_eq_ok_iff.1 h
  obtain ⟨v', hvalue, hresult⟩ := bind_eq_ok_iff.1 h
  obtain ⟨rfl, rfl⟩ := Prod.mk.inj (Except.ok.inj hresult)
  have hv := eq_of_valueOf hvalue
  obtain ⟨hcs, hne, hwholeLocal⟩ := exists_integerPart hwhole
  obtain ⟨fraction, hfraction, hpoint, hqLocal⟩ := exists_fractionPart hq
  obtain ⟨exponent, hexponent, hletter, hpLocal⟩ := exists_exponentPart hp
  have hparts : ∀ rest', EndsNumber rest' →
      integerPart (whole.text ++ (fraction ++ (exponent ++ rest'))) =
          .ok { whole with rest := fraction ++ (exponent ++ rest') } ∧
        fractionPart { whole with rest := fraction ++ (exponent ++ rest') } =
          .ok { q with rest := exponent ++ rest' } ∧
        exponentPart { q with rest := exponent ++ rest' } = .ok { p with rest := rest' } := by
    intro rest' hrest
    have hafter : ∀ c ∈ (exponent ++ rest').head?, c.isDigit = false ∧ c ≠ '.' := by
      intro c hc
      rcases mem_head?_append hc with hc | hc
      · rcases hletter c hc with rfl | rfl <;> decide
      · exact ⟨(hrest c hc).1, (hrest c hc).2.1⟩
    refine ⟨hwholeLocal _ fun c hc => ?_, hqLocal _ (fun c hc => (hafter c hc).1) fun _ hc => ?_,
      hpLocal _ hrest⟩
    · rcases mem_head?_append hc with hc | hc
      · rw [hpoint c hc]
        rfl
      · exact (hafter c hc).1
    · exact (hafter '.' hc).2 rfl
  refine ⟨whole.text ++ (fraction ++ exponent), ?_, by simp [hne], hv, fun rest' hrest => ?_⟩
  · rw [hcs, hfraction, hexponent, List.append_assoc, List.append_assoc]
  · obtain ⟨hwhole, hq, hp⟩ := hparts rest' hrest
    rw [List.append_assoc, List.append_assoc, read_eq, hwhole, ok_bind, hq, ok_bind, hp, ok_bind]
    exact bind_eq_ok_iff.2 ⟨_, hvalue, rfl⟩

end Number

end NeighborSearch.Json
