import Mathlib.Data.Nat.Notation
import Mathlib.Tactic.SplitIfs
import NeighborSearch.Json.Quoted
import NeighborSearch.Proofs.Outcome

/-!
# Strings are read back

Every character of a string is read back from the way it is written, be it an escape or the
character itself, and so is the string, up to its closing quotation mark (`decode_encode`).
There are other ways to write a string. Whichever it is, what the string is read as does not
depend on what follows the quotation mark (`exists_decode`).
-/

namespace NeighborSearch.Json.Quoted

theorem hexValue?_hexDigit : ∀ n < 16, hexValue? (hexDigit n) = some n := by
  decide

theorem hex4_eq_ok {a b c d : Char} {w x y z : ℕ} (ha : hexValue? a = some w)
    (hb : hexValue? b = some x) (hc : hexValue? c = some y) (hd : hexValue? d = some z)
    (rest : List Char) :
    hex4 (a :: b :: c :: d :: rest) = .ok (((w * 16 + x) * 16 + y) * 16 + z, rest) := by
  have hbytes : ¬((a :: b :: c :: d :: rest).take 4).foldr (·.utf8Size + ·) 0 < 4 := by
    have := a.utf8Size_pos
    have := b.utf8Size_pos
    have := c.utf8Size_pos
    have := d.utf8Size_pos
    simp only [List.take_succ_cons, List.take_zero, List.foldr_cons, List.foldr_nil]
    omega
  rw [hex4, if_neg hbytes]
  simp only [ha, hb, hc, hd]

/-- An escape is read as its character. -/
theorem decodeChars_escape {cs rest : List Char} {c : Char} (h : escape cs = .ok (c, rest)) :
    decodeChars ('\\' :: cs) = (decodeChars rest).map fun p => (c :: p.1, p.2) := by
  rw [decodeChars]
  split
  case h_1 e he => rw [h] at he; cases he
  case h_2 c' rest' he =>
    rw [h] at he
    obtain ⟨rfl, rfl⟩ := Prod.mk.inj (Except.ok.inj he)
    cases decodeChars rest <;> rfl

/-- A character that stands for itself is read as itself. -/
theorem decodeChars_plain {c : Char} (hquote : c ≠ '"') (hsolidus : c ≠ '\\')
    (hcontrol : ¬c.toNat < 0x20) (rest : List Char) :
    decodeChars (c :: rest) = (decodeChars rest).map fun p => (c :: p.1, p.2) := by
  rw [decodeChars]
  · rw [if_neg hcontrol]
    cases decodeChars rest <;> rfl
  · exact hquote
  · exact hsolidus

/-- A control character is read from its number. -/
theorem escape_control {c : Char} (h : c.toNat < 0x20) (rest : List Char) :
    escape ('u' :: '0' :: '0' :: hexDigit (c.toNat / 16) :: hexDigit (c.toNat % 16) :: rest) =
      .ok (c, rest) := by
  have hzero : hexValue? '0' = some 0 := rfl
  have hnumber : ((0 * 16 + 0) * 16 + c.toNat / 16) * 16 + c.toNat % 16 = c.toNat := by omega
  have hleading : ¬isLeading c.toNat = true := by
    rw [isLeading, Bool.and_eq_true, decide_eq_true_eq]
    omega
  have htrailing : ¬isTrailing c.toNat = true := by
    rw [isTrailing, Bool.and_eq_true, decide_eq_true_eq]
    omega
  have hdigits := hex4_eq_ok hzero hzero (hexValue?_hexDigit (c.toNat / 16) (by omega))
    (hexValue?_hexDigit (c.toNat % 16) (by omega)) rest
  rw [hnumber] at hdigits
  change ((hex4 _ >>= fun p => _ : Except ReadError (Char × List Char))) = _
  rw [hdigits]
  change (if isTrailing c.toNat = true then _ else if isLeading c.toNat = true then _ else _ :
    Except ReadError (Char × List Char)) = _
  rw [if_neg htrailing, if_neg hleading, Char.ofNat_toNat]
  rfl

theorem decodeChars_encodeChar (c : Char) (rest : List Char) :
    decodeChars (encodeChar c ++ rest) = (decodeChars rest).map fun p => (c :: p.1, p.2) := by
  rw [encodeChar]
  split_ifs with h₁ h₂ h₃ h₄ h₅ h₆ h₇ hcontrol
  · exact decodeChars_escape (by rw [h₁]; rfl)
  · exact decodeChars_escape (by rw [h₂]; rfl)
  · exact decodeChars_escape (by rw [h₃]; rfl)
  · exact decodeChars_escape (by rw [h₄]; rfl)
  · exact decodeChars_escape (by rw [h₅]; rfl)
  · exact decodeChars_escape (by rw [h₆]; rfl)
  · exact decodeChars_escape (by rw [h₇]; rfl)
  · exact decodeChars_escape (escape_control hcontrol rest)
  · exact decodeChars_plain h₁ h₂ hcontrol rest

/-- A string is read back. -/
theorem decode_encode (s : String) (rest : List Char) :
    decode (s.toList.flatMap encodeChar ++ '"' :: rest) = .ok (s, rest) := by
  have hchars : ∀ cs : List Char,
      decodeChars (cs.flatMap encodeChar ++ '"' :: rest) = .ok (cs, rest) := by
    intro cs
    induction cs with
    | nil => rw [List.flatMap_nil, List.nil_append, decodeChars]
    | cons c cs ih =>
      rw [List.flatMap_cons, List.append_assoc, decodeChars_encodeChar, ih]
      rfl
  rw [decode, hchars]
  exact congrArg (fun s => Except.ok (s, rest)) String.ofList_toList

/-! ## What follows a string -/

/-- What is read from the front of a text is read from a part of it, whatever follows. -/
def Local {β : Type} (read : List Char → Except ReadError (β × List Char)) : Prop :=
  ∀ {cs b rest}, read cs = .ok (b, rest) →
    ∃ part, cs = part ++ rest ∧ ∀ rest', read (part ++ rest') = .ok (b, rest')

theorem local_hex4 : Local hex4 := by
  intro cs n rest h
  unfold hex4 at h
  split at h
  · cases h
  split at h
  case h_2 => cases h
  case h_1 a b c d tail _ =>
    split at h
    case h_2 => cases h
    case h_1 ha hb hc hd =>
      obtain ⟨rfl, rfl⟩ := Prod.mk.inj (Except.ok.inj h)
      exact ⟨[a, b, c, d], rfl, fun rest' => hex4_eq_ok ha hb hc hd rest'⟩

theorem local_trailing : Local trailing := by
  intro cs n rest h
  unfold trailing at h
  split at h
  case h_1 | h_2 | h_4 => cases h
  case h_3 cs =>
    obtain ⟨⟨m, tail⟩, hhex, hread⟩ := bind_eq_ok_iff.1 h
    obtain ⟨htrailing, hread⟩ := ite_eq_ok_iff.1 hread
    obtain ⟨rfl, rfl⟩ := Prod.mk.inj hread
    obtain ⟨digits, rfl, hdigits⟩ := local_hex4 hhex
    refine ⟨'\\' :: 'u' :: digits, rfl, fun rest' => ?_⟩
    change (hex4 (digits ++ rest') >>= fun p => _ : Except ReadError (ℕ × List Char)) = _
    rw [hdigits, ok_bind]
    exact if_pos htrailing

theorem local_unicodeEscape : Local unicodeEscape := by
  intro cs c rest h
  obtain ⟨⟨n, tail⟩, hhex, hread⟩ := bind_eq_ok_iff.1 h
  obtain ⟨digits, rfl, hdigits⟩ := local_hex4 hhex
  dsimp only at hread
  split_ifs at hread with htrailing hleading
  · -- The second one of a pair of surrogates follows the first one.
    obtain ⟨⟨m, tail'⟩, htail, hchar⟩ := bind_eq_ok_iff.1 hread
    obtain ⟨rfl, rfl⟩ := Prod.mk.inj (Except.ok.inj hchar)
    obtain ⟨second, rfl, hsecond⟩ := local_trailing htail
    refine ⟨digits ++ second, (List.append_assoc ..).symm, fun rest' => ?_⟩
    rw [List.append_assoc, unicodeEscape, hdigits, ok_bind]
    dsimp only
    rw [if_neg htrailing, if_pos hleading, hsecond]
    rfl
  · obtain ⟨rfl, rfl⟩ := Prod.mk.inj (Except.ok.inj hread)
    refine ⟨digits, rfl, fun rest' => ?_⟩
    rw [unicodeEscape, hdigits, ok_bind]
    dsimp only
    rw [if_neg htrailing, if_neg hleading]
    rfl

theorem local_escape : Local escape := by
  intro cs c rest h
  unfold escape at h
  split at h
  case h_1 | h_11 => cases h
  case h_10 cs =>
    obtain ⟨digits, rfl, hdigits⟩ := local_unicodeEscape h
    exact ⟨'u' :: digits, rfl, hdigits⟩
  all_goals
    obtain ⟨rfl, rfl⟩ := Prod.mk.inj (Except.ok.inj h)
    exact ⟨[_], rfl, fun rest' => rfl⟩

/-- The characters of a string are read up to its closing quotation mark, whatever follows. -/
theorem exists_decodeChars {cs s rest : List Char} (h : decodeChars cs = .ok (s, rest)) :
    ∃ body, cs = body ++ '"' :: rest ∧
      ∀ rest', decodeChars (body ++ '"' :: rest') = .ok (s, rest') := by
  induction cs using decodeChars.induct generalizing s rest with
  | case1 => rw [decodeChars] at h; cases h
  | case2 tail =>
    rw [decodeChars] at h
    obtain ⟨rfl, rfl⟩ := Prod.mk.inj (Except.ok.inj h)
    exact ⟨[], rfl, fun rest' => by rw [List.nil_append, decodeChars]⟩
  | case3 tail e he =>
    rw [decodeChars] at h
    split at h
    · cases h
    · rename_i hok
      cases he.symm.trans hok
  | case4 tail c tail' he ih =>
    rw [decodeChars_escape he] at h
    obtain ⟨⟨s', rest'⟩, hread, hs⟩ := map_eq_ok_iff.1 h
    obtain ⟨rfl, rfl⟩ := Prod.mk.inj hs
    obtain ⟨body, rfl, hbody⟩ := ih hread
    obtain ⟨part, rfl, hpart⟩ := local_escape he
    refine ⟨'\\' :: (part ++ body), by simp, fun rest'' => ?_⟩
    rw [List.cons_append, List.append_assoc, decodeChars_escape (hpart _), hbody]
    rfl
  | case5 c tail hquote hsolidus hcontrol =>
    rw [decodeChars, if_pos hcontrol] at h
    · cases h
    · exact hquote
    · exact hsolidus
  | case6 c tail hquote hsolidus hcontrol ih =>
    rw [decodeChars_plain hquote hsolidus hcontrol] at h
    obtain ⟨⟨s', rest'⟩, hread, hs⟩ := map_eq_ok_iff.1 h
    obtain ⟨rfl, rfl⟩ := Prod.mk.inj hs
    obtain ⟨body, rfl, hbody⟩ := ih hread
    refine ⟨c :: body, rfl, fun rest'' => ?_⟩
    rw [List.cons_append, decodeChars_plain hquote hsolidus hcontrol, hbody]
    rfl

/-- A string is read up to its closing quotation mark, whatever follows. -/
theorem exists_decode {cs rest : List Char} {s : String} (h : decode cs = .ok (s, rest)) :
    ∃ body, cs = body ++ '"' :: rest ∧
      ∀ rest', decode (body ++ '"' :: rest') = .ok (s, rest') := by
  obtain ⟨⟨chars, rest⟩, hread, hs⟩ := bind_eq_ok_iff.1 h
  obtain ⟨rfl, rfl⟩ := Prod.mk.inj (Except.ok.inj hs)
  obtain ⟨body, rfl, hbody⟩ := exists_decodeChars hread
  refine ⟨body, rfl, fun rest' => ?_⟩
  rw [decode, hbody]
  rfl

end NeighborSearch.Json.Quoted
