import NeighborSearch.Json.Value

/-!
# Strings in JSON texts

A string stands between quotation marks. Inside, a quotation mark, a reverse solidus
and the control characters are written by escapes; any character may be. Characters
beyond the first 65536 take two escapes of four digits each, a leading and a trailing
surrogate, neither of which may stand alone.
-/

namespace NeighborSearch.Json.Quoted

/-! ## Writing -/

/-- The hexadecimal digit of a number below sixteen. -/
def hexDigit (n : Nat) : Char := Nat.digitChar n

/-- A character as it is written inside a string. -/
def encodeChar (c : Char) : List Char :=
  if c = '"' then ['\\', '"']
  else if c = '\\' then ['\\', '\\']
  else if c = '\x08' then ['\\', 'b']
  else if c = '\x0c' then ['\\', 'f']
  else if c = '\n' then ['\\', 'n']
  else if c = '\r' then ['\\', 'r']
  else if c = '\t' then ['\\', 't']
  else if c.toNat < 0x20 then
    ['\\', 'u', '0', '0', hexDigit (c.toNat / 16), hexDigit (c.toNat % 16)]
  else [c]

/-- A string with its quotation marks. -/
def encode (s : String) : List Char := '"' :: s.toList.flatMap encodeChar ++ ['"']

/-! ## Reading -/

/-- The value of a hexadecimal digit. -/
def hexValue? (c : Char) : Option Nat :=
  if '0' ≤ c ∧ c ≤ '9' then some (c.toNat - '0'.toNat)
  else if 'a' ≤ c ∧ c ≤ 'f' then some (c.toNat - 'a'.toNat + 10)
  else if 'A' ≤ c ∧ c ≤ 'F' then some (c.toNat - 'A'.toNat + 10)
  else none

/-- Four hexadecimal digits, and what follows them. A text with fewer than four bytes
    left ends too early, whatever they are. -/
def hex4 (cs : List Char) : Except ReadError (Nat × List Char) :=
  if (cs.take 4).foldr (·.utf8Size + ·) 0 < 4 then
    .error .endOfText
  else
    match cs with
    | a :: b :: c :: d :: rest =>
      match hexValue? a, hexValue? b, hexValue? c, hexValue? d with
      | some a, some b, some c, some d => .ok (((a * 16 + b) * 16 + c) * 16 + d, rest)
      | _, _, _, _ => .error .malformed
    | _ => .error .malformed

/-- Whether the number is the first of a pair of surrogates. -/
def isLeading (n : Nat) : Bool := 0xD800 ≤ n && n < 0xDC00

/-- Whether the number is the second of a pair of surrogates. -/
def isTrailing (n : Nat) : Bool := 0xDC00 ≤ n && n < 0xE000

/-- The trailing surrogate that has to follow a leading one. -/
def trailing (cs : List Char) : Except ReadError (Nat × List Char) :=
  match cs with
  | [] | ['\\'] => .error .endOfText
  | '\\' :: 'u' :: cs => do
    let (n, rest) ← hex4 cs
    if isTrailing n then .ok (n, rest) else .error .malformed
  | _ => .error .malformed

/-- The character of an escape by digits, from the first digit on. -/
def unicodeEscape (cs : List Char) : Except ReadError (Char × List Char) := do
  let (n, rest) ← hex4 cs
  if isTrailing n then
    throw .malformed
  else if isLeading n then
    let (m, rest) ← trailing rest
    return (Char.ofNat (0x10000 + (n - 0xD800) * 0x400 + (m - 0xDC00)), rest)
  else
    return (Char.ofNat n, rest)

/-- The character of an escape, from after its reverse solidus. -/
def escape : List Char → Except ReadError (Char × List Char)
  | [] => .error .endOfText
  | '"' :: rest => .ok ('"', rest)
  | '\\' :: rest => .ok ('\\', rest)
  | '/' :: rest => .ok ('/', rest)
  | 'b' :: rest => .ok ('\x08', rest)
  | 'f' :: rest => .ok ('\x0c', rest)
  | 'n' :: rest => .ok ('\n', rest)
  | 'r' :: rest => .ok ('\r', rest)
  | 't' :: rest => .ok ('\t', rest)
  | 'u' :: rest => unicodeEscape rest
  | _ :: _ => .error .malformed

theorem length_of_hex4 {cs rest : List Char} {n : Nat} (h : hex4 cs = .ok (n, rest)) :
    rest.length < cs.length := by
  unfold hex4 at h
  split at h
  · simp at h
  · split at h
    · split at h
      · simp only [Except.ok.injEq, Prod.mk.injEq] at h
        simp only [← h.2, List.length_cons]
        omega
      · simp at h
    · simp at h

theorem length_of_trailing {cs rest : List Char} {n : Nat} (h : trailing cs = .ok (n, rest)) :
    rest.length < cs.length := by
  unfold trailing at h
  split at h
  · simp at h
  · simp at h
  · next cs =>
    cases hx : hex4 cs with
    | error e => simp [hx, bind, Except.bind] at h
    | ok p =>
      have := length_of_hex4 hx
      simp only [hx, bind, Except.bind] at h
      split at h
      · simp only [Except.ok.injEq, Prod.mk.injEq] at h
        simp only [← h.2, List.length_cons]
        omega
      · simp at h
  · simp at h

theorem length_of_unicodeEscape {cs rest : List Char} {c : Char}
    (h : unicodeEscape cs = .ok (c, rest)) : rest.length < cs.length := by
  unfold unicodeEscape at h
  cases hx : hex4 cs with
  | error e => simp [hx, bind, Except.bind] at h
  | ok p =>
    have hp := length_of_hex4 hx
    simp only [hx, bind, Except.bind] at h
    split at h
    · simp [throw, throwThe, MonadExceptOf.throw] at h
    · split at h
      · cases ht : trailing p.2 with
        | error e => simp [ht] at h
        | ok q =>
          have hq := length_of_trailing ht
          simp only [ht, pure, Except.pure, Except.ok.injEq, Prod.mk.injEq] at h
          rw [← h.2]
          omega
      · simp only [pure, Except.pure, Except.ok.injEq, Prod.mk.injEq] at h
        rw [← h.2]
        exact hp

/-- An escape takes at least one character of the text. -/
theorem length_of_escape {cs rest : List Char} {c : Char} (h : escape cs = .ok (c, rest)) :
    rest.length < cs.length := by
  unfold escape at h
  split at h
  case h_1 => simp at h
  case h_10 =>
    have := length_of_unicodeEscape h
    simp only [List.length_cons]
    omega
  case h_11 => simp at h
  all_goals
    simp only [Except.ok.injEq, Prod.mk.injEq] at h
    simp [← h.2]

/-- The characters up to the closing quotation mark, and what follows it. -/
def decodeChars (cs : List Char) : Except ReadError (List Char × List Char) :=
  match cs with
  | [] => .error .endOfText
  | '"' :: rest => .ok ([], rest)
  | '\\' :: rest =>
    match _h : escape rest with
    | .error e => .error e
    | .ok (c, rest) => do
      let (s, rest) ← decodeChars rest
      return (c :: s, rest)
  | c :: rest =>
    if c.toNat < 0x20 then
      .error .malformed
    else do
      let (s, rest) ← decodeChars rest
      return (c :: s, rest)
termination_by cs.length
decreasing_by
  · have := length_of_escape _h
    simp only [List.length_cons]
    omega
  · simp

/-- The string after an opening quotation mark, and what follows its closing one. -/
def decode (cs : List Char) : Except ReadError (String × List Char) := do
  let (s, rest) ← decodeChars cs
  return (String.ofList s, rest)

end NeighborSearch.Json.Quoted
