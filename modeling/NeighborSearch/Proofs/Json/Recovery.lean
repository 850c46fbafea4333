import NeighborSearch.Proofs.Json.Quoted
import NeighborSearch.Proofs.Json.Read

/-!
# The spelling of a text

What is read as a whole value is spelled by the part of the text that it is read from
(`readValue_spelled`). So the texts that hold a value, with nothing after it, are
those that a spelling of this value fills (`ofString_eq_iff`), and what is decoded from a text
is decoded from the value that it spells (`decodeText_eq_ok_iff`).
-/

namespace NeighborSearch.Json

variable {α : Type} {item : Reader} {room depth : ℕ} {cs rest : List Char} {v : Json}

/-! ## Words, numbers and strings -/

theorem fault?_ne_none {w : Json} {e : ReadError} {cs' : List Char} (hcut : w.fault? = some e)
    (h : (w, cs') = (v, rest)) : v.fault? ≠ none := by
  obtain ⟨rfl, -⟩ := Prod.mk.inj h
  exact hcut.trans_ne (Option.some_ne_none e)

theorem eq_of_readWord {value : Json} {word : List Char}
    (h : readWord value word cs = (v, rest)) (hwhole : v.fault? = none) :
    v = value ∧ cs = word ++ rest := by
  induction word generalizing cs with
  | nil =>
    obtain ⟨rfl, rfl⟩ := Prod.mk.inj h
    exact ⟨rfl, rfl⟩
  | cons w word ih =>
    cases cs with
    | nil =>
      exact absurd hwhole (fault?_ne_none rfl h)
    | cons c cs =>
      rw [readWord] at h
      split_ifs at h with hc
      · obtain ⟨hv, hcs⟩ := ih h
        exact ⟨hv, by rw [hc, hcs, List.cons_append]⟩
      · exact absurd hwhole (fault?_ne_none rfl h)

theorem eq_ok_of_orCut {result : Except ReadError (Json × List Char)}
    (h : orCut result = (v, rest)) (hwhole : v.fault? = none) : result = .ok (v, rest) := by
  cases result with
  | error e =>
    exact absurd hwhole (fault?_ne_none rfl h)
  | ok r =>
    obtain rfl : r = (v, rest) := h
    rfl

theorem isScalar_of_number (h : (∃ n, v = .int n) ∨ ∃ text, v = .real text) : v.IsScalar := by
  obtain ⟨n, rfl⟩ | ⟨text, rfl⟩ := h <;> trivial

/-- What is read behind a quotation mark has been spelled as a string. -/
theorem exists_readAs_string {tail : List Char} {s : String}
    (h : Quoted.decode tail = .ok (s, rest)) :
    ∃ body, '"' :: tail = body ++ rest ∧ ReadAs body (.string s) := by
  obtain ⟨body, rfl, hbody⟩ := Quoted.exists_decode h
  refine ⟨'"' :: (body ++ ['"']), by simp, fun room inside rest' _ => ?_⟩
  rw [List.cons_append, List.append_assoc, readValueWith, skipBlanks_cons (by decide)]
  change orCut ((Quoted.decode (body ++ '"' :: rest')).map _) = _
  rw [hbody]
  rfl

/-- What is read behind a minus has been spelled as a number. -/
theorem exists_readAs_negative {tail : List Char} (h : Number.read true tail = .ok (v, rest)) :
    ∃ body, '-' :: tail = body ++ rest ∧ v.IsScalar ∧ ReadAs body v := by
  obtain ⟨body, rfl, -, hnumber, hbody⟩ := Number.exists_read h
  refine ⟨'-' :: body, rfl, isScalar_of_number hnumber, fun room inside rest' hrest => ?_⟩
  rw [List.cons_append, readValueWith, skipBlanks_cons (by decide)]
  change orCut (Number.read true (body ++ rest')) = _
  rw [hbody rest' hrest]
  rfl

/-- What is read from a digit on has been spelled as a number. -/
theorem exists_readAs_digit {c : Char} {tail : List Char} (hc : c.isDigit = true)
    (h : Number.read false (c :: tail) = .ok (v, rest)) :
    ∃ body, c :: tail = body ++ rest ∧ v.IsScalar ∧ ReadAs body v := by
  obtain ⟨body, hcs, hne, hnumber, hbody⟩ := Number.exists_read h
  obtain ⟨d, body, rfl⟩ := List.exists_cons_of_ne_nil hne
  obtain rfl := (List.cons.inj hcs).1
  refine ⟨c :: body, hcs, isScalar_of_number hnumber, fun room inside rest' hrest => ?_⟩
  rw [List.cons_append, readValueWith_of_isDigit hc, ← List.cons_append, hbody rest' hrest]
  rfl

/-- A whole value is a word, a number or a string, or what is inside its brackets has been read
    by the given reader. -/
theorem readValueWith_cases {inside : Option Reader}
    (h : readValueWith room inside cs = (v, rest)) (hwhole : v.fault? = none) :
    (∃ body, skipBlanks cs = body ++ rest ∧ v.IsScalar ∧ ReadAs body v) ∨
      (∃ item tail, inside = some item ∧ skipBlanks cs = '[' :: tail ∧
        readArray room item tail = (v, rest)) ∨
      ∃ item tail, inside = some item ∧ skipBlanks cs = '\x7b' :: tail ∧
        readObject room item tail = (v, rest) := by
  rw [readValueWith] at h
  split at h
  case h_1 =>
    exact absurd hwhole (fault?_ne_none rfl h)
  case h_2 heq =>
    obtain ⟨rfl, rfl⟩ := eq_of_readWord h hwhole
    exact .inl ⟨['n', 'u', 'l', 'l'], heq, trivial, fun _ _ _ _ => rfl⟩
  case h_3 heq =>
    obtain ⟨rfl, rfl⟩ := eq_of_readWord h hwhole
    exact .inl ⟨['t', 'r', 'u', 'e'], heq, trivial, fun _ _ _ _ => rfl⟩
  case h_4 heq =>
    obtain ⟨rfl, rfl⟩ := eq_of_readWord h hwhole
    exact .inl ⟨['f', 'a', 'l', 's', 'e'], heq, trivial, fun _ _ _ _ => rfl⟩
  case h_5 tail heq =>
    obtain ⟨⟨s, tail'⟩, hdecode, hs⟩ := map_eq_ok_iff.1 (eq_ok_of_orCut h hwhole)
    obtain ⟨rfl, rfl⟩ := Prod.mk.inj hs
    obtain ⟨body, hcs, hbody⟩ := exists_readAs_string hdecode
    exact .inl ⟨body, heq.trans hcs, trivial, hbody⟩
  case h_6 tail heq =>
    obtain ⟨body, hcs, hbody⟩ := exists_readAs_negative (eq_ok_of_orCut h hwhole)
    exact .inl ⟨body, heq.trans hcs, hbody⟩
  case h_7 tail heq =>
    split at h
    · exact .inr (.inl ⟨_, tail, rfl, heq, h⟩)
    · exact absurd hwhole (fault?_ne_none rfl h)
  case h_8 tail heq =>
    split at h
    · exact .inr (.inr ⟨_, tail, rfl, heq, h⟩)
    · exact absurd hwhole (fault?_ne_none rfl h)
  case h_9 c tail _ _ _ _ _ _ _ heq =>
    split_ifs at h with hc
    · obtain ⟨body, hcs, hbody⟩ := exists_readAs_digit hc (eq_ok_of_orCut h hwhole)
      exact .inl ⟨body, heq.trans hcs, hbody⟩
    · exact absurd hwhole (fault?_ne_none rfl h)

/-! ## Items and members -/

/-- What the reader reads as a whole value has been spelled by an `α`, whatever blanks after it
    are taken along. -/
def Reader.Spelled (item : Reader) (inner : α → List Char) (value : α → Json) : Prop :=
  ∀ cs v (after : Blanks) rest, item cs = (v, after.chars ++ rest) → v.fault? = none →
    ∃ a, value a = v ∧ cs = inner a ++ rest

variable {inner : α → List Char} {value : α → Json}

/-- The items of an array are spelled by what stands before its closing bracket. -/
theorem exists_of_readItems (hitem : item.Separates) (hspelled : item.Spelled inner value)
    {vs : List Json} (h : readItems item room cs = (vs, none, rest)) :
    ∃ (a : α) (items : List α), (a :: items).map value = vs ∧
      cs = commaSeparated ((a :: items).map inner) ++ ']' :: rest := by
  induction room generalizing cs vs with
  | zero => cases (Prod.mk.inj (Prod.mk.inj h).2).1
  | succ room ih =>
    rcases hread : item cs with ⟨v, tail⟩
    simp only [readItems, hread] at h
    cases hfault : v.fault? with
    | some e =>
      rw [hfault] at h
      cases (Prod.mk.inj (Prod.mk.inj h).2).1
    | none =>
      obtain ⟨after, hafter⟩ := exists_blanks tail
      rw [hafter] at hread
      obtain ⟨a, rfl, rfl⟩ := hspelled _ _ _ _ hread hfault
      rw [hfault] at h
      dsimp only at h
      split at h
      case h_1 | h_4 => cases (Prod.mk.inj (Prod.mk.inj h).2).1
      case h_2 heq =>
        simp only [Prod.mk.injEq, true_and] at h
        obtain ⟨rfl, rfl⟩ := h
        exact ⟨a, [], rfl, by rw [heq, List.map_singleton, commaSeparated_singleton]⟩
      case h_3 tail' heq =>
        split at h
        case h_1 => cases (Prod.mk.inj (Prod.mk.inj h).2).1
        case h_2 =>
          rcases hrest : readItems item room (skipBlanks tail') with ⟨vs', stop, rest'⟩
          simp only [hrest, Prod.mk.injEq] at h
          obtain ⟨rfl, rfl, rfl⟩ := h
          cases room with
          | zero => cases (Prod.mk.inj (Prod.mk.inj hrest).2).1
          | succ room =>
            rw [readItems_skipBlanks hitem] at hrest
            obtain ⟨b, items, rfl, htail⟩ := ih hrest
            refine ⟨a, b :: items, rfl, ?_⟩
            simp only [heq, htail, List.map_cons, commaSeparated_cons_cons, List.append_assoc,
              List.cons_append]

theorem exists_of_readArray (hitem : item.Separates) (hspelled : item.Spelled inner value)
    (h : readArray room item cs = (v, rest)) (hwhole : v.fault? = none) :
    ∃ (inside : Blanks) (items : List α), .ofItems (items.map value) = v ∧
      cs = inside.chars ++ (commaSeparated (items.map inner) ++ ']' :: rest) := by
  obtain ⟨inside, hinside⟩ := exists_blanks cs
  rw [readArray] at h
  split at h
  case h_1 =>
    exact absurd hwhole (fault?_ne_none rfl h)
  case h_2 heq =>
    obtain ⟨rfl, rfl⟩ := Prod.mk.inj h
    exact ⟨inside, [], rfl, by rw [← heq]; exact hinside⟩
  case h_3 =>
    rcases hitems : readItems item room (skipBlanks cs) with ⟨vs, stop, rest'⟩
    rw [hitems] at h
    obtain ⟨rfl, rfl⟩ := Prod.mk.inj h
    obtain rfl : stop = none := hwhole
    obtain ⟨a, items, rfl, htail⟩ := exists_of_readItems hitem hspelled hitems
    exact ⟨inside, a :: items, rfl, by rw [← htail]; exact hinside⟩

theorem exists_of_readMemberValue (h : readMemberValue item cs = (v, rest))
    (hwhole : v.fault? = none) :
    ∃ (between : Blanks) (tail : List Char), cs = between.chars ++ ':' :: tail ∧
      item tail = (v, rest) := by
  obtain ⟨between, hbetween⟩ := exists_blanks cs
  rw [readMemberValue] at h
  split at h
  case h_1 | h_3 =>
    exact absurd hwhole (fault?_ne_none rfl h)
  case h_2 tail heq => exact ⟨between, tail, by rw [← heq]; exact hbetween, h⟩

/-- A member is spelled by what its name and its value are read from. -/
theorem exists_member (hspelled : item.Spelled inner value) {name : String}
    {tail afterName afterValue : List Char} (hname : Quoted.decode tail = .ok (name, afterName))
    (hvalue : readMemberValue item afterName = (v, afterValue)) (hwhole : v.fault? = none)
    (before : Blanks) :
    ∃ m : Label × α, (m.1.name, value m.2) = (name, v) ∧
      before.chars ++ '"' :: tail = m.1.chars ++ (inner m.2 ++ skipBlanks afterValue) := by
  obtain ⟨body, rfl, hbody⟩ := Quoted.exists_decode hname
  obtain ⟨between, tail, rfl, hitem⟩ := exists_of_readMemberValue hvalue hwhole
  obtain ⟨after, hafter⟩ := exists_blanks afterValue
  rw [hafter] at hitem
  obtain ⟨a, rfl, rfl⟩ := hspelled _ _ _ _ hitem hwhole
  exact ⟨(⟨before, body, between, name, hbody⟩, a), rfl, by simp [Label.chars]⟩

/-- The members of an object are spelled by what stands before its closing brace. -/
theorem exists_of_readMembers (hspelled : item.Spelled inner value) {ms : List (String × Json)}
    (h : readMembers item room (skipBlanks cs) = (ms, none, rest)) :
    ∃ (m : Label × α) (members : List (Label × α)),
      ((m :: members).map fun m => (m.1.name, value m.2)) = ms ∧
      cs = commaSeparated ((m :: members).map fun m => m.1.chars ++ inner m.2) ++
        '\x7d' :: rest := by
  induction room generalizing cs ms with
  | zero => cases (Prod.mk.inj (Prod.mk.inj h).2).1
  | succ room ih =>
    obtain ⟨before, hbefore⟩ := exists_blanks cs
    rw [hbefore]
    generalize skipBlanks cs = begun at h
    unfold readMembers at h
    split at h
    case h_1 heq => cases heq
    case h_2 | h_4 => cases (Prod.mk.inj (Prod.mk.inj h).2).1
    case h_3 room' tail heq =>
      obtain rfl := Nat.succ.inj heq
      split at h
      case h_1 => cases (Prod.mk.inj (Prod.mk.inj h).2).1
      case h_2 name afterName hname =>
        rcases hvalue : readMemberValue item afterName with ⟨v, afterValue⟩
        simp only [hvalue] at h
        cases hwhole : v.fault? with
        | some e =>
          rw [hwhole] at h
          cases (Prod.mk.inj (Prod.mk.inj h).2).1
        | none =>
          obtain ⟨m, hm, hchars⟩ := exists_member hspelled hname hvalue hwhole before
          rw [hwhole] at h
          dsimp only at h
          split at h
          case h_1 | h_4 => cases (Prod.mk.inj (Prod.mk.inj h).2).1
          case h_2 hclose =>
            simp only [Prod.mk.injEq, true_and] at h
            obtain ⟨rfl, rfl⟩ := h
            exact ⟨m, [], congrArg (· :: []) hm, by simp [hchars, hclose]⟩
          case h_3 tail' hcomma =>
            rcases hrest : readMembers item room (skipBlanks tail') with ⟨ms', stop, rest'⟩
            simp only [hrest, Prod.mk.injEq] at h
            obtain ⟨rfl, rfl, rfl⟩ := h
            obtain ⟨n, members, rfl, htail⟩ := ih hrest
            refine ⟨m, n :: members, congrArg (· :: _) hm, ?_⟩
            simp only [hchars, hcomma, htail, List.map_cons, commaSeparated_cons_cons,
              List.append_assoc, List.cons_append]

theorem exists_of_readObject (hspelled : item.Spelled inner value)
    (h : readObject room item cs = (v, rest)) (hwhole : v.fault? = none) :
    ∃ (inside : Blanks) (members : List (Label × α)),
      .ofMembers (members.map fun m => (m.1.name, value m.2)) = v ∧
      cs = inside.chars ++
        (commaSeparated (members.map fun m => m.1.chars ++ inner m.2) ++ '\x7d' :: rest) := by
  obtain ⟨inside, hinside⟩ := exists_blanks cs
  rw [readObject] at h
  split at h
  case h_1 =>
    exact absurd hwhole (fault?_ne_none rfl h)
  case h_2 heq =>
    obtain ⟨rfl, rfl⟩ := Prod.mk.inj h
    exact ⟨inside, [], rfl, by rw [← heq]; exact hinside⟩
  case h_3 =>
    rcases hmembers : readMembers item room (skipBlanks cs) with ⟨ms, stop, rest'⟩
    rw [hmembers] at h
    obtain ⟨rfl, rfl⟩ := Prod.mk.inj h
    obtain rfl : stop = none := hwhole
    rw [← skipBlanks_skipBlanks] at hmembers
    obtain ⟨m, members, rfl, htail⟩ := exists_of_readMembers hspelled hmembers
    exact ⟨inside, m :: members, rfl, by rw [← htail]; exact hinside⟩

/-! ## Values -/

/-- A whole value is spelled by what it is read from, if the values inside it are. -/
theorem readValueWith_spelled (hitem : item.Separates) (hspelled : item.Spelled inner value) :
    (readValueWith room (some item)).Spelled (Node.chars inner) (Node.value value) := by
  intro cs v after rest h hwhole
  obtain ⟨before, hbefore⟩ := exists_blanks cs
  obtain ⟨body, hbody, hscalar, hread⟩ | ⟨item', tail, hinside, hbegin, harray⟩ |
    ⟨item', tail, hinside, hbegin, hobject⟩ := readValueWith_cases h hwhole
  · refine ⟨.leaf ⟨before, body, after, v, hscalar, hread⟩, rfl, ?_⟩
    rw [hbefore, hbody]
    simp [Node.chars, Leaf.chars]
  · obtain rfl := Option.some.inj hinside
    obtain ⟨inside, items, rfl, rfl⟩ := exists_of_readArray hitem hspelled harray hwhole
    refine ⟨.array before inside items after, rfl, ?_⟩
    rw [hbefore, hbegin]
    simp [Node.chars]
  · obtain rfl := Option.some.inj hinside
    obtain ⟨inside, members, rfl, rfl⟩ := exists_of_readObject hspelled hobject hwhole
    refine ⟨.object before inside members after, rfl, ?_⟩
    rw [hbefore, hbegin]
    simp [Node.chars]

/-- Whatever is read as a whole value is spelled by what it is read from. -/
theorem readValue_spelled (room depth : ℕ) :
    (readValue room depth).Spelled (@Spelling.chars depth) Spelling.value := by
  induction depth with
  | zero =>
    intro cs v after rest h hwhole
    obtain ⟨before, hbefore⟩ := exists_blanks cs
    obtain ⟨body, hbody, hscalar, hread⟩ | ⟨item', tail, hinside, -⟩ | ⟨item', tail, hinside, -⟩ :=
      readValueWith_cases h hwhole
    · refine ⟨(⟨before, body, after, v, hscalar, hread⟩ : Leaf), rfl, ?_⟩
      rw [hbefore, hbody]
      simp [Spelling.chars, Leaf.chars]
    · cases hinside
    · cases hinside
  | succ depth ih => exact readValueWith_spelled (readValue_separates room depth) ih

/-! ## Documents -/

/-- The texts that hold a whole value and nothing else are those that spell this value. -/
theorem ofString_eq_iff {text : String} :
    Document.ofString text = ⟨v, false⟩ ∧ v.fault? = none ↔
      ∃ s : Spelling maxDepth, s.text = text ∧ s.value = v := by
  constructor
  · rintro ⟨h, hwhole⟩
    rcases hread : readValue text.toList.length maxDepth text.toList with ⟨v', rest⟩
    simp only [Document.ofString, hread, Document.mk.injEq, decide_eq_false_iff_not,
      Decidable.not_not] at h
    obtain ⟨rfl, hrest⟩ := h
    obtain ⟨after, hafter⟩ := exists_blanks rest
    rw [hrest] at hafter
    rw [hafter] at hread
    obtain ⟨s, hvalue, hchars⟩ := readValue_spelled _ _ _ _ after [] hread hwhole
    refine ⟨s, ?_, hvalue⟩
    rw [Spelling.text, ← List.append_nil s.chars, ← hchars, String.ofList_toList]
  · rintro ⟨s, rfl, rfl⟩
    exact ⟨s.ofString_text, s.fault?_value⟩

/-- What a text is decoded to is what the value that it spells is decoded to. -/
theorem decodeText_eq_ok_iff {β : Type} {read : Json → Decoded β} {text : String} {b : β} :
    decodeText read text = .ok b ↔
      ∃ s : Spelling maxDepth, s.text = text ∧ read s.value = .ok b := by
  constructor
  · intro h
    rcases hdocument : Document.ofString text with ⟨v, trailing⟩
    rw [decodeText, hdocument] at h
    obtain ⟨a, hread, h⟩ := bind_eq_ok_iff.1 h
    cases hfault : v.fault? with
    | some e =>
      rw [hfault] at h
      cases h
    | none =>
      rw [hfault] at h
      cases trailing with
      | true => cases h
      | false =>
        obtain rfl := Except.ok.inj h
        obtain ⟨s, htext, rfl⟩ := ofString_eq_iff.1 ⟨hdocument, hfault⟩
        exact ⟨s, htext, hread⟩
  · rintro ⟨s, rfl, hread⟩
    rw [s.decodeText_text, hread]

end NeighborSearch.Json
