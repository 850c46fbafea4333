import Mathlib.Data.List.DropRight
import Mathlib.Data.List.TakeWhile
import NeighborSearch.Json.Decode
import NeighborSearch.Proofs.Json.Number

/-!
# Spelled values

A text spells a value with all that has no part in it: blanks, the way in which strings and
numbers are written, and the order of members. A `Spelling` holds all this. Its arrays and
objects are nested no deeper than its type says, as with the readers of values, and words,
numbers and strings carry the proof that they are read. So every spelling is read as its value
wherever it stands, unless what follows goes on with a number (`Spelling.takes`),
and a text that a spelling fills is a document of its value (`Spelling.ofString_text`).
-/

namespace NeighborSearch.Json

/-! ## Blanks -/

/-- Blanks as they stand between the parts of a text. -/
structure Blanks where
  /-- The blanks. -/
  chars : List Char
  /-- There is nothing else among them. -/
  blank : ∀ c ∈ chars, isBlank c = true

/-- No blanks. -/
def Blanks.none : Blanks := ⟨[], List.forall_mem_nil _⟩

@[simp] theorem Blanks.chars_none : Blanks.none.chars = [] := rfl

@[simp] theorem skipBlanks_append (blanks : Blanks) (cs : List Char) :
    skipBlanks (blanks.chars ++ cs) = skipBlanks cs :=
  List.dropWhile_append_of_pos blanks.blank

theorem skipBlanks_cons {c : Char} (hc : isBlank c = false) (cs : List Char) :
    skipBlanks (c :: cs) = c :: cs :=
  List.dropWhile_cons_of_neg (by simp [hc])

@[simp] theorem skipBlanks_skipBlanks (cs : List Char) :
    skipBlanks (skipBlanks cs) = skipBlanks cs :=
  List.dropWhile_idempotent _ _

/-- Before anything else in a text there are blanks. -/
theorem exists_blanks (cs : List Char) : ∃ blanks : Blanks, cs = blanks.chars ++ skipBlanks cs :=
  ⟨⟨cs.takeWhile isBlank, fun _ => List.mem_takeWhile_imp⟩, List.takeWhile_append_dropWhile.symm⟩

theorem EndsNumber.cons {c : Char} (hc : c.isDigit = false ∧ c ≠ '.' ∧ c ≠ 'e' ∧ c ≠ 'E')
    (rest : List Char) : EndsNumber (c :: rest) := by
  intro d hd
  obtain rfl := Option.some.inj hd
  exact hc

theorem EndsNumber.blanks {rest : List Char} (hrest : EndsNumber rest) (blanks : Blanks) :
    EndsNumber (blanks.chars ++ rest) := by
  obtain ⟨_ | ⟨b, blanks⟩, hblank⟩ := blanks
  · exact hrest
  · have hb := hblank b List.mem_cons_self
    simp only [isBlank, Bool.or_eq_true, decide_eq_true_eq] at hb
    refine .cons ?_ _
    rcases hb with ((rfl | rfl) | rfl) | rfl <;> decide

/-! ## Spellings -/

/-- Characters that are read as a value wherever they stand, unless what follows goes on with a
    number: those of a word, a number or a string. -/
def ReadAs (cs : List Char) (v : Json) : Prop :=
  ∀ room inside rest, EndsNumber rest → readValueWith room inside (cs ++ rest) = (v, rest)

/-- Whether the value has no values inside it. -/
def IsScalar : Json → Prop
  | .null | .bool _ | .int _ | .real _ | .string _ => True
  | .array .. | .object .. | .cut _ => False

theorem IsScalar.fault?_eq_none {v : Json} (h : v.IsScalar) : v.fault? = none := by
  cases v <;> first | rfl | exact h.elim

/-- A word, a number or a string with the blanks before and after it. -/
structure Leaf where
  before : Blanks
  body : List Char
  after : Blanks
  /-- The value that the body is read as. -/
  value : Json
  scalar : value.IsScalar
  reads : ReadAs body value

/-- The characters of a word, a number or a string. -/
def Leaf.chars (l : Leaf) : List Char := l.before.chars ++ (l.body ++ l.after.chars)

/-- The name of a member with its colon, and the blanks before these two. -/
structure Label where
  before : Blanks
  /-- What stands between the quotation marks. -/
  body : List Char
  between : Blanks
  /-- The name that the body is read as. -/
  name : String
  reads : ∀ rest, Quoted.decode (body ++ '"' :: rest) = .ok (name, rest)

/-- The characters of a label. -/
def Label.chars (l : Label) : List Char :=
  l.before.chars ++ '"' :: (l.body ++ '"' :: (l.between.chars ++ [':']))

/-- A value as it is spelled, with the blanks before and after it, of values that are spelled by
    an `α`. There may be blanks after the bracket that opens an array or object, too. -/
inductive Node (α : Type)
  | leaf (l : Leaf)
  | array (before inside : Blanks) (items : List α) (after : Blanks)
  | object (before inside : Blanks) (members : List (Label × α)) (after : Blanks)

/-- Parts of a text with commas between them. -/
def commaSeparated (parts : List (List Char)) : List Char := [','].intercalate parts

namespace Node

variable {α : Type}

/-- The characters of a value, given those of the values inside it. -/
def chars (inner : α → List Char) : Node α → List Char
  | leaf l => l.chars
  | array before inside items after =>
    before.chars ++ '[' :: (inside.chars ++
      (commaSeparated (items.map inner) ++ ']' :: after.chars))
  | object before inside members after =>
    before.chars ++ '\x7b' :: (inside.chars ++
      (commaSeparated (members.map fun m => m.1.chars ++ inner m.2) ++ '\x7d' :: after.chars))

/-- The value that is spelled, given the values inside it. -/
def value (inner : α → Json) : Node α → Json
  | leaf l => l.value
  | array _ _ items _ => .ofItems (items.map inner)
  | object _ _ members _ => .ofMembers (members.map fun m => (m.1.name, inner m.2))

end Node

/-- A value as it is spelled, in which arrays and objects are nested at most `depth` deep. -/
def Spelling : (depth : ℕ) → Type
  | 0 => Leaf
  | depth + 1 => Node (Spelling depth)

namespace Spelling

/-- The characters of a spelled value. -/
def chars : {depth : ℕ} → Spelling depth → List Char
  | 0, l => Leaf.chars l
  | _ + 1, s => Node.chars chars s

/-- The value that is spelled. -/
def value : {depth : ℕ} → Spelling depth → Json
  | 0, l => Leaf.value l
  | _ + 1, s => Node.value value s

/-- A text that consists of a spelled value. -/
def text {depth : ℕ} (s : Spelling depth) : String := String.ofList s.chars

theorem fault?_value {depth : ℕ} (s : Spelling depth) : s.value.fault? = none := by
  cases depth with
  | zero => exact (Leaf.scalar s).fault?_eq_none
  | succ depth =>
    obtain l | _ | _ := (s : Node (Spelling depth))
    · exact l.scalar.fault?_eq_none
    · rfl
    · rfl

end Spelling

/-! ## Lengths -/

theorem commaSeparated_cons_cons (part next : List Char) (parts : List (List Char)) :
    commaSeparated (part :: next :: parts) = part ++ ',' :: commaSeparated (next :: parts) := by
  rw [commaSeparated, List.intercalate_cons_cons, List.append_assoc]
  rfl

@[simp] theorem commaSeparated_nil : commaSeparated [] = [] := rfl

@[simp] theorem commaSeparated_singleton (part : List Char) : commaSeparated [part] = part :=
  List.intercalate_singleton

/-- The first part stands in front, and what closes the list or goes on with it comes next. -/
theorem exists_commaSeparated_eq (close : Char)
    (hclose : close.isDigit = false ∧ close ≠ '.' ∧ close ≠ 'e' ∧ close ≠ 'E')
    (part : List Char) (parts : List (List Char)) (rest : List Char) :
    ∃ tail, EndsNumber tail ∧ commaSeparated (part :: parts) ++ close :: rest = part ++ tail := by
  cases parts with
  | nil => exact ⟨_, .cons hclose rest, by rw [commaSeparated_singleton]⟩
  | cons next parts =>
    refine ⟨',' :: (commaSeparated (next :: parts) ++ close :: rest), .cons (by decide) _, ?_⟩
    rw [commaSeparated_cons_cons, List.append_assoc, List.cons_append]

/-- There is a comma for every part but one. -/
theorem length_le_commaSeparated (parts : List (List Char)) :
    parts.length ≤ (commaSeparated parts).length + 1 := by
  induction parts with
  | nil => exact Nat.zero_le _
  | cons part parts ih =>
    cases parts with
    | nil => exact Nat.le_add_left _ _
    | cons next parts =>
      simp only [commaSeparated_cons_cons, List.length_append, List.length_cons] at ih ⊢
      omega

theorem length_le_commaSeparated_of_mem {part : List Char} {parts : List (List Char)}
    (h : part ∈ parts) : part.length ≤ (commaSeparated parts).length := by
  induction parts with
  | nil => cases h
  | cons first parts ih =>
    cases parts with
    | nil => rw [List.mem_singleton.1 h, commaSeparated_singleton]
    | cons next parts =>
      simp only [commaSeparated_cons_cons, List.length_append, List.length_cons]
      rcases List.mem_cons.1 h with rfl | h
      · omega
      · have := ih h
        omega

/-! ## Reading -/

variable {α : Type} {item : Reader} {room depth : ℕ}

/-- What is needed of a reader of items to tell them apart: blanks do not matter to it, and it
    does not take the bracket that closes the array for an item, or the end of the text. -/
structure Reader.Separates (item : Reader) : Prop where
  skips : ∀ cs, item (skipBlanks cs) = item cs
  ofNil : (item []).1.fault? ≠ none
  ofBracket : ∀ rest, (item (']' :: rest)).1.fault? ≠ none

theorem readValueWith_skipBlanks (inside : Option Reader) (cs : List Char) :
    readValueWith room inside (skipBlanks cs) = readValueWith room inside cs := by
  rw [readValueWith, readValueWith, skipBlanks_skipBlanks]

theorem exists_readValue_eq (room depth : ℕ) :
    ∃ inside, readValue room depth = readValueWith room inside := by
  cases depth with
  | zero => exact ⟨_, rfl⟩
  | succ depth => exact ⟨_, rfl⟩

theorem readValue_separates (room depth : ℕ) : (readValue room depth).Separates := by
  obtain ⟨inside, hinside⟩ := exists_readValue_eq room depth
  rw [hinside]
  exact ⟨fun cs => readValueWith_skipBlanks inside cs, nofun, fun rest => nofun⟩

/-- The reader reads what stands there as this value, up to blanks. -/
def Reader.Takes (item : Reader) (cs : List Char) (v : Json) : Prop :=
  ∀ rest, EndsNumber rest → ∃ after : Blanks, item (cs ++ rest) = (v, after.chars ++ rest)

section Items

variable {inner : α → List Char} {value : α → Json}

/-- An item that is whole begins with some character, but not with the bracket that closes the
    array. -/
theorem Reader.Takes.exists_skipBlanks_eq {cs rest : List Char} {v : Json}
    (htakes : item.Takes cs v) (hwhole : v.fault? = none) (hitem : item.Separates)
    (hrest : EndsNumber rest) :
    ∃ c tail, skipBlanks (cs ++ rest) = c :: tail ∧ c ≠ ']' := by
  obtain ⟨after, hread⟩ := htakes rest hrest
  rw [← hitem.skips] at hread
  have hfirst : (item (skipBlanks (cs ++ rest))).1.fault? = none := hread ▸ hwhole
  cases hbegin : skipBlanks (cs ++ rest) with
  | nil => exact absurd (hbegin ▸ hfirst) hitem.ofNil
  | cons c tail =>
    refine ⟨c, tail, rfl, ?_⟩
    rintro rfl
    exact absurd (hbegin ▸ hfirst) (hitem.ofBracket tail)

theorem readItems_skipBlanks (hitem : item.Separates) (cs : List Char) :
    readItems item (room + 1) (skipBlanks cs) = readItems item (room + 1) cs := by
  simp only [readItems, hitem.skips]

/-- The items of an array are read up to the bracket that closes it. -/
theorem readItems_commaSeparated (hitem : item.Separates) {a : α} {items : List α}
    (hwhole : ∀ b ∈ a :: items, (value b).fault? = none)
    (htakes : ∀ b ∈ a :: items, item.Takes (inner b) (value b)) (hroom : items.length < room)
    (rest : List Char) :
    readItems item room (commaSeparated ((a :: items).map inner) ++ ']' :: rest) =
      ((a :: items).map value, none, rest) := by
  obtain ⟨room, rfl⟩ := Nat.exists_eq_succ_of_ne_zero (Nat.ne_of_gt (Nat.zero_lt_of_lt hroom))
  induction items generalizing a room with
  | nil =>
    obtain ⟨after, hread⟩ := htakes a List.mem_cons_self (']' :: rest) (.cons (by decide) rest)
    simp only [List.map_cons, List.map_nil, commaSeparated_singleton, readItems, hread,
      hwhole a List.mem_cons_self, skipBlanks_append,
      skipBlanks_cons (show isBlank ']' = false from rfl)]
  | cons b items ih =>
    obtain ⟨room, rfl⟩ := Nat.exists_eq_succ_of_ne_zero
      (Nat.ne_of_gt (Nat.zero_lt_of_lt (Nat.lt_of_succ_lt_succ hroom)))
    have hwhole' := List.forall_mem_cons.1 hwhole
    have htakes' := List.forall_mem_cons.1 htakes
    obtain ⟨after, hread⟩ := htakes'.1
      (',' :: (commaSeparated ((b :: items).map inner) ++ ']' :: rest)) (.cons (by decide) _)
    have hrest := ih hwhole'.2 htakes'.2 room (Nat.lt_of_succ_lt_succ hroom)
    obtain ⟨tail, htail, heq⟩ := exists_commaSeparated_eq ']' (by decide) (inner b)
      (items.map inner) rest
    obtain ⟨c, cs, hbegin, hne⟩ := (htakes'.2 b List.mem_cons_self).exists_skipBlanks_eq
      (hwhole'.2 b List.mem_cons_self) hitem htail
    simp only [List.map_cons] at heq hread hrest ⊢
    rw [commaSeparated_cons_cons, List.append_assoc, List.cons_append, readItems]
    simp only [hread, hwhole'.1, skipBlanks_append,
      skipBlanks_cons (show isBlank ',' = false from rfl)]
    rw [← readItems_skipBlanks hitem] at hrest
    rw [heq, hbegin] at hrest ⊢
    split
    case h_1 h => exact absurd (List.cons.inj h).1 hne
    case h_2 => rw [hrest]

variable {inner : α → List Char} {value : α → Json}

/-- The items of an array are read up to the bracket that closes it. -/
theorem readArray_chars (hitem : item.Separates) (inside : Blanks) {items : List α}
    (hwhole : ∀ a ∈ items, (value a).fault? = none)
    (htakes : ∀ a ∈ items, item.Takes (inner a) (value a)) (hroom : items.length ≤ room)
    (rest : List Char) :
    readArray room item (inside.chars ++ (commaSeparated (items.map inner) ++ ']' :: rest)) =
      (.ofItems (items.map value), rest) := by
  rw [readArray, skipBlanks_append]
  cases items with
  | nil =>
    rw [List.map_nil, commaSeparated_nil, List.nil_append, skipBlanks_cons (by decide)]
    rfl
  | cons a items =>
    obtain ⟨tail, htail, heq⟩ := exists_commaSeparated_eq ']' (by decide) (inner a)
      (items.map inner) rest
    obtain ⟨c, cs, hbegin, hne⟩ := (htakes a List.mem_cons_self).exists_skipBlanks_eq
      (hwhole a List.mem_cons_self) hitem htail
    obtain ⟨room, rfl⟩ := Nat.exists_eq_succ_of_ne_zero (Nat.ne_of_gt (Nat.zero_lt_of_lt hroom))
    have hitems := readItems_commaSeparated hitem hwhole htakes hroom rest
    rw [← readItems_skipBlanks hitem] at hitems
    rw [List.map_cons] at hitems ⊢
    rw [heq, hbegin] at hitems ⊢
    split
    case h_1 h => cases h
    case h_2 h => exact absurd (List.cons.inj h).1 hne
    case h_3 =>
      rw [hitems]
      rfl

theorem Label.skipBlanks_chars (l : Label) (cs : List Char) :
    skipBlanks (l.chars ++ cs) = '"' :: (l.body ++ '"' :: (l.between.chars ++ ':' :: cs)) := by
  simp only [Label.chars, List.append_assoc, List.cons_append, List.nil_append, skipBlanks_append,
    skipBlanks_cons (show isBlank '"' = false from rfl)]

theorem readMemberValue_colon (between : Blanks) (cs : List Char) :
    readMemberValue item (between.chars ++ ':' :: cs) = item cs := by
  rw [readMemberValue, skipBlanks_append, skipBlanks_cons (by decide)]
  rfl

/-- The members of an object are read up to the brace that closes it. -/
theorem readMembers_commaSeparated {m : Label × α} {members : List (Label × α)}
    (hwhole : ∀ n ∈ m :: members, (value n.2).fault? = none)
    (htakes : ∀ n ∈ m :: members, item.Takes (inner n.2) (value n.2))
    (hroom : members.length < room) (rest : List Char) :
    readMembers item room (skipBlanks (commaSeparated ((m :: members).map fun n =>
        n.1.chars ++ inner n.2) ++ '\x7d' :: rest)) =
      ((m :: members).map fun n => (n.1.name, value n.2), none, rest) := by
  induction members generalizing m room with
  | nil =>
    obtain ⟨room, rfl⟩ := Nat.exists_eq_succ_of_ne_zero (Nat.ne_of_gt hroom)
    obtain ⟨after, hread⟩ :=
      htakes m List.mem_cons_self ('\x7d' :: rest) (.cons (by decide) rest)
    simp only [List.map_cons, List.map_nil, commaSeparated_singleton, List.append_assoc,
      Label.skipBlanks_chars, readMembers, m.1.reads, readMemberValue_colon, hread,
      hwhole m List.mem_cons_self, skipBlanks_append,
      skipBlanks_cons (show isBlank '\x7d' = false from rfl)]
  | cons n members ih =>
    obtain ⟨room, rfl⟩ := Nat.exists_eq_succ_of_ne_zero (Nat.ne_of_gt (Nat.zero_lt_of_lt hroom))
    have hwhole' := List.forall_mem_cons.1 hwhole
    have htakes' := List.forall_mem_cons.1 htakes
    have hrest := ih hwhole'.2 htakes'.2 (Nat.lt_of_succ_lt_succ hroom)
    obtain ⟨after, hread⟩ := htakes'.1 (',' :: (commaSeparated ((n :: members).map fun n =>
      n.1.chars ++ inner n.2) ++ '\x7d' :: rest)) (.cons (by decide) _)
    simp only [List.map_cons] at hread hrest ⊢
    simp only [commaSeparated_cons_cons, List.append_assoc, List.cons_append,
      Label.skipBlanks_chars, readMembers, m.1.reads, readMemberValue_colon, hread,
      hwhole'.1, skipBlanks_append, skipBlanks_cons (show isBlank ',' = false from rfl)]
    rw [hrest]

theorem readObject_chars (inside : Blanks) {members : List (Label × α)}
    (hwhole : ∀ m ∈ members, (value m.2).fault? = none)
    (htakes : ∀ m ∈ members, item.Takes (inner m.2) (value m.2)) (hroom : members.length ≤ room)
    (rest : List Char) :
    readObject room item (inside.chars ++ (commaSeparated (members.map fun m =>
        m.1.chars ++ inner m.2) ++ '\x7d' :: rest)) =
      (.ofMembers (members.map fun m => (m.1.name, value m.2)), rest) := by
  rw [readObject, skipBlanks_append]
  cases members with
  | nil =>
    rw [List.map_nil, commaSeparated_nil, List.nil_append, skipBlanks_cons (by decide)]
    rfl
  | cons m members =>
    have hmembers := readMembers_commaSeparated hwhole htakes hroom rest
    obtain ⟨tail, -, heq⟩ := exists_commaSeparated_eq '\x7d' (by decide)
      (m.1.chars ++ inner m.2) (members.map fun n => n.1.chars ++ inner n.2) rest
    rw [List.map_cons, heq, List.append_assoc, Label.skipBlanks_chars] at hmembers ⊢
    split
    case h_1 h => cases h
    case h_2 h => exact absurd (List.cons.inj h).1 (by decide)
    case h_3 =>
      rw [hmembers]
      rfl

end Items

/-! ## Spelled values are read -/

theorem readValueWith_blanks (inside : Option Reader) (before : Blanks) (cs : List Char) :
    readValueWith room inside (before.chars ++ cs) = readValueWith room inside cs := by
  rw [← readValueWith_skipBlanks, skipBlanks_append, readValueWith_skipBlanks]

theorem Leaf.exists_readValueWith (l : Leaf) (inside : Option Reader) {rest : List Char}
    (hrest : EndsNumber rest) :
    ∃ after : Blanks,
      readValueWith room inside (l.chars ++ rest) = (l.value, after.chars ++ rest) := by
  refine ⟨l.after, ?_⟩
  rw [Leaf.chars, List.append_assoc, readValueWith_blanks, List.append_assoc]
  exact l.reads room inside _ (hrest.blanks l.after)

/-- A spelled value is read if the values inside it are, by a reader that goes less deep. -/
theorem Node.takes {inner : α → List Char} {value : α → Json} (hitem : item.Separates)
    (hwhole : ∀ a, (value a).fault? = none)
    (htakes : ∀ a, (inner a).length ≤ room → item.Takes (inner a) (value a)) (s : Node α)
    (hroom : (s.chars inner).length ≤ room) :
    (readValueWith room (some item)).Takes (s.chars inner) (s.value value) := by
  intro rest hrest
  cases s with
  | leaf l => exact l.exists_readValueWith (some item) hrest
  | array before inside items after =>
    simp only [chars, List.length_append, List.length_cons] at hroom
    have hcount := length_le_commaSeparated (items.map inner)
    rw [List.length_map] at hcount
    have hread := readArray_chars hitem inside (fun a _ => hwhole a)
      (fun a ha => htakes a ?_) (show items.length ≤ room by omega) (after.chars ++ rest)
    · refine ⟨after, ?_⟩
      rw [chars, List.append_assoc, readValueWith_blanks]
      simp only [List.append_assoc, List.cons_append]
      rw [readValueWith, skipBlanks_cons (by decide)]
      exact hread
    · have := length_le_commaSeparated_of_mem (List.mem_map_of_mem (f := inner) ha)
      omega
  | object before inside members after =>
    simp only [chars, List.length_append, List.length_cons] at hroom
    have hcount := length_le_commaSeparated (members.map fun m => m.1.chars ++ inner m.2)
    rw [List.length_map] at hcount
    have hread := readObject_chars inside (fun m _ => hwhole m.2)
      (fun m hm => htakes m.2 ?_) (show members.length ≤ room by omega) (after.chars ++ rest)
    · refine ⟨after, ?_⟩
      rw [chars, List.append_assoc, readValueWith_blanks]
      simp only [List.append_assoc, List.cons_append]
      rw [readValueWith, skipBlanks_cons (by decide)]
      exact hread
    · have := length_le_commaSeparated_of_mem
        (List.mem_map_of_mem (f := fun m : Label × α => m.1.chars ++ inner m.2) hm)
      rw [List.length_append] at this
      omega

namespace Spelling

/-- A spelled value is read as what it is, up to the blanks after it. -/
theorem takes (s : Spelling depth) (hroom : s.chars.length ≤ room) :
    (readValue room depth).Takes s.chars s.value := by
  induction depth with
  | zero => exact fun rest hrest => Leaf.exists_readValueWith s none hrest
  | succ depth ih =>
    exact Node.takes (readValue_separates room depth) fault?_value (fun s h => ih s h) s hroom

/-- A text that consists of a spelled value is a document of it. -/
theorem ofString_text (s : Spelling maxDepth) : Document.ofString s.text = ⟨s.value, false⟩ := by
  obtain ⟨after, hread⟩ := s.takes (Nat.le_refl _) [] nofun
  rw [List.append_nil] at hread
  have hblank : skipBlanks after.chars = [] := by
    rw [← List.append_nil after.chars, skipBlanks_append]
    rfl
  rw [Document.ofString, text, String.toList_ofList, hread, List.append_nil]
  simp only [hblank]
  rfl

/-- A text that consists of a spelled value is decoded as this value is. -/
theorem decodeText_text {β : Type} (read : Json → Decoded β) (s : Spelling maxDepth) :
    decodeText read s.text = read s.value := by
  rw [decodeText, s.ofString_text, s.fault?_value]
  cases read s.value <;> rfl

end Spelling

end NeighborSearch.Json
