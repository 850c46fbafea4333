import NeighborSearch.Json.Write
import NeighborSearch.Proofs.Json.Quoted
import NeighborSearch.Proofs.Json.Spelling

/-!
# What is written is read back

The text of a value, in whichever layout, spells that value (`Plain.exists_text`), so it is
read back as this value. This holds of the values that are written without loss (`Plain`): they
are not cut off, their numbers are integers of 64 bits or stand as they are read, and they are
nested no deeper than the reader goes. So the text of such a value is decoded as the value is
(`decodeText_chars`).
-/

namespace NeighborSearch.Json

variable {depth : ℕ} {v : Json} {layout : Layout}

/-! ## Blanks of a layout -/

/-- What stands before an item, and before a closing bracket. -/
def Layout.blanks (layout : Layout) : Blanks where
  chars := layout.lineBreak
  blank c h := by
    cases layout with
    | oneLine => cases h
    | lines depth =>
      rcases List.mem_cons.1 h with rfl | h
      · rfl
      · rw [(List.mem_replicate.1 h).2]
        rfl

/-- Between the name of a member and its value there is a colon with blanks. -/
theorem Layout.exists_colon (layout : Layout) :
    ∃ blanks : Blanks, layout.deeper.colon = ':' :: blanks.chars := by
  cases layout with
  | oneLine => exact ⟨.none, rfl⟩
  | lines depth => exact ⟨⟨[' '], List.forall_mem_singleton.2 rfl⟩, rfl⟩

theorem Layout.colon_deeper (layout : Layout) : layout.deeper.colon = layout.colon := by
  cases layout <;> rfl

/-! ## Words, numbers and strings -/

theorem isBlank_of_isDigit {c : Char} (h : c.isDigit = true) : isBlank c = false := by
  by_contra hblank
  simp only [isBlank, Bool.not_eq_false, Bool.or_eq_true, decide_eq_true_eq] at hblank
  rcases hblank with ((rfl | rfl) | rfl) | rfl <;> exact absurd h (by decide)

/-- What begins with a digit is read as a number. -/
theorem readValueWith_of_isDigit {room : ℕ} {inside : Option Reader} {c : Char}
    (hc : c.isDigit = true) (cs : List Char) :
    readValueWith room inside (c :: cs) = orCut (Number.read false (c :: cs)) := by
  rw [readValueWith, skipBlanks_cons (isBlank_of_isDigit hc)]
  split
  case h_1 heq => cases heq
  case h_9 heq =>
    obtain ⟨rfl, rfl⟩ := List.cons.inj heq
    exact if_pos hc
  all_goals
    rename_i heq
    obtain ⟨rfl, -⟩ := List.cons.inj heq
    exact absurd hc (by decide)

theorem exists_toDigits_eq_cons (n : ℕ) :
    ∃ c cs, Nat.toDigits 10 n = c :: cs ∧ c.isDigit = true := by
  obtain ⟨c, cs, hcs⟩ := List.exists_cons_of_ne_nil
    (List.length_pos_iff.1 (Nat.length_toDigits_pos (b := 10) (n := n)))
  have hmem : c ∈ Nat.toDigits 10 n := hcs ▸ List.mem_cons_self
  exact ⟨c, cs, hcs, Nat.isDigit_of_mem_toDigits (by decide) (by decide) hmem⟩

theorem readAs_null : ReadAs ((Json.null).chars layout) .null := by
  intro room inside rest _
  rw [chars]
  rfl

theorem readAs_bool (b : Bool) : ReadAs ((Json.bool b).chars layout) (.bool b) := by
  intro room inside rest _
  cases b <;> rw [chars] <;> rfl

theorem readAs_int {n : Int} (hlow : -0x8000000000000000 ≤ n) (hhigh : n < 0x10000000000000000) :
    ReadAs ((Json.int n).chars layout) (.int n) := by
  intro room inside rest hrest
  rw [chars]
  cases n with
  | ofNat n =>
    have hlimit : n < Number.significandLimit := Int.ofNat_lt.1 hhigh
    have hvalue : Number.integer? false n = some (n : Int) := by
      rw [Number.integer?, if_neg Bool.false_ne_true, if_pos hlimit]
    have hread := Number.read_toDigits hvalue hrest
    obtain ⟨c, cs, hcs, hc⟩ := exists_toDigits_eq_cons n
    rw [intChars, hcs, List.cons_append, readValueWith_of_isDigit hc, ← List.cons_append, ← hcs,
      hread]
    rfl
  | negSucc n =>
    have hvalue : Number.integer? true (n + 1) = some (.negSucc n) := by
      rw [Number.integer?, if_pos rfl, if_pos (by omega)]
      rfl
    have hread := Number.read_toDigits hvalue hrest
    rw [intChars, List.cons_append, readValueWith, skipBlanks_cons (by decide)]
    change orCut (Number.read true (Nat.toDigits 10 (n + 1) ++ rest)) = _
    rw [hread]
    rfl

theorem readAs_string (s : String) : ReadAs ((Json.string s).chars layout) (.string s) := by
  intro room inside rest _
  rw [chars, Quoted.encode, List.append_assoc, List.cons_append, readValueWith,
    skipBlanks_cons (by decide)]
  change orCut ((Quoted.decode (s.toList.flatMap Quoted.encodeChar ++ '"' :: rest)).map _) = _
  rw [Quoted.decode_encode]
  rfl

/-! ## Values -/

/-- A value that is written without loss: it is whole, its numbers are integers of 64 bits or
    written as they are read, and its arrays and objects are nested at most `depth` deep. -/
inductive Plain : (depth : ℕ) → Json → Prop
  | null {depth : ℕ} : Plain depth .null
  | bool {depth : ℕ} (b : Bool) : Plain depth (.bool b)
  | int {depth : ℕ} (n : Int) (hlow : -0x8000000000000000 ≤ n) (hhigh : n < 0x10000000000000000) :
      Plain depth (.int n)
  | real {depth : ℕ} {text : String} (h : ReadAs text.toList (.real text)) :
      Plain depth (.real text)
  | string {depth : ℕ} (s : String) : Plain depth (.string s)
  | array {depth : ℕ} {items : List Json} (h : ∀ v ∈ items, Plain depth v) :
      Plain (depth + 1) (.ofItems items)
  | object {depth : ℕ} {members : List (String × Json)} (h : ∀ m ∈ members, Plain depth m.2) :
      Plain (depth + 1) (.ofMembers members)

theorem Plain.fault?_eq_none (h : Plain depth v) : v.fault? = none := by
  cases h <;> rfl

theorem Plain.ofNat {n : ℕ} (h : n < 0x10000000000000000) : Plain depth (.ofNat n) :=
  .int _ (by omega) (by omega)

/-! ## Spellings of values -/

/-- A label with the text of a name. -/
def Label.ofName (before : Blanks) (name : String) : Label where
  before := before
  body := name.toList.flatMap Quoted.encodeChar
  between := .none
  name := name
  reads := Quoted.decode_encode name

/-- The value is spelled by its text, with any blanks before and after it. -/
def Spelled (depth : ℕ) (layout : Layout) (v : Json) : Prop :=
  ∀ before after : Blanks, ∃ s : Spelling depth,
    s.chars = before.chars ++ (v.chars layout ++ after.chars) ∧ s.value = v

theorem ReadAs.spelled (h : ReadAs (v.chars layout) v) (hscalar : v.IsScalar) :
    Spelled depth layout v := by
  intro before after
  cases depth with
  | zero => exact ⟨(⟨before, _, after, v, hscalar, h⟩ : Leaf), rfl, rfl⟩
  | succ depth => exact ⟨Node.leaf ⟨before, _, after, v, hscalar, h⟩, rfl, rfl⟩

/-- The items of an array are spelled with a line break before each, and blanks after the last
    one. -/
theorem exists_items {vs : List Json} (h : ∀ w ∈ v :: vs, Spelled depth layout w)
    (after : Blanks) :
    ∃ items : List (Spelling depth), items.map Spelling.value = v :: vs ∧
      commaSeparated (items.map Spelling.chars) =
        layout.lineBreak ++ (v.chars layout ++ (itemChars layout vs ++ after.chars)) := by
  induction vs generalizing v with
  | nil =>
    obtain ⟨s, hchars, hvalue⟩ := h v List.mem_cons_self layout.blanks after
    refine ⟨[s], by rw [List.map_singleton, hvalue], ?_⟩
    rw [List.map_singleton, commaSeparated_singleton, hchars, itemChars]
    rfl
  | cons w vs ih =>
    obtain ⟨hv, hvs⟩ := List.forall_mem_cons.1 h
    obtain ⟨s, hchars, hvalue⟩ := hv layout.blanks .none
    obtain ⟨_ | ⟨t, items⟩, hvalues, hrest⟩ := ih hvs
    · cases hvalues
    refine ⟨s :: t :: items, by rw [List.map_cons, hvalue, hvalues], ?_⟩
    rw [List.map_cons] at hrest
    rw [List.map_cons, List.map_cons, commaSeparated_cons_cons, hrest, hchars, itemChars]
    simp [Layout.blanks]

/-- The members of an object are spelled with a line break before each, and blanks after the
    last one. -/
theorem exists_members {name : String} {ms : List (String × Json)}
    (h : ∀ m ∈ (name, v) :: ms, Spelled depth layout.deeper m.2) (after : Blanks) :
    ∃ members : List (Label × Spelling depth),
      (members.map fun m => (m.1.name, m.2.value)) = (name, v) :: ms ∧
      commaSeparated (members.map fun m => m.1.chars ++ m.2.chars) =
        layout.deeper.lineBreak ++ (Quoted.encode name ++ (layout.deeper.colon ++
          (v.chars layout.deeper ++ (memberChars layout.deeper ms ++ after.chars)))) := by
  obtain ⟨blanks, hcolon⟩ := layout.exists_colon
  let label := Label.ofName layout.deeper.blanks
  induction ms generalizing name v with
  | nil =>
    obtain ⟨s, hchars, hvalue⟩ := h (name, v) List.mem_cons_self blanks after
    refine ⟨[(label name, s)], by rw [List.map_singleton, hvalue]; rfl, ?_⟩
    rw [List.map_singleton, commaSeparated_singleton, hchars, memberChars, hcolon]
    simp [label, Label.ofName, Label.chars, Layout.blanks, Quoted.encode]
  | cons m ms ih =>
    obtain ⟨hv, hms⟩ := List.forall_mem_cons.1 h
    obtain ⟨s, hchars, hvalue⟩ := hv blanks .none
    obtain ⟨_ | ⟨t, members⟩, hvalues, hrest⟩ := ih hms
    · cases hvalues
    refine ⟨(label name, s) :: t :: members, by rw [List.map_cons, hvalue, hvalues]; rfl, ?_⟩
    rw [List.map_cons] at hrest
    rw [List.map_cons, List.map_cons, commaSeparated_cons_cons, hrest, hchars, memberChars, hcolon]
    simp [label, Label.ofName, Label.chars, Layout.blanks, Quoted.encode]

/-- What is written without loss is spelled by its text. -/
theorem Plain.spelled (h : Plain depth v) (layout : Layout) : Spelled depth layout v := by
  induction h generalizing layout with
  | null => exact readAs_null.spelled trivial
  | bool b => exact (readAs_bool b).spelled trivial
  | int n hlow hhigh => exact (readAs_int hlow hhigh).spelled trivial
  | real h => exact (show ReadAs ((Json.real _).chars layout) _ by rwa [chars]).spelled trivial
  | string s => exact (readAs_string s).spelled trivial
  | @array depth items h ih =>
    intro before after
    cases items with
    | nil => exact ⟨Node.array before .none [] after, by rw [ofItems, chars]; rfl, rfl⟩
    | cons v vs =>
      obtain ⟨items, hvalues, hchars⟩ := exists_items (fun w hw => ih w hw layout.deeper)
        layout.blanks
      refine ⟨Node.array before .none items after, ?_, congrArg Json.ofItems hvalues⟩
      change Node.chars Spelling.chars _ = _
      rw [Node.chars, hchars, ofItems, chars]
      simp [Layout.blanks]
  | @object depth members h ih =>
    intro before after
    rcases members with _ | ⟨⟨name, v⟩, ms⟩
    · exact ⟨Node.object before .none [] after, by rw [ofMembers, chars]; rfl, rfl⟩
    · obtain ⟨members, hvalues, hchars⟩ := exists_members (fun m hm => ih m hm layout.deeper)
        layout.blanks
      refine ⟨Node.object before .none members after, ?_, congrArg Json.ofMembers hvalues⟩
      change Node.chars Spelling.chars _ = _
      rw [Node.chars, hchars, ofMembers, chars, Layout.colon_deeper]
      simp [Layout.blanks]

/-! ## Documents -/

/-- The text of a value spells this value, and nothing else stands there. -/
theorem Plain.exists_text (h : Plain depth v) (layout : Layout) :
    ∃ s : Spelling depth, s.text = String.ofList (v.chars layout) ∧ s.value = v := by
  obtain ⟨s, hchars, hvalue⟩ := h.spelled layout .none .none
  refine ⟨s, congrArg String.ofList ?_, hvalue⟩
  rw [hchars, Blanks.chars_none, List.nil_append, List.append_nil]

/-- The text of a value holds that value and nothing else. -/
theorem ofString_chars (h : Plain maxDepth v) (layout : Layout) :
    Document.ofString (String.ofList (v.chars layout)) = ⟨v, false⟩ := by
  obtain ⟨s, htext, rfl⟩ := h.exists_text layout
  rw [← htext]
  exact s.ofString_text

/-- The text of a value is decoded as the value is. -/
theorem decodeText_chars {α : Type} (read : Json → Decoded α) (h : Plain maxDepth v)
    (layout : Layout) : decodeText read (String.ofList (v.chars layout)) = read v := by
  obtain ⟨s, htext, rfl⟩ := h.exists_text layout
  rw [← htext]
  exact s.decodeText_text read

end NeighborSearch.Json
