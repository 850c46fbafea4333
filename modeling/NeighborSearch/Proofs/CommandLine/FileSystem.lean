import NeighborSearch.CommandLine.FileSystem
import NeighborSearch.Proofs.Outcome

/-!
# What is written can be read

A text that is written to a file is read back along the same path (`FileSystem.read_of_write`),
and whatever else there is remains as it was (`FileSystem.get?_put_of_ne`). To put a file
somewhere leaves all directories where they are, so that paths lead where they led before
(`FileSystem.follow_put`).
-/

namespace NeighborSearch

/-- The bytes of a text are a text. -/
theorem fromUTF8?_toUTF8 (text : String) : String.fromUTF8? text.toUTF8 = some text := by
  rw [String.fromUTF8?, String.toUTF8_eq_toByteArray, dif_pos text.isValidUTF8]
  rfl

namespace FileSystem

variable {s s' : FileSystem} {p q here : Place} {bytes : ByteArray} {names : List String}

/-- The file is there. -/
@[simp] theorem get?_put_self (h : s.Admits p) : (s.put p bytes h).get? p = some (.file bytes) :=
  if_pos rfl

/-- Whatever else there is, is as it was. -/
theorem get?_put_of_ne (h : s.Admits p) (hne : q ≠ p) : (s.put p bytes h).get? q = s.get? q :=
  if_neg hne

theorem enter_eq_ok_iff : s.enter p = .ok () ↔ s.get? p = some .directory := by
  rw [enter]
  match s.get? p with
  | none | some (.file _) => exact ⟨nofun, nofun⟩
  | some .directory => exact ⟨fun _ => rfl, fun _ => rfl⟩

/-- What is put somewhere takes the place of no directory. -/
theorem get?_put_directory (h : s.Admits p) (hq : s.get? q = some .directory) :
    (s.put p bytes h).get? q = some .directory := by
  rw [get?_put_of_ne h, hq]
  rintro rfl
  rw [Admits, isDirectory_eq_true_iff.2 hq] at h
  exact absurd h.2 (by decide)

/-- A path leads where it led before. -/
theorem follow_put (h : s.Admits p) (hq : s.follow here names = .ok q) :
    (s.put p bytes h).follow here names = .ok q := by
  induction names generalizing here with
  | nil => exact hq
  | cons name names ih =>
    rw [follow] at hq ⊢
    obtain ⟨_, henter, hq⟩ := bind_eq_ok_iff.1 hq
    obtain ⟨_, hname, hq⟩ := bind_eq_ok_iff.1 hq
    rw [enter_eq_ok_iff.2 (get?_put_directory h (enter_eq_ok_iff.1 henter)), ok_bind, hname,
      ok_bind]
    exact ih hq

/-- The last name is looked up in the directory that the others lead to. -/
theorem follow_concat (here : Place) (names : List String) (name : String) :
    s.follow here (names ++ [name]) = (do
      let p ← s.follow here names
      s.enter p
      Place.checkName name
      return p.step name) := by
  induction names generalizing here with
  | nil => rfl
  | cons first names ih => simp only [List.cons_append, follow, ih, bind_assoc]

/-- A text is written to the file that the path leads to. -/
theorem exists_of_write {path text : String} (hwrite : s.write path text = .ok s') :
    ∃ p, ∃ h : s.Admits p, s' = s.put p text.toUTF8 h ∧ s.resolve path = .ok p := by
  simp only [write, bind_eq_ok_iff] at hwrite
  obtain ⟨_, -, above, hfollow, _, henter, hwrite⟩ := hwrite
  split at hwrite
  case isTrue => cases hwrite
  case isFalse hslash =>
    obtain ⟨_, hname, hwrite⟩ := bind_eq_ok_iff.1 hwrite
    split at hwrite
    case isFalse => cases hwrite
    case isTrue h =>
      obtain rfl := Except.ok.inj hwrite
      refine ⟨_, h, rfl, ?_⟩
      rw [resolve, ← not_not.1 hslash]
      generalize Place.trimmedNames path = names at *
      rcases List.eq_nil_or_concat names with rfl | ⟨front, last, rfl⟩
      · -- Without any name the path leads to the directory in which it begins.
        obtain rfl := Except.ok.inj hfollow
        have hstays : (Place.start s.current path).step "" = Place.start s.current path :=
          if_pos (.inl rfl)
        exact absurd (isDirectory_eq_true_iff.2 (enter_eq_ok_iff.1 henter))
          (Bool.eq_false_iff.1 (hstays ▸ h.2))
      · rw [List.concat_eq_append] at *
        rw [List.dropLast_concat] at hfollow
        rw [List.getLast?_concat, Option.getD_some] at *
        rw [follow_concat, hfollow, ok_bind, henter, ok_bind, hname]
        rfl

/-- What is written is read back. -/
theorem read_of_write {path text : String} (hwrite : s.write path text = .ok s') :
    s'.read path = .ok text := by
  obtain ⟨_, hpath, -⟩ := bind_eq_ok_iff.1 hwrite
  obtain ⟨p, h, rfl, hresolve⟩ := exists_of_write hwrite
  have hresolve' : (s.put p text.toUTF8 h).resolve path = .ok p := follow_put h hresolve
  rw [read, hpath, ok_bind, hresolve', ok_bind, get?_put_self]
  simp only [fromUTF8?_toUTF8]
  rfl

end FileSystem

end NeighborSearch
