/-!
# Names bound to things

A list of bindings holds at most one thing for every name, the one bound last.
-/

namespace NeighborSearch

/-- Names with what they are bound to. -/
abbrev Bindings (α : Type) := List (String × α)

namespace Bindings

variable {α : Type}

/-- What the name is bound to. -/
def get? (b : Bindings α) (name : String) : Option α := b.lookup name

/-- Take the name out. -/
def erase (b : Bindings α) (name : String) : Bindings α := b.filter fun p => p.1 != name

/-- Bind the name, instead of what it has been bound to. -/
def put (b : Bindings α) (name : String) (a : α) : Bindings α := (name, a) :: b.erase name

@[simp] theorem get?_put_self (b : Bindings α) (name : String) (a : α) :
    (b.put name a).get? name = some a := by
  simp [get?, put]

theorem get?_erase_self (b : Bindings α) (name : String) : (b.erase name).get? name = none := by
  induction b with
  | nil => rfl
  | cons p b ih =>
    obtain ⟨key, a⟩ := p
    simp only [erase, get?, List.filter_cons] at ih ⊢
    by_cases h : key = name
    · simp [h, ih]
    · have hb : (name == key) = false := by simpa using fun e => h e.symm
      simp [h, List.lookup_cons, hb, ih]

theorem get?_erase_of_ne {name other : String} (h : other ≠ name) (b : Bindings α) :
    (b.erase name).get? other = b.get? other := by
  induction b with
  | nil => rfl
  | cons p b ih =>
    obtain ⟨key, a⟩ := p
    simp only [erase, get?, List.filter_cons] at ih ⊢
    by_cases hk : key = name
    · have hb : (other == name) = false := by simpa using h
      simp [hk, List.lookup_cons, hb, ih]
    · simp [hk, List.lookup_cons, ih]

theorem get?_put_of_ne {name other : String} (h : other ≠ name) (b : Bindings α) (a : α) :
    (b.put name a).get? other = b.get? other := by
  have hb : (other == name) = false := by simpa using h
  rw [← get?_erase_of_ne h b]
  simp [get?, put, List.lookup_cons, hb]

end Bindings

end NeighborSearch
