import NeighborSearch.Bindings

/-!
# Looking up names

What a name is bound to after one change, whichever name was changed.
-/

namespace NeighborSearch.Bindings

variable {α : Type} {b : Bindings α} {name other : String}

theorem get?_put (b : Bindings α) (name other : String) (a : α) :
    (b.put name a).get? other = if other = name then some a else b.get? other := by
  split
  case isTrue h => rw [h, get?_put_self]
  case isFalse h => rw [get?_put_of_ne h]

/-- What holds of everything bound and of a new value holds of everything bound then. -/
theorem forall_get?_put {P : α → Prop} {a : α} (h : ∀ other x, b.get? other = some x → P x)
    (ha : P a) : ∀ other x, (b.put name a).get? other = some x → P x := by
  intro other x hx
  rw [get?_put] at hx
  split at hx
  case isTrue => exact Option.some.inj hx ▸ ha
  case isFalse => exact h other x hx

theorem get?_erase (b : Bindings α) (name other : String) :
    (b.erase name).get? other = if other = name then none else b.get? other := by
  split
  case isTrue h => rw [h, get?_erase_self]
  case isFalse h => rw [get?_erase_of_ne h]

/-- What is bound after a name was erased was bound before, to another name. -/
theorem get?_erase_eq_some_iff {a : α} :
    (b.erase name).get? other = some a ↔ other ≠ name ∧ b.get? other = some a := by
  rw [get?_erase]
  split
  case isTrue h => exact ⟨fun hnone => absurd hnone (by simp), fun hboth => absurd h hboth.1⟩
  case isFalse h => exact (and_iff_right h).symm

/-- The same change keeps names that are bound alike. -/
theorem get?_put_congr {b' : Bindings α} {P : String → Prop}
    (h : ∀ other, P other → b.get? other = b'.get? other) (name : String) (a : α) :
    ∀ other, P other → (b.put name a).get? other = (b'.put name a).get? other := by
  intro other hother
  rw [get?_put, get?_put, h other hother]

theorem get?_erase_congr {b' : Bindings α} {P : String → Prop}
    (h : ∀ other, P other → b.get? other = b'.get? other) (name : String) :
    ∀ other, P other → (b.erase name).get? other = (b'.erase name).get? other := by
  intro other hother
  rw [get?_erase, get?_erase, h other hother]

/-- What is bound is an entry. -/
theorem mem_of_get?_eq_some {a : α} (h : b.get? name = some a) : (name, a) ∈ b := by
  induction b with
  | nil => exact absurd h (by simp [get?])
  | cons p b ih =>
    obtain ⟨key, x⟩ := p
    rw [get?, List.lookup_cons] at h
    by_cases hkey : name = key
    · subst hkey
      simp only [beq_self_eq_true, Option.some.injEq] at h
      exact h ▸ List.mem_cons_self
    · rw [beq_eq_false_iff_ne.2 hkey] at h
      exact List.mem_cons_of_mem _ (ih h)

end NeighborSearch.Bindings
