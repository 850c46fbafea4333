import Mathlib.Data.List.Forall2
import Mathlib.Data.Nat.Notation

/-!
# Computations that may fail

A computation has a result or fails with an error. Of several that are done one after the other
all have a result (`mapM_eq_ok_iff`), or the first one that fails tells the error
(`mapM_eq_error_iff`). Two of them are *alike* (`Alike`) when they have the same result, or both
have none, whatever they fail with; they *match* (`Matches`) when their results are related, or
both fail with the same error.
-/

namespace NeighborSearch

variable {ε α β σ : Type}

theorem ok_bind (a : α) (f : α → Except ε β) : (Except.ok a >>= f) = f a := rfl

/-- What has a result has passed through a first part. -/
theorem bind_eq_ok_iff {x : Except ε α} {f : α → Except ε β} {b : β} :
    (x >>= f) = .ok b ↔ ∃ a, x = .ok a ∧ f a = .ok b := by
  cases x with
  | error e =>
    constructor
    · rintro ⟨⟩
    · rintro ⟨a, ⟨⟩, -⟩
  | ok a =>
    constructor
    · intro h
      exact ⟨a, rfl, h⟩
    · rintro ⟨a', ha, h⟩
      rw [Except.ok.inj ha]
      exact h

/-- What fails has failed in a first part, or after it. -/
theorem bind_eq_error_iff {x : Except ε α} {f : α → Except ε β} {e : ε} :
    (x >>= f) = .error e ↔ x = .error e ∨ ∃ a, x = .ok a ∧ f a = .error e := by
  cases x with
  | error e' =>
    constructor
    · intro h
      exact .inl (congrArg Except.error (Except.error.inj h))
    · rintro (h | ⟨a, ⟨⟩, -⟩)
      exact congrArg Except.error (Except.error.inj h)
  | ok a =>
    constructor
    · intro h
      exact .inr ⟨a, rfl, h⟩
    · rintro (h | ⟨a', ha, h⟩)
      · cases h
      · rw [Except.ok.inj ha]
        exact h

theorem functor_map_eq_ok_iff {x : Except ε α} {f : α → β} {b : β} :
    f <$> x = .ok b ↔ ∃ a, x = .ok a ∧ f a = b := by
  cases x <;> simp

theorem map_eq_ok_iff {x : Except ε α} {f : α → β} {b : β} :
    x.map f = .ok b ↔ ∃ a, x = .ok a ∧ f a = b := by
  cases x <;> simp [Except.map]

theorem map_eq_error_iff {x : Except ε α} {f : α → β} {e : ε} :
    x.map f = .error e ↔ x = .error e := by
  cases x <;> simp [Except.map]

/-- What is checked has a result if the check holds. -/
theorem ite_eq_ok_iff {p : Prop} [Decidable p] {a b : α} {e : ε} :
    (if p then Except.ok a else Except.error e) = .ok b ↔ p ∧ a = b := by
  split
  case isTrue h => simp [h]
  case isFalse h => simp [h]

/-- Whatever is computed one after the other has results exactly if each of it has one. -/
theorem mapM_eq_ok_iff {f : α → Except ε β} {as : List α} {bs : List β} :
    as.mapM f = .ok bs ↔ List.Forall₂ (f · = .ok ·) as bs := by
  induction as generalizing bs with
  | nil =>
    rw [List.forall₂_nil_left_iff]
    exact ⟨fun h => (Except.ok.inj h).symm, fun h => h ▸ rfl⟩
  | cons a as ih =>
    simp only [List.mapM_cons, bind_eq_ok_iff, List.forall₂_cons_left_iff, ih]
    constructor
    · rintro ⟨b, hb, bs', hbs', h⟩
      exact ⟨b, bs', hb, hbs', (Except.ok.inj h).symm⟩
    · rintro ⟨b, bs', hb, hbs', rfl⟩
      exact ⟨b, hb, bs', hbs', rfl⟩

/-- Each of them has a result if all have. -/
theorem mapM_eq_ok_of_mem {f : α → Except ε β} {as : List α} {bs : List β} {a : α}
    (h : as.mapM f = .ok bs) (ha : a ∈ as) : ∃ b, f a = .ok b := by
  have hall := mapM_eq_ok_iff.1 h
  clear h
  induction hall with
  | nil => cases ha
  | cons hab _ ih =>
    rcases List.mem_cons.1 ha with rfl | ha
    · exact ⟨_, hab⟩
    · exact ih ha

/-- Each of the results comes from something. -/
theorem exists_of_mapM {f : α → Except ε β} {as : List α} {bs : List β} {b : β}
    (h : as.mapM f = .ok bs) (hb : b ∈ bs) : ∃ a ∈ as, f a = .ok b := by
  have hall := mapM_eq_ok_iff.1 h
  clear h
  induction hall with
  | nil => cases hb
  | cons hab _ ih =>
    rcases List.mem_cons.1 hb with rfl | hb
    · exact ⟨_, List.mem_cons_self, hab⟩
    · obtain ⟨a, ha, hab⟩ := ih hb
      exact ⟨a, List.mem_cons_of_mem _ ha, hab⟩

/-- It fails with the error of the first one that fails. -/
theorem mapM_eq_error_iff {f : α → Except ε β} {as : List α} {e : ε} :
    as.mapM f = .error e ↔ ∃ (i : ℕ) (hi : i < as.length), f as[i] = .error e ∧
      ∀ (j : ℕ) (hj : j < i), ∃ b, f as[j] = .ok b := by
  induction as with
  | nil =>
    constructor
    · intro h
      cases h
    · rintro ⟨i, hi, -⟩
      exact absurd hi i.not_lt_zero
  | cons a as ih =>
    rw [List.mapM_cons]
    cases ha : f a with
    | error e' =>
      constructor
      · intro h
        obtain rfl := Except.error.inj h
        exact ⟨0, Nat.zero_lt_succ _, ha, fun j hj => absurd hj j.not_lt_zero⟩
      · rintro ⟨i, hi, he, hbefore⟩
        cases i with
        | zero =>
          rw [Except.error.inj (ha.symm.trans he)]
          rfl
        | succ i =>
          obtain ⟨b, hb⟩ := hbefore 0 i.succ_pos
          rw [List.getElem_cons_zero, ha] at hb
          cases hb
    | ok b =>
      have hrest : (do return b :: (← as.mapM f) : Except ε (List β)) = .error e ↔
          as.mapM f = .error e := by
        cases as.mapM f with
        | error e' => rfl
        | ok bs => exact ⟨fun h => (by cases h), fun h => (by cases h)⟩
      rw [ok_bind, hrest, ih]
      constructor
      · rintro ⟨i, hi, he, hbefore⟩
        refine ⟨i + 1, Nat.succ_lt_succ hi, he, fun j hj => ?_⟩
        cases j with
        | zero => exact ⟨b, ha⟩
        | succ j => exact hbefore j (Nat.lt_of_succ_lt_succ hj)
      · rintro ⟨i, hi, he, hbefore⟩
        cases i with
        | zero =>
          rw [List.getElem_cons_zero, ha] at he
          cases he
        | succ i =>
          exact ⟨i, Nat.lt_of_succ_lt_succ hi, he,
            fun j hj => hbefore (j + 1) (Nat.succ_lt_succ hj)⟩

/-- Of two related options either has a value if the other one has. -/
theorem exists_of_rel_left {R : α → β → Prop} {x : Option α} {y : Option β} {a : α}
    (h : Option.Rel R x y) (hx : x = some a) : ∃ b, y = some b ∧ R a b := by
  subst hx
  cases h with
  | some h => exact ⟨_, rfl, h⟩

theorem exists_of_rel_right {R : α → β → Prop} {x : Option α} {y : Option β} {b : β}
    (h : Option.Rel R x y) (hy : y = some b) : ∃ a, x = some a ∧ R a b := by
  subst hy
  cases h with
  | some h => exact ⟨_, rfl, h⟩

/-- Both computations have the same result, or none; what they fail with may differ. -/
def Alike (x y : Except ε α) : Prop := ∀ a, x = .ok a ↔ y = .ok a

namespace Alike

variable {x y z : Except ε α}

theorem refl (x : Except ε α) : Alike x x := fun _ => Iff.rfl

theorem trans (hxy : Alike x y) (hyz : Alike y z) : Alike x z :=
  fun a => (hxy a).trans (hyz a)

end Alike

/-- Alike parts make alike computations. -/
theorem Alike.bind {x y : Except ε α} {f g : α → Except ε β} (hxy : Alike x y)
    (hfg : ∀ a, Alike (f a) (g a)) : Alike (x >>= f) (y >>= g) := by
  intro b
  rw [bind_eq_ok_iff, bind_eq_ok_iff]
  exact exists_congr fun a => and_congr (hxy a) (hfg a b)

/-- Alike tasks, done one after the other, are alike. -/
theorem Alike.foldlM {task task' : σ → ℕ → Except ε σ} (h : ∀ s i, Alike (task s i) (task' s i))
    (l : List ℕ) (s : σ) : Alike (l.foldlM task s) (l.foldlM task' s) := by
  induction l generalizing s with
  | nil => exact .refl _
  | cons i l ih =>
    rw [List.foldlM_cons, List.foldlM_cons]
    exact (h s i).bind ih

/-- The results of both computations are related, or both fail with the same error. -/
inductive Matches (R : α → β → Prop) : Except ε α → Except ε β → Prop
  | ok {a : α} {b : β} (h : R a b) : Matches R (.ok a) (.ok b)
  | error (e : ε) : Matches R (.error e) (.error e)

namespace Matches

variable {α' β' : Type} {R : α → β → Prop} {S : α' → β' → Prop}

theorem bind {x : Except ε α} {y : Except ε β} {f : α → Except ε α'} {g : β → Except ε β'}
    (hxy : Matches R x y) (hfg : ∀ a b, R a b → Matches S (f a) (g b)) :
    Matches S (x >>= f) (y >>= g) := by
  cases hxy with
  | ok h => exact hfg _ _ h
  | error e => exact .error e

/-- A first part that both have in common. -/
theorem bind_left (x : Except ε α) {f : α → Except ε α'} {g : α → Except ε β'}
    (hfg : ∀ a, Matches S (f a) (g a)) : Matches S (x >>= f) (x >>= g) := by
  cases x with
  | ok a => exact hfg a
  | error e => exact .error e

theorem foldlM {task : α → ℕ → Except ε α} {task' : β → ℕ → Except ε β}
    (h : ∀ a b i, R a b → Matches R (task a i) (task' b i)) (l : List ℕ) {a : α} {b : β}
    (hab : R a b) : Matches R (l.foldlM task a) (l.foldlM task' b) := by
  induction l generalizing a b with
  | nil => exact .ok hab
  | cons i l ih =>
    rw [List.foldlM_cons, List.foldlM_cons]
    exact (h a b i hab).bind fun _ _ => ih

/-- What is checked on both sides alike. -/
theorem ite {p q : Prop} [Decidable p] [Decidable q] {a : α} {b : β} {e : ε} (hpq : p ↔ q)
    (h : R a b) :
    Matches R (if p then .ok a else .error e) (if q then .ok b else .error e) := by
  rw [if_congr hpq rfl rfl]
  split
  · exact .ok h
  · exact .error e

theorem eq {x y : Except ε α} (h : Matches Eq x y) : x = y := by
  cases h with
  | ok h => rw [h]
  | error e => rfl

end Matches

end NeighborSearch
