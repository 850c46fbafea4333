import Mathlib.Data.Set.Defs
import NeighborSearch.Proofs.Outcome

/-!
# Tasks that keep to their places

A memory is looked at place by place. A task is *confined* to the places that it reads and
those that it writes: it changes nothing else, and what it leaves there, and whether it
leaves anything, depends on nothing but what it reads. Tasks are *independent* when none
of them writes what another one reads or writes.

* `Independent.commute`: independent tasks may change places.
* `Independent.alike_foldlM`: in whatever order independent tasks are done, each of them
  once, they leave the same memory. If one of them fails, then no order succeeds, but the
  order may tell with what it fails: so two orders are alike and not equal.
-/

namespace NeighborSearch

variable {ε σ Place : Type} {Content : Place → Type}

/-! ## Footprints -/

/-- A task that keeps to the places that it reads and those that it writes. -/
structure Confined (look : σ → (p : Place) → Content p) (reads writes : Set Place)
    (task : σ → Except ε σ) : Prop where
  /-- It changes no other places than those that it writes. -/
  frame : ∀ {s t}, task s = .ok t → ∀ p ∉ writes, look t p = look s p
  /-- Whether it succeeds, and what it then leaves where it writes, depends only on what it
      reads. -/
  depends : ∀ {s s' t}, (∀ p ∈ reads, look s' p = look s p) → task s = .ok t →
    ∃ t', task s' = .ok t' ∧ ∀ p ∈ writes, look t' p = look t p

/-- Confined tasks of which none writes what another one reads or writes. -/
structure Independent (look : σ → (p : Place) → Content p) (reads writes : ℕ → Set Place)
    (task : σ → ℕ → Except ε σ) : Prop where
  confined : ∀ i, Confined look (reads i) (writes i) (task · i)
  writes_disjoint : ∀ i j, i ≠ j → ∀ p ∈ writes i, p ∉ writes j
  reads_disjoint : ∀ i j, i ≠ j → ∀ p ∈ reads i, p ∉ writes j

namespace Independent

variable {look : σ → (p : Place) → Content p} {reads writes : ℕ → Set Place}
  {task : σ → ℕ → Except ε σ}

/-- A task comes to the same after another one as before it. -/
theorem commute_of_eq_ok (h : Independent look reads writes task)
    (hext : ∀ s t, (∀ p, look s p = look t p) → s = t) {i j : ℕ} (hij : i ≠ j) {s u : σ}
    (hu : (task s i >>= (task · j)) = .ok u) : (task s j >>= (task · i)) = .ok u := by
  obtain ⟨t, ht, htu⟩ := bind_eq_ok_iff.1 hu
  -- Neither task can tell whether the other one has been done.
  have hsame : ∀ p ∈ reads j, look s p = look t p := fun p hp =>
    ((h.confined i).frame ht p (h.reads_disjoint j i hij.symm p hp)).symm
  obtain ⟨t', ht', hwrites⟩ := (h.confined j).depends hsame htu
  have hsame' : ∀ p ∈ reads i, look t' p = look s p := fun p hp =>
    (h.confined j).frame ht' p (h.reads_disjoint i j hij p hp)
  obtain ⟨u', hu', hwrites'⟩ := (h.confined i).depends hsame' ht
  have heq : u' = u := by
    refine hext _ _ fun p => ?_
    by_cases hi : p ∈ writes i
    · have hj := h.writes_disjoint i j hij p hi
      rw [hwrites' p hi, (h.confined j).frame htu p hj]
    · rw [(h.confined i).frame hu' p hi]
      by_cases hj : p ∈ writes j
      · exact hwrites p hj
      · rw [(h.confined j).frame ht' p hj, (h.confined j).frame htu p hj,
          (h.confined i).frame ht p hi]
  exact bind_eq_ok_iff.2 ⟨t', ht', heq ▸ hu'⟩

/-- Two of the tasks may be done in either order. -/
theorem commute (h : Independent look reads writes task)
    (hext : ∀ s t, (∀ p, look s p = look t p) → s = t) {i j : ℕ} (hij : i ≠ j) (s : σ) :
    Alike (task s i >>= (task · j)) (task s j >>= (task · i)) :=
  fun _ => ⟨h.commute_of_eq_ok hext hij, h.commute_of_eq_ok hext hij.symm⟩

/-- All of the tasks may be done in any order. -/
theorem alike_foldlM (h : Independent look reads writes task)
    (hext : ∀ s t, (∀ p, look s p = look t p) → s = t) {l l' : List ℕ} (hperm : l.Perm l')
    (hl : l.Nodup) (s : σ) : Alike (l.foldlM task s) (l'.foldlM task s) := by
  induction hperm generalizing s with
  | nil => exact .refl _
  | cons i _ ih =>
    rw [List.foldlM_cons, List.foldlM_cons]
    exact (Alike.refl _).bind fun t => ih (List.nodup_cons.1 hl).2 t
  | swap i j l =>
    have hij : j ≠ i := fun heq => (List.nodup_cons.1 hl).1 (heq ▸ List.mem_cons_self)
    simp only [List.foldlM_cons, ← bind_assoc]
    exact (h.commute hext hij s).bind fun t => .refl _
  | trans hfirst _ ih ih' => exact (ih hl s).trans (ih' (hfirst.nodup_iff.1 hl) s)

end Independent

end NeighborSearch
