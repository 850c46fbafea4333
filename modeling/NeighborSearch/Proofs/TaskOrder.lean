import Mathlib.Data.Nat.Notation
import NeighborSearch.TaskOrder

/-!
# What independent tasks come to

Tasks are *independent* when each can be done in every state that any of them leaves,
and none undoes what another has done. In whatever order such tasks are done, all of
them can be, and in the end all of them are done.
-/

namespace NeighborSearch.TaskOrder

variable {σ ε : Type*} {step : σ → ℕ → Except ε σ} {n : ℕ} {Inv : σ → Prop} {Done : ℕ → σ → Prop}

theorem exists_foldlM_list_eq_ok
    (hstep : ∀ s i, i < n → Inv s →
      ∃ t, step s i = .ok t ∧ Inv t ∧ Done i t ∧ ∀ j, j ≠ i → Done j s → Done j t)
    {tasks : List ℕ} (htasks : ∀ i ∈ tasks, i < n) {s : σ} (hs : Inv s) :
    ∃ t, tasks.foldlM step s = .ok t ∧ Inv t ∧ (∀ i ∈ tasks, Done i t) ∧
      ∀ i, Done i s → Done i t := by
  induction tasks generalizing s with
  | nil => exact ⟨s, rfl, hs, fun _ hi => absurd hi List.not_mem_nil, fun _ => id⟩
  | cons i tasks ih =>
    obtain ⟨u, hu, huInv, hdone, hkeep⟩ := hstep s i (htasks i List.mem_cons_self) hs
    obtain ⟨t, ht, htInv, htasks, hstay⟩ :=
      ih (fun j hj => htasks j (List.mem_cons_of_mem _ hj)) huInv
    refine ⟨t, ?_, htInv, ?_, ?_⟩
    · rw [List.foldlM_cons, hu]
      exact ht
    · intro j hj
      rcases List.mem_cons.1 hj with rfl | hj
      · exact hstay j hdone
      · exact htasks j hj
    · intro j hj
      by_cases hji : j = i
      · exact hji ▸ hstay i hdone
      · exact hstay j (hkeep j hji hj)

/-- Independent tasks, in any order. -/
theorem exists_foldlM_eq_ok (o : TaskOrder)
    (hstep : ∀ s i, i < n → Inv s →
      ∃ t, step s i = .ok t ∧ Inv t ∧ Done i t ∧ ∀ j, j ≠ i → Done j s → Done j t)
    {s : σ} (hs : Inv s) :
    ∃ t, (o.tasks n).foldlM step s = .ok t ∧ Inv t ∧ ∀ i < n, Done i t := by
  obtain ⟨t, ht, hInv, hdone, -⟩ :=
    exists_foldlM_list_eq_ok hstep (fun i hi => o.mem_tasks.1 hi) hs
  exact ⟨t, ht, hInv, fun i hi => hdone i (o.mem_tasks.2 hi)⟩

end NeighborSearch.TaskOrder
