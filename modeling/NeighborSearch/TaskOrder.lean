/-!
# Orders of independent tasks

Tasks that may run at the same time are done one after the other here, in an order
that is left open. A *task order* gives one for every number of tasks. What is proved
for every task order holds whatever the tasks are run on.
-/

namespace NeighborSearch

/-- For every number of tasks, an order in which to do them, each of them once. -/
structure TaskOrder where
  /-- The tasks `0, …, n - 1` in the order in which they are done. -/
  tasks : (n : Nat) → List Nat
  /-- Every task is done once. -/
  perm : ∀ n, (tasks n).Perm (List.range n)

namespace TaskOrder

/-- First to last. -/
def forwards : TaskOrder := ⟨List.range, fun _ => .refl _⟩

/-- Last to first. -/
def backwards : TaskOrder := ⟨fun n => (List.range n).reverse, fun _ => List.reverse_perm _⟩

variable (o : TaskOrder)

theorem mem_tasks {n i : Nat} : i ∈ o.tasks n ↔ i < n := by
  rw [(o.perm n).mem_iff, List.mem_range]

theorem nodup_tasks (n : Nat) : (o.tasks n).Nodup :=
  (o.perm n).nodup_iff.2 List.nodup_range

@[simp] theorem length_tasks (n : Nat) : (o.tasks n).length = n := by
  rw [(o.perm n).length_eq, List.length_range]

end TaskOrder

end NeighborSearch
