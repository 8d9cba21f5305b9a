import Mathlib.Tactic

/-!
# Families of queues

A pool is a family of queues, one for each index. What is in it, in any of the queues, changes
with a queue: an element that is added to one of them is added to the pool, and one that is
taken from one of them is taken from the pool.
-/

namespace Pool

open Function List

variable {ι α : Type*}

def elements (indices : List ι) (queue : ι → List α) : List α := indices.flatMap queue

variable {indices : List ι} {queue : ι → List α} {i : ι} {a : α} {l : List α}

theorem mem_elements : a ∈ elements indices queue ↔ ∃ i ∈ indices, a ∈ queue i :=
  mem_flatMap

theorem length_le_elements (hi : i ∈ indices) :
    (queue i).length ≤ (elements indices queue).length := by
  induction indices with
  | nil => cases hi
  | cons j indices ih =>
    change _ ≤ (queue j ++ elements indices queue).length
    rw [length_append]
    rcases mem_cons.mp hi with rfl | hi
    · exact Nat.le_add_right _ _
    · exact (ih hi).trans (Nat.le_add_left _ _)

variable [DecidableEq ι]

theorem elements_update_of_notMem (hi : i ∉ indices) :
    elements indices (update queue i l) = elements indices queue := by
  apply flatMap_congr
  intro j hj
  apply update_of_ne
  rintro rfl
  exact hi hj

theorem elements_perm_cons (hnodup : indices.Nodup) (hi : i ∈ indices)
    (h : (queue i).Perm (a :: l)) :
    (elements indices queue).Perm (a :: elements indices (update queue i l)) := by
  induction indices with
  | nil => cases hi
  | cons j indices ih =>
    obtain ⟨hj, hnodup⟩ := nodup_cons.mp hnodup
    change (queue j ++ elements indices queue).Perm
      (a :: (update queue i l j ++ elements indices (update queue i l)))
    by_cases hij : j = i
    · subst hij
      rw [update_self, elements_update_of_notMem hj]
      exact h.append_right _
    · have hmem : i ∈ indices := (mem_cons.mp hi).resolve_left (Ne.symm hij)
      rw [update_of_ne hij]
      exact ((ih hnodup hmem).append_left _).trans perm_middle

end Pool
