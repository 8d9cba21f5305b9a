import Mathlib.Tactic

/-!
# Blocks with one owner

A store hands out blocks from a list of free ones. Those it has handed out stand in slots,
of which some are live. `Owned` says that a block stands in at most one live slot, and that
no such block is free.
-/

namespace Ownership

variable {ι β : Type*}

/-- Every live slot has a block of its own, and none is free. -/
structure Owned (live : ι → Prop) (slot : ι → β) (free : List β) : Prop where
  nodup : free.Nodup
  notFree : ∀ i, live i → slot i ∉ free
  unshared : ∀ i j, live i → live j → slot i = slot j → i = j

variable {live live' : ι → Prop} {slot slot' : ι → β} {free : List β}

theorem Owned.mono (h : Owned live slot free) (hlive : ∀ i, live' i → live i)
    (hslot : ∀ i, live' i → slot' i = slot i) : Owned live' slot' free := by
  refine ⟨h.nodup, ?_, ?_⟩
  · intro i hi
    rw [hslot i hi]
    exact h.notFree i (hlive i hi)
  · intro i j hi hj hij
    rw [hslot i hi, hslot j hj] at hij
    exact h.unshared i j (hlive i hi) (hlive j hj) hij

theorem Owned.take {b : β} (h : Owned live slot (b :: free)) {k : ι} (hk : slot' k = b)
    (hlive : ∀ i, live' i → i ≠ k → live i) (hslot : ∀ i, i ≠ k → slot' i = slot i) :
    Owned live' slot' free := by
  obtain ⟨hb, hfree⟩ := List.nodup_cons.mp h.nodup
  have hother : ∀ i, live' i → i ≠ k → slot' i ≠ b := by
    intro i hi hne heq
    rw [hslot i hne] at heq
    exact h.notFree i (hlive i hi hne) (heq ▸ List.mem_cons_self)
  refine ⟨hfree, ?_, ?_⟩
  · intro i hi
    by_cases hik : i = k
    · rw [hik, hk]
      exact hb
    · rw [hslot i hik]
      exact fun hmem => h.notFree i (hlive i hi hik) (List.mem_cons_of_mem b hmem)
  · intro i j hi hj hij
    by_cases hik : i = k <;> by_cases hjk : j = k
    · rw [hik, hjk]
    · subst hik
      exact absurd (hij.symm.trans hk) (hother j hj hjk)
    · subst hjk
      exact absurd (hij.trans hk) (hother i hi hik)
    · rw [hslot i hik, hslot j hjk] at hij
      exact h.unshared i j (hlive i hi hik) (hlive j hj hjk) hij

theorem Owned.release (h : Owned live slot free) {released : List β} (hnodup : released.Nodup)
    (hreleased : ∀ b ∈ released, ∃ i, live i ∧ ¬ live' i ∧ slot i = b)
    (hlive : ∀ i, live' i → live i) (hslot : ∀ i, live' i → slot' i = slot i) :
    Owned live' slot' (released ++ free) := by
  refine ⟨?_, ?_, (h.mono hlive hslot).unshared⟩
  · refine hnodup.append h.nodup ?_
    intro b hb hfree
    obtain ⟨i, hi, -, rfl⟩ := hreleased b hb
    exact h.notFree i hi hfree
  · intro i hi hmem
    rw [hslot i hi] at hmem
    rcases List.mem_append.mp hmem with hmem | hmem
    · obtain ⟨j, hj, hdead, heq⟩ := hreleased _ hmem
      obtain rfl := h.unshared j i hj (hlive i hi) heq
      exact hdead hi
    · exact h.notFree i (hlive i hi) hmem

end Ownership
