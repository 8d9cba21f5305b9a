import Mathlib.Tactic

/-!
# Sections that a lock word protects

Processes enter a section by setting a lock word that was clear and leave it by clearing the word,
which does not say who has set it. At most one process is in its section as long as only that
process clears the word.
-/

namespace Spinlock

variable {ι : Type*} {locked locked' : Bool} {inside inside' : ι → Prop} {t : ι}

/-- At most one process is in its section, and the word is set then. -/
structure Guarded (locked : Bool) (inside : ι → Prop) : Prop where
  unique : ∀ t u, inside t → inside u → t = u
  locked : ∀ t, inside t → locked = true

theorem guarded_init (h : ∀ t, ¬ inside t) : Guarded locked inside :=
  ⟨fun t _ ht => absurd ht (h t), fun t ht => absurd ht (h t)⟩

theorem Guarded.stay (h : Guarded locked inside) (hins : ∀ u, inside' u ↔ inside u) :
    Guarded locked inside' := by
  constructor
  · intro u v hu hv
    exact h.unique u v ((hins u).mp hu) ((hins v).mp hv)
  · intro u hu
    exact h.locked u ((hins u).mp hu)

theorem Guarded.enter (h : Guarded false inside) (hother : ∀ u, u ≠ t → (inside' u ↔ inside u)) :
    Guarded true inside' := by
  have hempty : ∀ u, inside' u → u = t := by
    intro u hu
    by_contra hne
    exact Bool.noConfusion (h.locked u ((hother u hne).mp hu))
  constructor
  · intro u v hu hv
    rw [hempty u hu, hempty v hv]
  · intro _ _
    rfl

theorem Guarded.leave (h : Guarded locked inside) (ht : inside t) (hself : ¬ inside' t)
    (hother : ∀ u, u ≠ t → (inside' u ↔ inside u)) : Guarded locked' inside' := by
  apply guarded_init
  intro u hu
  by_cases hut : u = t
  · exact hself (hut ▸ hu)
  · exact hut (h.unique u t ((hother u hut).mp hu) ht)

end Spinlock
