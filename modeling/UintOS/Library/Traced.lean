import Mathlib.Tactic

/-!
# Computations that report what they access

A traced computation has a value and the list of what it accessed. That all accesses are within
bounds is proved part by part: for the first part of a sequence, and for what follows with its
value.
-/

/-- A value, and the accesses made for it. -/
structure Traced (κ α : Type) where
  value : α
  accesses : List κ

namespace Traced

variable {κ α β : Type}

instance : Monad (Traced κ) where
  pure a := ⟨a, []⟩
  bind x f := ⟨(f x.value).value, x.accesses ++ (f x.value).accesses⟩

def access (ks : List κ) : Traced κ Unit := ⟨(), ks⟩

/-- All accesses are to things of which something is true. -/
def Within (p : κ → Prop) (x : Traced κ α) : Prop := ∀ k ∈ x.accesses, p k

variable {p : κ → Prop}

@[simp] theorem value_pure (a : α) : (pure a : Traced κ α).value = a := rfl

@[simp] theorem value_bind (x : Traced κ α) (f : α → Traced κ β) :
    (x >>= f).value = (f x.value).value := rfl

@[simp] theorem within_pure (a : α) : Within p (pure a : Traced κ α) := by
  intro k hk
  cases hk

@[simp] theorem within_access (ks : List κ) : Within p (access ks) ↔ ∀ k ∈ ks, p k := Iff.rfl

@[simp] theorem within_bind (x : Traced κ α) (f : α → Traced κ β) :
    Within p (x >>= f) ↔ Within p x ∧ Within p (f x.value) := by
  exact List.forall_mem_append

end Traced
