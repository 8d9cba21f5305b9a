import Mathlib.Tactic

/-!
# Trees given by links to parents

Some nodes, each with a link to its parent or none. They are a tree when the links stay among the
nodes and lead from every node to the root. A leaf may be added below a node, and a leaf may be
taken away.
-/

namespace RootedTree

variable {α : Type*} {nodes nodes' : α → Prop} {parent parent' : α → Option α} {root a b : α}

inductive Reaches (parent : α → Option α) (root : α) : α → Prop
  | root : Reaches parent root root
  | up {a b : α} : parent a = some b → Reaches parent root b → Reaches parent root a

structure IsTree (nodes : α → Prop) (parent : α → Option α) (root : α) : Prop where
  root_mem : nodes root
  root_parent : parent root = none
  parent_mem : ∀ a b, nodes a → parent a = some b → nodes b
  reaches : ∀ a, nodes a → Reaches parent root a

/-- The way to the root only depends on the links of the nodes on it. -/
theorem Reaches.congr (hcl : ∀ a b, nodes a → parent a = some b → nodes b)
    (hsame : ∀ a, nodes a → parent' a = parent a) (h : Reaches parent root a) (ha : nodes a) :
    Reaches parent' root a := by
  induction h with
  | root => exact .root
  | up hup _ ih => exact .up ((hsame _ ha).trans hup) (ih (hcl _ _ ha hup))

theorem IsTree.exists_parent (h : IsTree nodes parent root) (ha : nodes a) (hne : a ≠ root) :
    ∃ b, parent a = some b ∧ nodes b := by
  cases h.reaches a ha with
  | root => exact absurd rfl hne
  | up hup _ => exact ⟨_, hup, h.parent_mem _ _ ha hup⟩

theorem isTree_singleton (hparent : parent root = none) (hnodes : ∀ a, nodes a ↔ a = root) :
    IsTree nodes parent root where
  root_mem := (hnodes root).mpr rfl
  root_parent := hparent
  parent_mem a b ha hb := by
    rw [(hnodes a).mp ha, hparent] at hb
    cases hb
  reaches a ha := by
    rw [(hnodes a).mp ha]
    exact .root

section

variable (h : IsTree nodes parent root)
include h

theorem IsTree.congr (hsame : ∀ c, nodes c → parent' c = parent c) : IsTree nodes parent' root where
  root_mem := h.root_mem
  root_parent := (hsame root h.root_mem).trans h.root_parent
  parent_mem c d hc hd := h.parent_mem c d hc ((hsame c hc).symm.trans hd)
  reaches c hc := (h.reaches c hc).congr h.parent_mem hsame hc

theorem IsTree.attach (hb : nodes b)
    (hnodes : ∀ c, nodes' c ↔ c = a ∨ nodes c) (ha : parent' a = some b)
    (hsame : ∀ c, nodes c → parent' c = parent c) : IsTree nodes' parent' root where
  root_mem := (hnodes root).mpr (.inr h.root_mem)
  root_parent := (hsame root h.root_mem).trans h.root_parent
  parent_mem c d hc hd := by
    rcases (hnodes c).mp hc with rfl | hc
    · rw [ha] at hd
      cases hd
      exact (hnodes b).mpr (.inr hb)
    · rw [hsame c hc] at hd
      exact (hnodes d).mpr (.inr (h.parent_mem c d hc hd))
  reaches c hc := by
    have hold : ∀ d, nodes d → Reaches parent' root d := fun d hd =>
      (h.reaches d hd).congr h.parent_mem hsame hd
    rcases (hnodes c).mp hc with rfl | hc
    · exact .up ha (hold b hb)
    · exact hold c hc

theorem IsTree.detach (ha : a ≠ root)
    (hleaf : ∀ c, nodes c → parent c ≠ some a) (hnodes : ∀ c, nodes' c ↔ nodes c ∧ c ≠ a)
    (hsame : ∀ c, nodes' c → parent' c = parent c) : IsTree nodes' parent' root := by
  have hroot : nodes' root := (hnodes root).mpr ⟨h.root_mem, ha.symm⟩
  have hcl : ∀ c d, nodes' c → parent c = some d → nodes' d := by
    intro c d hc hd
    obtain ⟨hc, -⟩ := (hnodes c).mp hc
    refine (hnodes d).mpr ⟨h.parent_mem c d hc hd, ?_⟩
    rintro rfl
    exact hleaf c hc hd
  constructor
  · exact hroot
  · exact (hsame root hroot).trans h.root_parent
  · intro c d hc hd
    rw [hsame c hc] at hd
    exact hcl c d hc hd
  · intro c hc
    exact (h.reaches c ((hnodes c).mp hc).1).congr hcl hsame hc

end

end RootedTree
