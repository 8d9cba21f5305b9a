import Mathlib.Tactic

/-!
# Tables of slots

An array of slots, each of them empty or with an entry in it. A program goes through the slots in
order to find an entry or the first empty slot. Entries are told apart by a key.
-/

namespace SlotTable

open Function List

variable {n : ℕ} {α κ : Type*} {table : Fin n → Option α} {i j : Fin n} {a b : α} {p : α → Bool}

def Mem (table : Fin n → Option α) (a : α) : Prop := ∃ i, table i = some a

def used (table : Fin n → Option α) : ℕ := (Finset.univ.filter fun i => table i ≠ none).card

def find (table : Fin n → Option α) (p : α → Bool) : Option α :=
  (List.finRange n).findSome? fun i => (table i).filter p

def firstFree (table : Fin n → Option α) : Option (Fin n) :=
  (List.finRange n).find? fun i => (table i).isNone

def slotOf [DecidableEq α] (table : Fin n → Option α) (a : α) : Option (Fin n) :=
  (List.finRange n).find? fun i => table i = some a

def Distinct (key : α → κ) (table : Fin n → Option α) : Prop :=
  ∀ i j a b, table i = some a → table j = some b → key a = key b → i = j

instance [DecidableEq α] : Decidable (Mem table a) :=
  inferInstanceAs (Decidable (∃ i, table i = some a))

instance decidableForallMem {P : α → Prop} [DecidablePred P] : Decidable (∀ a, Mem table a → P a) :=
  decidable_of_iff (∀ i, ∀ a ∈ table i, P a)
    ⟨fun h a ⟨i, hi⟩ => h i a hi, fun h i a hi => h a ⟨i, hi⟩⟩

instance decidableExistsMem {P : α → Prop} [DecidablePred P] : Decidable (∃ a, Mem table a ∧ P a) :=
  decidable_of_iff (∃ i, ∃ a ∈ table i, P a)
    ⟨fun ⟨i, a, hi, hp⟩ => ⟨a, ⟨i, hi⟩, hp⟩, fun ⟨a, ⟨i, hi⟩, hp⟩ => ⟨i, a, hi, hp⟩⟩

theorem find_some (h : find table p = some a) : Mem table a ∧ p a = true := by
  obtain ⟨i, -, hi⟩ := exists_of_findSome?_eq_some h
  obtain ⟨hi, hp⟩ := Option.filter_eq_some_iff.mp hi
  exact ⟨⟨i, hi⟩, hp⟩

theorem find_none (h : find table p = none) (ha : Mem table a) : p a = false := by
  obtain ⟨i, hi⟩ := ha
  have hnone := findSome?_eq_none_iff.mp h i (mem_finRange i)
  rw [hi] at hnone
  simpa using hnone

theorem firstFree_some (h : firstFree table = some i) : table i = none := by
  simpa using find?_some h

theorem slotOf_some [DecidableEq α] (h : slotOf table a = some i) : table i = some a := by
  simpa using find?_some h

theorem slotOf_none [DecidableEq α] (h : slotOf table a = none) : ¬ Mem table a := by
  rintro ⟨i, hi⟩
  have hne := find?_eq_none.mp h i (mem_finRange i)
  simp [hi] at hne

theorem used_empty : used (fun _ => none : Fin n → Option α) = 0 := by
  simp [used]

/-! ## Filling and clearing a slot -/

theorem mem_fill (hi : table i = none) : Mem (update table i (some a)) b ↔ b = a ∨ Mem table b := by
  constructor
  · rintro ⟨j, hj⟩
    by_cases hji : j = i
    · rw [hji, update_self] at hj
      exact Or.inl (Option.some.inj hj).symm
    · rw [update_of_ne hji] at hj
      exact Or.inr ⟨j, hj⟩
  · rintro (rfl | ⟨j, hj⟩)
    · exact ⟨i, update_self ..⟩
    · have hji : j ≠ i := by
        rintro rfl
        rw [hi] at hj
        cases hj
      exact ⟨j, by rw [update_of_ne hji, hj]⟩

theorem used_fill (hi : table i = none) : used (update table i (some a)) = used table + 1 := by
  have hset : (Finset.univ.filter fun j => update table i (some a) j ≠ none) =
      insert i (Finset.univ.filter fun j => table j ≠ none) := by
    ext j
    by_cases hji : j = i
    · simp [hji]
    · simp [hji]
  rw [used, hset, Finset.card_insert_of_notMem (by simp [hi])]
  rfl

theorem used_clear (hi : table i = some a) : used (update table i none) + 1 = used table := by
  have hset : (Finset.univ.filter fun j => update table i none j ≠ none) =
      (Finset.univ.filter fun j => table j ≠ none).erase i := by
    ext j
    by_cases hji : j = i
    · simp [hji]
    · simp [hji]
  rw [used, hset, Finset.card_erase_add_one (by simp [hi])]
  rfl

variable {key key' : α → κ}

section

variable (h : Distinct key table)
include h

theorem Distinct.fill (hnew : ∀ b, Mem table b → key b ≠ key a) :
    Distinct key (update table i (some a)) := by
  intro j k b c hj hk hkey
  by_cases hji : j = i
  · by_cases hki : k = i
    · exact hji.trans hki.symm
    · rw [hji, update_self] at hj
      rw [update_of_ne hki] at hk
      cases hj
      exact absurd hkey.symm (hnew c ⟨k, hk⟩)
  · rw [update_of_ne hji] at hj
    by_cases hki : k = i
    · rw [hki, update_self] at hk
      cases hk
      exact absurd hkey (hnew b ⟨j, hj⟩)
    · rw [update_of_ne hki] at hk
      exact h j k b c hj hk hkey

theorem Distinct.clear : Distinct key (update table i none) := by
  intro j k b c hj hk hkey
  have hold : ∀ {l d}, update table i none l = some d → table l = some d := by
    intro l d hl
    by_cases hli : l = i
    · rw [hli, update_self] at hl
      cases hl
    · rwa [update_of_ne hli] at hl
  exact h j k b c (hold hj) (hold hk) hkey

theorem Distinct.congr (hkey : ∀ a, Mem table a → key' a = key a) : Distinct key' table := by
  intro j k b c hj hk hbc
  rw [hkey b ⟨j, hj⟩, hkey c ⟨k, hk⟩] at hbc
  exact h j k b c hj hk hbc

theorem Distinct.not_mem_clear (hi : table i = some a) : ¬ Mem (update table i none) a := by
  rintro ⟨j, hj⟩
  by_cases hji : j = i
  · rw [hji, update_self] at hj
    cases hj
  · rw [update_of_ne hji] at hj
    exact hji (h j i a a hj hi rfl)

end

theorem mem_of_mem_clear (hb : Mem (update table i none) b) : Mem table b := by
  obtain ⟨j, hj⟩ := hb
  by_cases hji : j = i
  · rw [hji, update_self] at hj
    cases hj
  · exact ⟨j, by rwa [update_of_ne hji] at hj⟩

theorem mem_clear (hi : table i = some a) (hb : Mem table b) (hne : b ≠ a) :
    Mem (update table i none) b := by
  obtain ⟨j, hj⟩ := hb
  have hji : j ≠ i := by
    rintro rfl
    rw [hi] at hj
    exact hne (Option.some.inj hj).symm
  exact ⟨j, by rwa [update_of_ne hji]⟩

end SlotTable
