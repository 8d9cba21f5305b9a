import Mathlib.Tactic

/-!
# Arrays that grow in chunks

The first cells of an array are in use. A new entry is stored behind them, and an entry is taken out
by moving all that follow to the front. The array has room for whole chunks of `k` cells, so it
grows only when the number of cells in use is a multiple of `k`.
-/

namespace GrowableArray

open Function List

variable {α : Type*} {cells : ℕ → α} {k m n found i capacity : ℕ} {a : α}

def contents (cells : ℕ → α) (n : ℕ) : List α := (List.range n).map cells

/-- The loop that moves the cells behind `found` to the front. -/
def shift (cells : ℕ → α) (found n : ℕ) : ℕ → α :=
  (List.range' found (n - 1 - found)).foldl (fun cells i => update cells i (cells (i + 1))) cells

def Room (k n capacity : ℕ) : Prop := ∃ chunks, n ≤ k * chunks ∧ k * chunks ≤ capacity

@[simp] theorem length_contents : (contents cells n).length = n := by
  simp [contents]

@[simp] theorem contents_zero : contents cells 0 = [] := rfl

theorem contents_congr {cells' : ℕ → α} (h : ∀ i < n, cells' i = cells i) :
    contents cells' n = contents cells n := by
  apply map_congr_left
  intro i hi
  exact h i (mem_range.mp hi)

theorem contents_store : contents (update cells n a) (n + 1) = contents cells n ++ [a] := by
  have hbef : contents (update cells n a) n = contents cells n :=
    contents_congr fun i hi => update_of_ne (by omega) _ _
  have hlast : contents (update cells n a) (n + 1) = contents (update cells n a) n ++ [a] := by
    simp [contents, range_succ]
  rw [hlast, hbef]

/-- The induction is on the rounds: each reads a cell that no earlier one has written. -/
theorem foldl_shift_apply (rounds : ℕ) : (List.range' found rounds).foldl
        (fun cells i => update cells i (cells (i + 1))) cells i =
      if found ≤ i ∧ i < found + rounds then cells (i + 1) else cells i := by
  induction rounds generalizing cells found with
  | zero => simp
  | succ rounds ih =>
    rw [range'_succ, foldl_cons, ih]
    by_cases hi : i = found
    · subst hi
      simp
    · by_cases hnext : i + 1 = found
      · have h1 : ¬ (found + 1 ≤ i ∧ i < found + 1 + rounds) := by omega
        have h2 : ¬ (found ≤ i ∧ i < found + (rounds + 1)) := by omega
        rw [if_neg h1, if_neg h2, update_of_ne hi]
      · rw [update_of_ne hi, update_of_ne hnext]
        have hiff : (found + 1 ≤ i ∧ i < found + 1 + rounds) ↔
            (found ≤ i ∧ i < found + (rounds + 1)) := by omega
        simp only [hiff]

theorem contents_shift (h : found < n) :
    contents (shift cells found n) (n - 1) = (contents cells n).eraseIdx found := by
  apply ext_getElem
  · rw [length_eraseIdx_of_lt (by simpa using h), length_contents, length_contents]
  · intro i hi _
    rw [length_contents] at hi
    rw [getElem_eraseIdx]
    simp only [contents, getElem_map, getElem_range, shift, foldl_shift_apply]
    by_cases hbef : i < found
    · rw [if_neg (by omega), dif_pos hbef]
    · rw [if_pos (by omega), dif_neg hbef]

/-! ## Room -/

section

variable (h : Room k n capacity)
include h

theorem Room.le : n ≤ capacity := by
  obtain ⟨chunks, hn, hcapacity⟩ := h
  exact hn.trans hcapacity

theorem Room.mono (hmn : m ≤ n) : Room k m capacity := by
  obtain ⟨chunks, hn, hcapacity⟩ := h
  exact ⟨chunks, hmn.trans hn, hcapacity⟩

/-- Where the last chunk is not full, there is room for one more. -/
theorem Room.push (hn : n % k ≠ 0) : Room k (n + 1) capacity := by
  obtain ⟨chunks, hle, hcapacity⟩ := h
  have hne : n ≠ k * chunks := by
    rintro rfl
    exact hn (Nat.mul_mod_right k chunks)
  exact ⟨chunks, by omega, hcapacity⟩

end

/-- Where it is full, there is room in an array with one more chunk. -/
theorem room_grow (hk : 0 < k) (hn : n % k = 0) : Room k (n + 1) (n + k) := by
  obtain ⟨chunks, rfl⟩ := Nat.dvd_of_mod_eq_zero hn
  have hmul : k * (chunks + 1) = k * chunks + k := Nat.mul_succ k chunks
  exact ⟨chunks + 1, by omega, by omega⟩

end GrowableArray
