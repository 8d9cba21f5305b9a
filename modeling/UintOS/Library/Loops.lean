import Mathlib.Tactic

/-!
# Counting loops

A loop `for (i = 0; i < n; i++) s = f(s, i)` is a fold over `List.range n`; a loop that may give up
is a monadic fold in `Except`. A property of the counter and the state that the body carries from
`i` to `i + 1` holds at `n` when the loop is done.
-/

namespace Loops

open List

variable {σ ε : Type*} {P : ℕ → σ → Prop} {f : σ → ℕ → Except ε σ} {n : ℕ} {s : σ}

/-- What each round may do, a whole loop may, for a relation that rounds compose in. -/
theorem foldl_rel {α : Type*} {f : σ → α → σ} {R : σ → σ → Prop} (hrefl : ∀ s, R s s)
    (htrans : ∀ s t u, R s t → R t u → R s u) (hstep : ∀ s a, R s (f s a)) (l : List α) (s : σ) :
    R s (l.foldl f s) :=
  List.foldlRecOn l f (hrefl s) fun t ht a _ => htrans s t _ ht (hstep t a)

theorem foldl_range {f : σ → ℕ → σ} (h0 : P 0 s)
    (hstep : ∀ i s, i < n → P i s → P (i + 1) (f s i)) : P n ((List.range n).foldl f s) := by
  induction n with
  | zero => exact h0
  | succ n ih =>
    rw [range_succ, foldl_append]
    exact hstep n _ (by omega) (ih fun i s hi hP => hstep i s (by omega) hP)

/-- A loop that may give up, on the runs in which it does not. -/
theorem foldlM_range {t : σ} (h0 : P 0 s)
    (hstep : ∀ i s s', i < n → P i s → f s i = .ok s' → P (i + 1) s')
    (hrun : (List.range n).foldlM f s = .ok t) : P n t := by
  induction n generalizing t with
  | zero =>
    cases hrun
    exact h0
  | succ n ih =>
    rw [range_succ, foldlM_append] at hrun
    cases hprev : (List.range n).foldlM f s with
    | error e =>
      rw [hprev] at hrun
      cases hrun
    | ok u =>
      rw [hprev] at hrun
      have hlast : f u n = .ok t := by
        cases hf : f u n with
        | error e => simp [bind, Except.bind, hf] at hrun
        | ok v => simpa [bind, Except.bind, hf, pure, Except.pure] using hrun
      exact hstep n u t (by omega)
        (ih (fun i s s' hi hP hf => hstep i s s' (by omega) hP hf) hprev) hlast

theorem foldlM_range_ok (h0 : P 0 s)
    (hstep : ∀ i s, i < n → P i s → ∃ s', f s i = .ok s' ∧ P (i + 1) s') :
    ∃ t, (List.range n).foldlM f s = .ok t ∧ P n t := by
  induction n with
  | zero => exact ⟨s, rfl, h0⟩
  | succ n ih =>
    obtain ⟨u, hu, hP⟩ := ih fun i s hi hP => hstep i s (by omega) hP
    obtain ⟨t, ht, hP'⟩ := hstep n u (by omega) hP
    refine ⟨t, ?_, hP'⟩
    rw [range_succ, foldlM_append, hu]
    simp [bind, Except.bind, ht, pure, Except.pure]

end Loops
