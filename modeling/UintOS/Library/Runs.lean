import Mathlib.Tactic

/-!
# Runs of a partial step function

A system is a function `step : σ → ι → Option σ`: it takes a request in a state and returns the next
state, or `none` when the request does not return. A run is a list of requests executed in order.
Properties of runs are stated for every state the run passes through, conditions for every request
in the state in which it is issued.
-/

namespace Runs

open Option

variable {σ ι : Type*} (step : σ → ι → Option σ)

/-- Execute the requests in order; `none` as soon as one does not return. -/
def exec : σ → List ι → Option σ
  | s, [] => some s
  | s, i :: is => (step s i).bind fun t => exec t is

/-- The states a run passes through, the first one included. -/
def trace : σ → List ι → List σ
  | s, [] => [s]
  | s, i :: is => s :: ((step s i).map fun t => trace t is).getD []

/-- The property holds in every state of the run. -/
def Throughout (P : σ → Prop) (s : σ) (is : List ι) : Prop :=
  ∀ t ∈ trace step s is, P t

/-- Every request of the run meets the condition in the state it is issued in. -/
def Meets (ok : σ → ι → Prop) : σ → List ι → Prop
  | _, [] => True
  | s, i :: is => ok s i ∧ ∀ t, step s i = some t → Meets ok t is

@[simp] theorem exec_nil (s : σ) : exec step s ([] : List ι) = some s := rfl

theorem exec_cons (s : σ) (i : ι) (is : List ι) :
    exec step s (i :: is) = (step s i).bind fun t => exec step t is := rfl

theorem exec_append (s : σ) (is js : List ι) :
    exec step s (is ++ js) = (exec step s is).bind fun t => exec step t js := by
  induction is generalizing s with
  | nil => rfl
  | cons i is ih =>
    rw [List.cons_append, exec_cons, exec_cons, bind_assoc]
    simp only [ih]

theorem mem_trace_self (s : σ) (is : List ι) : s ∈ trace step s is := by
  cases is <;> simp [trace]

theorem throughout_nil (P : σ → Prop) (s : σ) : Throughout step P s ([] : List ι) ↔ P s := by
  simp [Throughout, trace]

theorem throughout_cons (P : σ → Prop) (s : σ) (i : ι) (is : List ι) :
    Throughout step P s (i :: is) ↔ P s ∧ ∀ t, step s i = some t → Throughout step P t is := by
  cases h : step s i with
  | none => simp [Throughout, trace, h]
  | some u => simp [Throughout, trace, h]

variable {P I : σ → Prop} {s t : σ} {is : List ι} {ok Q : σ → ι → Prop}

theorem Throughout.head (h : Throughout step P s is) : P s := h s (mem_trace_self step s is)

/-- The final state of a run is one of its states. -/
theorem Throughout.last (h : Throughout step P s is) (he : exec step s is = some t) : P t := by
  induction is generalizing s with
  | nil =>
    cases he
    exact h.head
  | cons i is ih =>
    obtain ⟨u, hu, he⟩ := bind_eq_some_iff.mp he
    exact ih (((throughout_cons step P s i is).mp h).2 u hu) he

/-- An invariant kept by every request that meets the condition holds throughout
every run whose requests all meet it. -/
theorem throughout_of_meets (hstep : ∀ s i t, I s → ok s i → step s i = some t → I t) (hs : I s)
    (hok : Meets step ok s is) : Throughout step I s is := by
  induction is generalizing s with
  | nil => exact (throughout_nil step I s).mpr hs
  | cons i is ih =>
    refine (throughout_cons step I s i is).mpr ⟨hs, ?_⟩
    intro t ht
    exact ih (hstep s i t hs hok.1 ht) (hok.2 t ht)

/-- When, moreover, every such request returns, the run is executed to its end. -/
theorem completes_of_meets (hstep : ∀ s i, I s → ok s i → ∃ t, step s i = some t ∧ I t) (hs : I s)
    (hok : Meets step ok s is) : (exec step s is).isSome ∧ Throughout step I s is := by
  constructor
  · induction is generalizing s with
    | nil => rfl
    | cons i is ih =>
      obtain ⟨t, ht, hinv⟩ := hstep s i hs hok.1
      rw [exec_cons, ht]
      exact ih hinv (hok.2 t ht)
  · apply throughout_of_meets step ?_ hs hok
    intro s i t hs hok ht
    obtain ⟨u, hu, hinv⟩ := hstep s i hs hok
    rw [ht] at hu
    cases hu
    exact hinv

/-- When every request that meets the condition keeps a relation to the state of another system, the
run returns, and the final states are related. -/
theorem exec_refines {τ : Type*} {R : σ → τ → Prop} (next : τ → ι → τ)
    (hstep : ∀ s r i, R s r → ok s i → ∃ t, step s i = some t ∧ R t (next r i)) {r : τ} (hs : R s r)
    (hok : Meets step ok s is) : ∃ t, exec step s is = some t ∧ R t (is.foldl next r) := by
  induction is generalizing s r with
  | nil => exact ⟨s, rfl, hs⟩
  | cons i is ih =>
    obtain ⟨t, ht, hR⟩ := hstep s r i hs hok.1
    rw [exec_cons, ht]
    exact ih hR (hok.2 t ht)

theorem meets_cons {i : ι} (hi : ok s i) (hsome : (step s i).isSome)
    (his : Meets step ok ((step s i).get hsome) is) : Meets step ok s (i :: is) := by
  refine ⟨hi, ?_⟩
  intro t ht
  have hget : (step s i).get hsome = t := by simp [ht]
  exact hget ▸ his

theorem meets_of_forall {Q : ι → Prop} (h : ∀ i ∈ is, Q i) : Meets step (fun _ i => Q i) s is := by
  induction is generalizing s with
  | nil => trivial
  | cons i is ih =>
    rw [List.forall_mem_cons] at h
    exact ⟨h.1, fun t _ => ih h.2⟩

theorem meets_append {js : List ι} (h : Meets step ok s (is ++ js))
    (ht : exec step s is = some t) : Meets step ok s is ∧ Meets step ok t js := by
  induction is generalizing s with
  | nil => exact ⟨trivial, some.inj ht ▸ h⟩
  | cons i is ih =>
    obtain ⟨u, hu, hrest⟩ := bind_eq_some_iff.mp ht
    have hmeets := ih (h.2 u hu) hrest
    refine ⟨⟨h.1, fun v hv => ?_⟩, hmeets.2⟩
    obtain rfl := some.inj (hu.symm.trans hv)
    exact hmeets.1

instance decidableMeets {ok : σ → ι → Prop} [∀ s i, Decidable (ok s i)] :
    ∀ (s : σ) (is : List ι), Decidable (Meets step ok s is)
  | _, [] => isTrue trivial
  | s, i :: is =>
    match h : step s i with
    | none => decidable_of_iff (ok s i) (by simp [Meets, h])
    | some t =>
      haveI : Decidable (Meets step ok t is) := decidableMeets t is
      decidable_of_iff (ok s i ∧ Meets step ok t is) (by simp [Meets, h])

/-- The condition on a run, for each request in its state. -/
theorem meets_iff_forall : Meets step ok s is ↔
      ∀ before i after t, is = before ++ i :: after → exec step s before = some t → ok t i := by
  induction is generalizing s with
  | nil =>
    refine ⟨?_, fun _ => trivial⟩
    intro _ before i after t hsplit
    exact absurd hsplit.symm (by simp)
  | cons j is ih =>
    constructor
    · rintro ⟨hj, hrest⟩ before i after t hsplit hexec
      cases before with
      | nil =>
        cases hsplit
        cases hexec
        exact hj
      | cons k before =>
        cases hsplit
        obtain ⟨u, hu, hexec⟩ := bind_eq_some_iff.mp hexec
        exact ih.mp (hrest u hu) before i after t rfl hexec
    · intro h
      refine ⟨h [] j is s rfl rfl, fun u hu => ih.mpr ?_⟩
      rintro before i after t rfl hexec
      apply h (j :: before) i after t rfl
      rw [exec_cons, hu]
      exact hexec

/-- A condition that does not look at the state, on a system that always returns. -/
theorem meets_const {Q : ι → Prop} (htotal : ∀ s i, (step s i).isSome) (s : σ) (is : List ι) :
    Meets step (fun _ i => Q i) s is ↔ ∀ i ∈ is, Q i := by
  induction is generalizing s with
  | nil => simp [Meets]
  | cons i is ih =>
    obtain ⟨t, ht⟩ := isSome_iff_exists.mp (htotal s i)
    simp only [Meets, ht, some.injEq, forall_eq', ih, List.forall_mem_cons]

/-- A condition that another one implies in the states of an invariant. -/
theorem Meets.imp {P : σ → ι → Prop} (hinv : ∀ s i t, I s → P s i → step s i = some t → I t)
    (h : ∀ s i, I s → P s i → Q s i) (hs : I s) (hP : Meets step P s is) : Meets step Q s is := by
  induction is generalizing s with
  | nil => trivial
  | cons i is ih =>
    exact ⟨h s i hs hP.1, fun t ht => ih (hinv s i t hs hP.1 ht) (hP.2 t ht)⟩

/-- Two conditions that agree in the states of an invariant, which requests that meet them keep. -/
theorem meets_congr {P : σ → ι → Prop} (hinv : ∀ s i t, I s → Q s i → step s i = some t → I t)
    (h : ∀ s i, I s → (P s i ↔ Q s i)) (hs : I s)
    (is : List ι) : Meets step P s is ↔ Meets step Q s is := by
  induction is generalizing s with
  | nil => exact Iff.rfl
  | cons i is ih =>
    constructor
    · rintro ⟨hP, hrest⟩
      have hQ : Q s i := (h s i hs).mp hP
      exact ⟨hQ, fun t ht => (ih (hinv s i t hs hQ ht)).mp (hrest t ht)⟩
    · rintro ⟨hQ, hrest⟩
      exact ⟨(h s i hs).mpr hQ, fun t ht => (ih (hinv s i t hs hQ ht)).mpr (hrest t ht)⟩

theorem Throughout.imp {Q : σ → Prop} (h : Throughout step P s is)
    (hPQ : ∀ t, P t → Q t) : Throughout step Q s is :=
  fun t ht => hPQ t (h t ht)

section

variable (hInv : ∀ s, I s → P s)
include hInv

/-- When, from the invariant, a request that meets the condition leads back to it and another one
leads to a state without the property, the property holds throughout a run exactly if all its
requests meet the condition. They may be known to meet another condition `Q`. -/
theorem throughout_iff_of_step (hgood : ∀ s i t, I s → Q s i → ok s i → step s i = some t → I t)
    (hbad : ∀ s i, I s → Q s i → ¬ ok s i → ∃ t, step s i = some t ∧ ¬ P t) (hs : I s)
    (hQ : Meets step Q s is) : Throughout step P s is ↔ Meets step ok s is := by
  induction is generalizing s with
  | nil => exact ⟨fun _ => trivial, fun _ => (throughout_nil step P s).mpr (hInv s hs)⟩
  | cons i is ih =>
    rw [throughout_cons]
    constructor
    · rintro ⟨-, hrest⟩
      have hok : ok s i := by
        by_contra hno
        obtain ⟨t, ht, hP⟩ := hbad s i hs hQ.1 hno
        exact hP (hrest t ht).head
      exact ⟨hok, fun u hu => (ih (hgood s i u hs hQ.1 hok hu) (hQ.2 u hu)).mp (hrest u hu)⟩
    · rintro ⟨hok, hrest⟩
      exact ⟨hInv s hs, fun u hu => (ih (hgood s i u hs hQ.1 hok hu) (hQ.2 u hu)).mpr (hrest u hu)⟩

/-- The rule for a step lemma that says what a request leads to in both cases. -/
theorem throughout_iff_meets_of_meets (hstep : ∀ s i, I s → Q s i →
      ∃ t, step s i = some t ∧ (ok s i → I t) ∧ (¬ ok s i → ¬ P t)) (hs : I s)
    (hQ : Meets step Q s is) : Throughout step P s is ↔ Meets step ok s is := by
  refine throughout_iff_of_step step hInv ?_ ?_ hs hQ
  · intro s i t h hq hok ht
    obtain ⟨u, hu, hgood, -⟩ := hstep s i h hq
    cases ht.symm.trans hu
    exact hgood hok
  · intro s i h hq hno
    obtain ⟨t, ht, -, hbad⟩ := hstep s i h hq
    exact ⟨t, ht, hbad hno⟩

theorem throughout_iff_meets
    (hstep : ∀ s i, I s → ∃ t, step s i = some t ∧ (ok s i → I t) ∧ (¬ ok s i → ¬ P t)) (hs : I s)
    (is : List ι) : Throughout step P s is ↔ Meets step ok s is :=
  throughout_iff_meets_of_meets step hInv (fun s i h _ => hstep s i h) hs
    (meets_of_forall step fun _ _ => trivial)

end

end Runs
