import Mathlib.Tactic

/-!
# Linked lists over pointer fields

Cells are the elements of a type `α`, pointer fields functions `next prev : α → Option α`, with
`none` for null. `Linked next prev p l q` says that the cells of `l` are linked in this order in
both directions, that the first one points back to `p` and the last one forward to `q`.

The edits (unlink a cell, push one at the head, insert one after another) are stated by what the new
fields are at each cell of the list, so that they apply to any representation.
-/

namespace Links

open List

variable {α : Type*} {next prev next' prev' : α → Option α}

/-- The cells of `l` form a doubly linked segment between `p` and `q`. -/
def Linked (next prev : α → Option α) : Option α → List α → Option α → Prop
  | _, [], _ => True
  | p, a :: l, q => prev a = p ∧ next a = l.head?.or q ∧ Linked next prev (some a) l q

/-- The cells of `l` form a singly linked null-terminated list. -/
def Chain (next : α → Option α) : List α → Prop
  | [] => True
  | a :: l => next a = l.head? ∧ Chain next l

@[simp] theorem linked_nil (p q : Option α) : Linked next prev p [] q := trivial

theorem linked_cons (p q : Option α) (a : α) (l : List α) : Linked next prev p (a :: l) q ↔
      prev a = p ∧ next a = l.head?.or q ∧ Linked next prev (some a) l q := Iff.rfl

theorem linked_append (p q : Option α) (l₁ l₂ : List α) : Linked next prev p (l₁ ++ l₂) q ↔
      Linked next prev p l₁ (l₂.head?.or q) ∧ Linked next prev (l₁.getLast?.or p) l₂ q := by
  induction l₁ generalizing p with
  | nil => simp
  | cons a l₁ ih =>
    have hlast : ((a :: l₁).getLast?).or p = l₁.getLast?.or (some a) := by
      cases h : l₁.getLast? with
      | none => simp [getLast?_eq_none_iff.mp h]
      | some b => simp [getLast?_cons, h]
    simp only [cons_append, linked_cons, ih, hlast, head?_append, Option.or_assoc, and_assoc]

variable {p q r : Option α} {l l₁ l₂ : List α} {a b : α} {test : α → Bool} {cells : ℕ}

theorem Linked.congr (h : Linked next prev p l q) (hn : ∀ c ∈ l, next' c = next c)
    (hp : ∀ c ∈ l, prev' c = prev c) : Linked next' prev' p l q := by
  induction l generalizing p with
  | nil => trivial
  | cons a l ih =>
    obtain ⟨h1, h2, h3⟩ := h
    refine ⟨?_, ?_, ?_⟩
    · rw [hp a (by simp), h1]
    · rw [hn a (by simp), h2]
    · exact ih h3 (fun c hc => hn c (by simp [hc])) (fun c hc => hp c (by simp [hc]))

section

variable (h : Linked next prev none (l₁ ++ a :: l₂) none)
include h

theorem Linked.fields : prev a = l₁.getLast? ∧ next a = l₂.head? := by
  obtain ⟨_, h2⟩ := (linked_append _ _ _ _).mp h
  obtain ⟨h3, h4, _⟩ := h2
  simpa using And.intro h3 h4

theorem Linked.head_unlink :
    (l₁ ++ l₂).head? = if prev a = none then next a else (l₁ ++ a :: l₂).head? := by
  obtain ⟨ha1, ha2⟩ := h.fields
  cases l₁ with
  | nil => simp_all
  | cons b l₁ =>
    rw [ha1, if_neg (by simp)]
    simp

end

/-- Forward and backward fields are inverse to each other inside a list. -/
theorem Linked.next_iff_prev (h : Linked next prev none l none) (ha : a ∈ l) (hb : b ∈ l) :
    next a = some b ↔ prev b = some a := by
  obtain ⟨l₁, l₂, rfl⟩ := append_of_mem ha
  obtain ⟨_, ha2⟩ := h.fields
  constructor
  · intro he
    rw [ha2] at he
    cases l₂ with
    | nil => simp at he
    | cons c l₂ =>
      have hc : c = b := by simpa using he
      subst hc
      exact ((linked_append _ _ _ _).mp h).2.2.2.1
  · intro he
    obtain ⟨k₁, k₂, hk⟩ := append_of_mem hb
    rw [hk] at h
    rw [h.fields.1] at he
    have hk₁ : k₁ = k₁.dropLast ++ [a] := by
      rw [dropLast_append_getLast? _ he]
    rw [hk₁, append_assoc, singleton_append] at h
    rw [h.fields.2]
    rfl

theorem Linked.prev_mem (h : Linked next prev none l none) (ha : a ∈ l)
    (hb : prev a = some b) : b ∈ l := by
  obtain ⟨l₁, l₂, rfl⟩ := append_of_mem ha
  simp [mem_of_getLast? (h.fields.1.symm.trans hb)]

theorem Linked.chain (h : Linked next prev p l none) : Chain next l := by
  induction l generalizing p with
  | nil => trivial
  | cons a l ih => exact ⟨by simpa using h.2.1, ih h.2.2⟩

theorem perm_insertAfter (l₁ l₂ : List α) (b a : α) :
    (l₁ ++ b :: a :: l₂).Perm (a :: (l₁ ++ b :: l₂)) := by
  simpa using @perm_middle _ a (l₁ ++ [b]) l₂

/-- The cells from a given one on are determined by the forward fields. -/
theorem Chain.unique {k : List α} (hl : Chain next l) (hk : Chain next k)
    (hhead : l.head? = k.head?) : l = k := by
  induction l generalizing k with
  | nil =>
    cases k with
    | nil => rfl
    | cons b k => simp at hhead
  | cons a l ih =>
    cases k with
    | nil => simp at hhead
    | cons b k =>
      have hab : a = b := by simpa using hhead
      subst hab
      rw [ih hl.2 hk.2 (hl.1.symm.trans hk.1)]

theorem Chain.of_append (h : Chain next (l₁ ++ l₂)) : Chain next l₂ := by
  induction l₁ with
  | nil => exact h
  | cons a l₁ ih => exact ih h.2

section

variable (h : Chain next l)
include h

theorem Chain.nodup : l.Nodup := by
  induction l with
  | nil => exact nodup_nil
  | cons a l ih =>
    refine nodup_cons.mpr ⟨?_, ih h.2⟩
    intro ha
    obtain ⟨l₁, l₂, rfl⟩ := append_of_mem ha
    -- from its second occurrence on, the cell would lead to fewer cells
    have hrest : Chain next (a :: l₂) := h.2.of_append
    have heq := congrArg List.length (h.unique hrest rfl)
    simp at heq
    omega

theorem Chain.congr (hn : ∀ c ∈ l, next' c = next c) : Chain next' l := by
  induction l with
  | nil => trivial
  | cons a l ih =>
    exact ⟨by rw [hn a (by simp), h.1], ih h.2 (fun c hc => hn c (by simp [hc]))⟩

theorem Chain.next_ne_self (ha : a ∈ l) : next a ≠ some a := by
  obtain ⟨l₁, l₂, rfl⟩ := append_of_mem ha
  have hrest : Chain next (a :: l₂) := h.of_append
  rw [hrest.1]
  exact fun he => (nodup_cons.mp hrest.nodup).1 (mem_of_head? he)

theorem Chain.next_mem (ha : a ∈ l) (hb : next a = some b) : b ∈ l := by
  induction l with
  | nil => simp at ha
  | cons c l ih =>
    rcases mem_cons.mp ha with rfl | hl
    · rw [h.1] at hb
      simp [mem_of_head? hb]
    · simp [ih h.2 hl]

theorem Chain.next_ne_head (ha : a ∈ l) (hb : l.head? = some b) : next a ≠ some b := by
  intro he
  obtain ⟨l, rfl⟩ := head?_eq_some_iff.mp hb
  have hmem : b ∈ l := by
    rcases mem_cons.mp ha with rfl | hl
    · exact absurd he (h.next_ne_self ha)
    · exact h.2.next_mem hl he
  exact (nodup_cons.mp h.nodup).1 hmem

end

/-! ## Walks

`seek` follows the forward fields from a pointer to the first cell that passes a test,
and remembers the cell before it. A walk may go round in circles, so it is given the
number of cells it may visit. -/

/-- What a walk that ends has come to: the end of the list, or a cell that passes the
test, with the cell visited before it. -/
inductive Sought (α : Type*)
  | absent
  | found (prev : Option α) (cell : α)
deriving DecidableEq, Repr

/-- The walk from `p`, after `prev`; `none` when it visits more cells. -/
def seek (next : α → Option α) (test : α → Bool) : ℕ → (prev p : Option α) → Option (Sought α)
  | _, _, none => some .absent
  | 0, _, some _ => none
  | cells + 1, prev, some a =>
    if test a then some (.found prev a) else seek next test cells (some a) (next a)

@[simp] theorem seek_null (test : α → Bool) (cells : ℕ) (q : Option α) :
    seek next test cells q none = some .absent := by
  cases cells <;> rfl

theorem seek_hit (hc : 0 < cells) (q : Option α)
    (ha : test a) : seek next test cells q (some a) = some (.found q a) := by
  obtain ⟨k, rfl⟩ := Nat.exists_eq_succ_of_ne_zero hc.ne'
  simp [seek, ha]

theorem seek_found (h : seek next test cells q p = some (.found r a)) : test a := by
  induction cells generalizing q p with
  | zero => cases p <;> simp [seek] at h
  | succ cells ih =>
    cases p with
    | none => simp at h
    | some b =>
      by_cases hb : test b
      · rw [seek, if_pos hb] at h
        cases h
        exact hb
      · rw [seek, if_neg hb] at h
        exact ih h

/-- A cell found with nothing before it is where the walk started. -/
theorem seek_found_first (h : seek next test cells none p = some (.found none a)) : p = some a := by
  have hlater : ∀ (cells : ℕ) (b : α) (p : Option α),
      seek next test cells (some b) p ≠ some (.found none a) := by
    intro cells
    induction cells with
    | zero =>
      intro b p h
      cases p <;> simp [seek] at h
    | succ cells ih =>
      intro b p h
      cases p with
      | none => simp at h
      | some c =>
        rw [seek] at h
        split_ifs at h with hc
        · cases h
        · exact ih c _ h
  cases cells with
  | zero => cases p <;> simp [seek] at h
  | succ cells =>
    cases p with
    | none => simp at h
    | some b =>
      rw [seek] at h
      split_ifs at h with hb
      · cases h
        rfl
      · exact absurd h (hlater cells b _)

theorem Chain.seek_isSome (h : Chain next l) (test : α → Bool) (hc : l.length ≤ cells)
    (q : Option α) : (seek next test cells q l.head?).isSome := by
  induction l generalizing cells q with
  | nil => simp
  | cons a l ih =>
    obtain ⟨k, rfl⟩ := Nat.exists_eq_succ_of_ne_zero (by simp at hc; omega : cells ≠ 0)
    rw [head?_cons, seek]
    split_ifs
    · rfl
    · rw [h.1]
      exact ih h.2 (by simpa using hc) (some a)

/-- All cells from a pointer on; `none` when there are more. -/
def walk (next : α → Option α) : ℕ → Option α → Option (List α)
  | _, none => some []
  | 0, some _ => none
  | cells + 1, some a => (walk next cells (next a)).map (a :: ·)

theorem walk_chain (h : walk next cells p = some l) : Chain next l ∧ l.head? = p := by
  induction cells generalizing p l with
  | zero =>
    cases p with
    | none =>
      cases h
      exact ⟨trivial, rfl⟩
    | some a => cases h
  | succ cells ih =>
    cases p with
    | none =>
      cases h
      exact ⟨trivial, rfl⟩
    | some a =>
      obtain ⟨k, hk, rfl⟩ := Option.map_eq_some_iff.mp h
      obtain ⟨hchain, hhead⟩ := ih hk
      exact ⟨⟨hhead.symm, hchain⟩, rfl⟩

variable [DecidableEq α]

/-- Changing the cell after the segment changes the forward field of its last cell only. -/
theorem Linked.retarget (h : Linked next prev p l q) (hnd : l.Nodup)
    (hn : ∀ c ∈ l, next' c = if l.getLast? = some c then r else next c)
    (hp : ∀ c ∈ l, prev' c = prev c) : Linked next' prev' p l r := by
  induction l generalizing p with
  | nil => trivial
  | cons a l ih =>
    obtain ⟨h1, h2, h3⟩ := h
    have hnd' := nodup_cons.mp hnd
    refine ⟨?_, ?_, ?_⟩
    · rw [hp a (by simp), h1]
    · rw [hn a (by simp)]
      cases l with
      | nil => simp
      | cons b l =>
        have hne : (a :: b :: l).getLast? ≠ some a := by
          intro hc
          exact hnd'.1 (mem_of_getLast? hc)
        rw [if_neg hne, h2]
        simp
    · apply ih h3 hnd'.2
      · intro c hc
        rw [hn c (by simp [hc])]
        cases l with
        | nil => simp at hc
        | cons b l => rw [getLast?_cons_cons]
      · intro c hc
        exact hp c (by simp [hc])

/-- Changing the cell before the segment changes the backward field of its first cell only. -/
theorem Linked.reroot (h : Linked next prev p l q) (hnd : l.Nodup) (hn : ∀ c ∈ l, next' c = next c)
    (hp : ∀ c ∈ l, prev' c = if l.head? = some c then r else prev c) :
    Linked next' prev' r l q := by
  cases l with
  | nil => trivial
  | cons a l =>
    obtain ⟨_, h2, h3⟩ := h
    have hnd' := nodup_cons.mp hnd
    refine ⟨?_, ?_, ?_⟩
    · rw [hp a (by simp)]
      simp
    · rw [hn a (by simp), h2]
    · apply h3.congr
      · intro c hc
        exact hn c (by simp [hc])
      · intro c hc
        have hne : a ≠ c := fun e => hnd'.1 (e ▸ hc)
        rw [hp c (by simp [hc])]
        simp [hne]

/-- Unlinking a cell: its predecessor takes over its forward field, its successor its backward
field. -/
theorem Linked.unlink (h : Linked next prev none (l₁ ++ a :: l₂) none)
    (hn : ∀ c ∈ l₁ ++ l₂, next' c = if prev a = some c then next a else next c)
    (hp : ∀ c ∈ l₁ ++ l₂, prev' c = if next a = some c then prev a else prev c) :
    Linked next' prev' none (l₁ ++ l₂) none := by
  obtain ⟨ha1, ha2⟩ := h.fields
  obtain ⟨hl₁, hl₂⟩ := (linked_append _ _ _ _).mp h
  obtain ⟨hnd₁, hnd₂, hdis⟩ := nodup_append.mp h.chain.nodup
  have hnd₂' := nodup_cons.mp hnd₂
  refine (linked_append _ _ _ _).mpr ⟨?_, ?_⟩
  · apply hl₁.retarget hnd₁
    · intro c hc
      rw [hn c (by simp [hc]), ha1, ha2]
      simp
    · intro c hc
      have hne : next a ≠ some c := by
        intro he
        rw [ha2] at he
        exact hdis c hc c (by simp [mem_of_head? he]) rfl
      rw [hp c (by simp [hc]), if_neg hne]
  · apply hl₂.2.2.reroot hnd₂'.2
    · intro c hc
      have hne : prev a ≠ some c := by
        intro he
        rw [ha1] at he
        exact hdis c (mem_of_getLast? he) c (by simp [hc]) rfl
      rw [hn c (by simp [hc]), if_neg hne]
    · intro c hc
      rw [hp c (by simp [hc]), ha1, ha2]
      simp

theorem Linked.push (h : Linked next prev none l none) (hna : next' a = l.head?)
    (hpa : prev' a = none) (hn : ∀ c ∈ l, next' c = next c)
    (hp : ∀ c ∈ l, prev' c = if l.head? = some c then some a else prev c) :
    Linked next' prev' none (a :: l) none := by
  refine ⟨hpa, by simpa using hna, ?_⟩
  exact h.reroot h.chain.nodup hn hp

theorem Linked.snoc (h : Linked next prev none l none) (hna : next' a = none)
    (hpa : prev' a = l.getLast?)
    (hn : ∀ c ∈ l, next' c = if l.getLast? = some c then some a else next c)
    (hp : ∀ c ∈ l, prev' c = prev c) : Linked next' prev' none (l ++ [a]) none := by
  refine (linked_append _ _ _ _).mpr ⟨?_, ?_⟩
  · exact h.retarget h.chain.nodup hn hp
  · exact ⟨by simpa using hpa, by simpa using hna, trivial⟩

theorem Linked.insertAfter (h : Linked next prev none (l₁ ++ b :: l₂) none)
    (hnb : next' b = some a) (hna : next' a = next b) (hpa : prev' a = some b)
      (hn : ∀ c ∈ l₁ ++ b :: l₂, c ≠ b → next' c = next c)
    (hp : ∀ c ∈ l₁ ++ b :: l₂, prev' c = if next b = some c then some a else prev c) :
    Linked next' prev' none (l₁ ++ b :: a :: l₂) none := by
  obtain ⟨hb1, hb2⟩ := h.fields
  obtain ⟨hl₁, hl₂⟩ := (linked_append _ _ _ _).mp h
  obtain ⟨hnd₁, hnd₂, hdis⟩ := nodup_append.mp h.chain.nodup
  have hnd₂' := nodup_cons.mp hnd₂
  have hbn : next b ≠ some b := h.chain.next_ne_self (by simp)
  refine (linked_append _ _ _ _).mpr ⟨?_, ?_, ?_, ?_, ?_, ?_⟩
  · apply hl₁.congr
    · intro c hc
      exact hn c (by simp [hc]) (fun e => hdis c hc b (by simp) e)
    · intro c hc
      have hne : next b ≠ some c := by
        intro he
        rw [hb2] at he
        exact hdis c hc c (by simp [mem_of_head? he]) rfl
      rw [hp c (by simp [hc]), if_neg hne]
  · rw [hp b (by simp), if_neg hbn, hl₂.1]
  · simpa using hnb
  · exact hpa
  · rw [hna, hb2]
    simp
  · apply hl₂.2.2.reroot hnd₂'.2
    · intro c hc
      exact hn c (by simp [hc]) (fun e => hnd₂'.1 (e ▸ hc))
    · intro c hc
      rw [hp c (by simp [hc]), hb2]

end Links
