import UintOS.Library.Links

/-!
# The lists of threads

The ready and the blocked list of `thread.c`. Both use the fields `next` and `prev` of the threads;
the ready list has a head and a tail, the blocked list a head.

For a thread that is in no list, which has null in both fields, `thread_remove_from_ready_list` sets
the head and the tail to null, and that does no harm only when the ready list is empty.
-/

namespace UintOS.Threads

open Function Links List

/-- The address of a `thread_t`. -/
abbrev ThreadPtr := ℕ

structure Lists where
  next : ThreadPtr → Option ThreadPtr
  prev : ThreadPtr → Option ThreadPtr
  readyHead : Option ThreadPtr
  readyTail : Option ThreadPtr
  blockedHead : Option ThreadPtr

namespace Lists

def empty : Lists := ⟨fun _ => none, fun _ => none, none, none, none⟩

variable (s : Lists) (t : ThreadPtr)

def setNext (p : Option ThreadPtr) : Lists :=
  { s with next := update s.next t p }

def setPrev (p : Option ThreadPtr) : Lists :=
  { s with prev := update s.prev t p }

def threadAddToReadyList : Lists :=
  let s := (s.setNext t none).setPrev t s.readyTail
  let s :=
    match s.readyTail with
    | some tail => s.setNext tail (some t)
    | none => { s with readyHead := some t }
  { s with readyTail := some t }

def threadRemoveFromReadyList : Lists :=
  let s :=
    match s.prev t with
    | some p => s.setNext p (s.next t)
    | none => { s with readyHead := s.next t }
  let s :=
    match s.next t with
    | some n => s.setPrev n (s.prev t)
    | none => { s with readyTail := s.prev t }
  (s.setNext t none).setPrev t none

/-- `thread_block` adds the thread to the head of the blocked list. -/
def addToBlockedList : Lists :=
  let s := s.setNext t s.blockedHead
  let s :=
    match s.blockedHead with
    | some head => s.setPrev head (some t)
    | none => s
  { s.setPrev t none with blockedHead := some t }

/-- `thread_unblock` removes the thread from the blocked list. -/
def removeFromBlockedList : Lists :=
  let s :=
    match s.prev t with
    | some p => s.setNext p (s.next t)
    | none => { s with blockedHead := s.next t }
  match s.next t with
  | some n => s.setPrev n (s.prev t)
  | none => s

/-! ## Shape -/

/-- The two lists are those of the given threads; a thread in none has null in both fields. -/
structure Shape (s : Lists) (ready blocked : List ThreadPtr) : Prop where
  ready_linked : Linked s.next s.prev none ready none
  blocked_linked : Linked s.next s.prev none blocked none
  nodup : (ready ++ blocked).Nodup
  ready_head : s.readyHead = ready.head?
  ready_tail : s.readyTail = ready.getLast?
  blocked_head : s.blockedHead = blocked.head?
  alone : ∀ t, t ∉ ready → t ∉ blocked → s.next t = none ∧ s.prev t = none

theorem shape_empty : Shape empty [] [] where
  ready_linked := trivial
  blocked_linked := trivial
  nodup := nodup_nil
  ready_head := rfl
  ready_tail := rfl
  blocked_head := rfl
  alone _ _ _ := ⟨rfl, rfl⟩

variable {s : Lists} {ready blocked : List ThreadPtr} {t c : ThreadPtr}

section

variable (h : Shape s ready blocked)
include h

theorem Shape.ready_nodup : ready.Nodup :=
  (nodup_append.mp h.nodup).1

theorem Shape.blocked_nodup : blocked.Nodup :=
  (nodup_append.mp h.nodup).2.1

theorem Shape.not_both (hr : c ∈ ready) (hb : c ∈ blocked) : False :=
  (nodup_append.mp h.nodup).2.2 c hr c hb rfl

end

theorem middle {l₁ l₂ : List ThreadPtr} (h : (l₁ ++ t :: l₂).Nodup) :
    t ∉ l₁ ++ l₂ ∧ (l₁ ++ t :: l₂).erase t = l₁ ++ l₂ := by
  have hnot := (nodup_cons.mp (nodup_middle.mp h)).1
  have hfront : t ∉ l₁ := fun hmem => hnot (mem_append_left _ hmem)
  exact ⟨hnot, by rw [erase_append_right _ hfront, erase_cons_head]⟩

theorem prev_ne_self {l : List ThreadPtr} (h : Linked s.next s.prev none l none) (ht : t ∈ l) :
    s.prev t ≠ some t := by
  rw [Ne, ← h.next_iff_prev ht ht]
  exact h.chain.next_ne_self ht

/-! ## Removing a thread from the ready list -/

theorem threadRemoveFromReadyList_eq (hself : s.prev t ≠ some t) : s.threadRemoveFromReadyList t =
      { next := fun c => if c = t then none else if s.prev t = some c then s.next t else s.next c
        prev := fun c => if c = t then none else if s.next t = some c then s.prev t else s.prev c
        readyHead := if s.prev t = none then s.next t else s.readyHead
        readyTail := if s.next t = none then s.prev t else s.readyTail
        blockedHead := s.blockedHead } := by
  unfold threadRemoveFromReadyList
  cases hp : s.prev t with
  | none => cases hn : s.next t <;>
    simp [setNext, setPrev, hn, hp, funext_iff, update_apply, eq_comm]
  | some p =>
    have hpt : t ≠ p := fun heq => hself (hp.trans (congrArg some heq.symm))
    cases hn : s.next t <;> simp [setNext, setPrev, hn, hp, funext_iff, update_apply, hpt, eq_comm]

theorem Shape.remove (h : Shape s ready blocked) (ht : t ∈ ready) :
    Shape (s.threadRemoveFromReadyList t) (ready.erase t) blocked := by
  rw [threadRemoveFromReadyList_eq (prev_ne_self h.ready_linked ht)]
  obtain ⟨l₁, l₂, rfl⟩ := append_of_mem ht
  obtain ⟨hprev, hnext⟩ := h.ready_linked.fields
  obtain ⟨hnot, herase⟩ := middle h.ready_nodup
  rw [herase]
  have hne : ∀ c ∈ l₁ ++ l₂, c ≠ t := by
    rintro c hc rfl
    exact hnot hc
  -- the neighbours of the thread are in the ready list
  have hother : ∀ c, c ∉ l₁ ++ t :: l₂ → c ≠ t ∧ s.prev t ≠ some c ∧
    s.next t ≠ some c := fun c hc =>
    ⟨fun heq => hc (heq ▸ ht), fun heq => hc (h.ready_linked.prev_mem ht heq),
      fun heq => hc (h.ready_linked.chain.next_mem ht heq)⟩
  constructor
  · apply h.ready_linked.unlink
    · exact fun c hc => if_neg (hne c hc)
    · exact fun c hc => if_neg (hne c hc)
  · apply h.blocked_linked.congr <;> intro c hc
    all_goals simp [hother c fun hr => h.not_both hr hc]
  · have hsub : (l₁ ++ l₂).Sublist (l₁ ++ t :: l₂) := (sublist_cons_self t l₂).append_left l₁
    exact Nodup.sublist (hsub.append_right blocked) h.nodup
  · rw [h.ready_head]
    exact h.ready_linked.head_unlink.symm
  · rw [h.ready_tail, hprev, hnext]
    cases l₂ with
    | nil => simp
    | cons b l₂ => simp [getLast?_append]
  · exact h.blocked_head
  · intro c hr hb
    by_cases hct : c = t
    · simp [hct]
    · have hc : c ∉ l₁ ++ t :: l₂ := by simpa [hct] using hr
      simpa [hother c hc] using h.alone c hc hb

/-- A thread in no list is removed from the ready list, which is empty. -/
theorem Shape.remove_alone (h : Shape s [] blocked) (ht : t ∉ blocked) :
    Shape (s.threadRemoveFromReadyList t) [] blocked := by
  obtain ⟨hnext, hprev⟩ := h.alone t not_mem_nil ht
  have hsame : s.threadRemoveFromReadyList t = s := by
    have hhead : s.readyHead = none := h.ready_head
    have htail : s.readyTail = none := h.ready_tail
    cases s
    simp_all [threadRemoveFromReadyList, setNext, setPrev]
  rw [hsame]
  exact h

/-! ## Adding a thread to a list -/

/-- The lists are in shape, up to the fields of a thread in none of them. -/
structure ShapeBut (t : ThreadPtr) (s : Lists) (ready blocked : List ThreadPtr) : Prop where
  ready_linked : Linked s.next s.prev none ready none
  blocked_linked : Linked s.next s.prev none blocked none
  nodup : (t :: (ready ++ blocked)).Nodup
  ready_head : s.readyHead = ready.head?
  ready_tail : s.readyTail = ready.getLast?
  blocked_head : s.blockedHead = blocked.head?
  alone : ∀ c, c ≠ t → c ∉ ready → c ∉ blocked → s.next c = none ∧ s.prev c = none

theorem Shape.but (h : Shape s ready blocked) (hr : t ∉ ready) (hb : t ∉ blocked) :
    ShapeBut t s ready blocked where
  ready_linked := h.ready_linked
  blocked_linked := h.blocked_linked
  nodup := nodup_cons.mpr ⟨by simp [hr, hb], h.nodup⟩
  ready_head := h.ready_head
  ready_tail := h.ready_tail
  blocked_head := h.blocked_head
  alone c _ := h.alone c

section ShapeBut

variable (h : ShapeBut t s ready blocked)
include h

theorem ShapeBut.not_ready : t ∉ ready := fun hmem =>
  (nodup_cons.mp h.nodup).1 (mem_append_left _ hmem)

theorem ShapeBut.not_blocked : t ∉ blocked := fun hmem =>
  (nodup_cons.mp h.nodup).1 (mem_append_right _ hmem)

theorem ShapeBut.ne_of_ready (hc : c ∈ ready) : c ≠ t := fun heq =>
  h.not_ready (heq ▸ hc)

theorem ShapeBut.ne_of_blocked (hc : c ∈ blocked) : c ≠ t := fun heq =>
  h.not_blocked (heq ▸ hc)

theorem ShapeBut.not_both (hr : c ∈ ready) (hb : c ∈ blocked) : False :=
  (nodup_append.mp (nodup_cons.mp h.nodup).2).2.2 c hr c hb rfl

end ShapeBut

theorem threadAddToReadyList_eq (hne : s.readyTail ≠ some t) : s.threadAddToReadyList t =
    { next := fun c => if c = t then none else if s.readyTail = some c then some t else s.next c
      prev := fun c => if c = t then s.readyTail else s.prev c
      readyHead := if s.readyTail = none then some t else s.readyHead
      readyTail := some t
      blockedHead := s.blockedHead } := by
  unfold threadAddToReadyList
  cases htail : s.readyTail with
  | none => simp [setNext, setPrev, htail, funext_iff, update_apply]
  | some tail =>
    have htt : t ≠ tail := fun heq => hne (htail.trans (congrArg some heq.symm))
    simp only [setNext, setPrev, htail, mk.injEq, funext_iff, update_apply]
    refine ⟨fun c => ?_, by simp⟩
    split_ifs <;> simp_all

theorem ShapeBut.add (h : ShapeBut t s ready blocked) :
    Shape (s.threadAddToReadyList t) (ready ++ [t]) blocked := by
  have htail : ∀ c, s.readyTail = some c → c ∈ ready := by
    intro c hc
    rw [h.ready_tail] at hc
    exact mem_of_getLast? hc
  rw [threadAddToReadyList_eq fun heq => h.not_ready (htail t heq)]
  have hother : ∀ c, c ∉ ready → s.readyTail ≠ some c := fun c hc heq => hc (htail c heq)
  constructor
  · apply h.ready_linked.snoc
    · exact if_pos rfl
    · exact (if_pos rfl).trans h.ready_tail
    · intro c hc
      exact (if_neg (h.ne_of_ready hc)).trans (by rw [h.ready_tail])
    · exact fun c hc => if_neg (h.ne_of_ready hc)
  · apply h.blocked_linked.congr <;> intro c hc
    all_goals simp [h.ne_of_blocked hc, hother c fun hr => h.not_both hr hc]
  · have hperm : (t :: (ready ++ blocked)).Perm (ready ++ [t] ++ blocked) := by
      rw [append_assoc, singleton_append]
      exact perm_middle.symm
    exact hperm.nodup_iff.mp h.nodup
  · rw [h.ready_tail, h.ready_head]
    cases ready with
    | nil => rfl
    | cons a l => simp
  · simp
  · exact h.blocked_head
  · intro c hr hb
    have hc : c ≠ t ∧ c ∉ ready := by
      rw [mem_append, not_or, mem_singleton] at hr
      exact ⟨hr.2, hr.1⟩
    simpa [hc.1, hother c hc.2] using h.alone c hc.1 hc.2 hb

theorem addToBlockedList_eq (s : Lists) (t : ThreadPtr) : s.addToBlockedList t = { s with
      next := fun c => if c = t then s.blockedHead else s.next c
      prev := fun c => if c = t then none else if s.blockedHead = some c then some t else s.prev c
      blockedHead := some t } := by
  unfold addToBlockedList
  cases hhead : s.blockedHead <;> simp [setNext, setPrev, hhead, funext_iff, update_apply, eq_comm]

theorem ShapeBut.addBlocked (h : ShapeBut t s ready blocked) :
    Shape (s.addToBlockedList t) ready (t :: blocked) := by
  rw [addToBlockedList_eq]
  have hother : ∀ c, c ∉ blocked → s.blockedHead ≠ some c := by
    intro c hc
    rw [h.blocked_head]
    exact fun heq => hc (mem_of_head? heq)
  constructor
  · apply h.ready_linked.congr <;> intro c hc
    all_goals simp [h.ne_of_ready hc, hother c fun hb => h.not_both hc hb]
  · apply h.blocked_linked.push
    · exact (if_pos rfl).trans h.blocked_head
    · exact if_pos rfl
    · exact fun c hc => if_neg (h.ne_of_blocked hc)
    · intro c hc
      exact (if_neg (h.ne_of_blocked hc)).trans (by rw [h.blocked_head])
  · exact perm_middle.nodup_iff.mpr h.nodup
  · exact h.ready_head
  · exact h.ready_tail
  · rfl
  · intro c hr hb
    rw [mem_cons, not_or] at hb
    simpa [hb.1, hother c hb.2] using h.alone c hb.1 hr hb.2

theorem removeFromBlockedList_eq (hself : s.prev t ≠ some t) : s.removeFromBlockedList t = { s with
      next := fun c => if s.prev t = some c then s.next t else s.next c
      prev := fun c => if s.next t = some c then s.prev t else s.prev c
      blockedHead := if s.prev t = none then s.next t else s.blockedHead } := by
  unfold removeFromBlockedList
  cases hp : s.prev t with
  | none => cases hn : s.next t <;> simp [setPrev, hn, hp, funext_iff, update_apply, eq_comm]
  | some p =>
    have hpt : t ≠ p := fun heq => hself (hp.trans (congrArg some heq.symm))
    cases hn : s.next t <;> simp [setNext, setPrev, hn, hp, funext_iff, update_apply, hpt, eq_comm]

theorem Shape.removeBlocked (h : Shape s ready blocked) (ht : t ∈ blocked) :
    ShapeBut t (s.removeFromBlockedList t) ready (blocked.erase t) := by
  rw [removeFromBlockedList_eq (prev_ne_self h.blocked_linked ht)]
  obtain ⟨l₁, l₂, rfl⟩ := append_of_mem ht
  obtain ⟨-, herase⟩ := middle h.blocked_nodup
  rw [herase]
  have hother : ∀ c, c ∉ l₁ ++ t :: l₂ → s.prev t ≠ some c ∧ s.next t ≠ some c := fun c hc =>
    ⟨fun heq => hc (h.blocked_linked.prev_mem ht heq),
      fun heq => hc (h.blocked_linked.chain.next_mem ht heq)⟩
  constructor
  · apply h.ready_linked.congr <;> intro c hc
    all_goals simp [hother c fun hb => h.not_both hc hb]
  · exact h.blocked_linked.unlink (fun _ _ => rfl) fun _ _ => rfl
  · have hperm : (ready ++ (l₁ ++ t :: l₂)).Perm (t :: (ready ++ (l₁ ++ l₂))) := by
      rw [← append_assoc, ← append_assoc]
      exact perm_middle
    exact hperm.nodup_iff.mp h.nodup
  · exact h.ready_head
  · exact h.ready_tail
  · rw [h.blocked_head]
    exact h.blocked_linked.head_unlink.symm
  · intro c hct hr hb
    have hc : c ∉ l₁ ++ t :: l₂ := by simpa [hct] using hb
    simpa [hother c hc] using h.alone c hr hc

end Lists

end UintOS.Threads
