import UintOS.Kernel.Threads.Model
import UintOS.Library.Runs

/-!
# The lists of threads are well formed

The ready list has the threads that are ready or running except the main thread, the blocked list
those that are blocked, and a freed thread is in no list and not in the table.

A thread is removed from the ready list when it ends or blocks, and again when it is cleaned up.
Where it is in no list, all others are lost from the ready list. So the lists stay well formed as
long as threads are only cleaned up, and the main thread only ends or blocks, while the ready list
is empty.
-/

namespace UintOS.Threads

open SlotTable Links Runs

def Thread.Active (t : Thread) : Prop := t.state = .ready ∨ t.state = .running

instance (t : Thread) : Decidable t.Active := inferInstanceAs (Decidable (_ ∨ _))

/-- The lists are well formed, and what has been freed is not used. -/
structure WellFormed (s : System) (ready blocked : List ThreadPtr) : Prop where
  ready_linked : Linked s.lists.next s.lists.prev none ready none
  ready_nodup : ready.Nodup
  ready_head : s.lists.readyHead = ready.head?
  ready_tail : s.lists.readyTail = ready.getLast?
  blocked_linked : Linked s.lists.next s.lists.prev none blocked none
  blocked_nodup : blocked.Nodup
  blocked_head : s.lists.blockedHead = blocked.head?
  ready_iff : ∀ t, t ∈ ready ↔ Mem s.threads t ∧ t ≠ mainThread ∧ (s.thread t).Active
  blocked_iff : ∀ t, t ∈ blocked ↔ Mem s.threads t ∧ (s.thread t).state = .blocked
  freed_once : ∀ t, s.frees t ≤ 1 ∧ s.stackFrees t ≤ 1
  freed_gone : ∀ t, 0 < s.frees t ∨ 0 < s.stackFrees t →
    ¬ Mem s.threads t ∧ t ∉ ready ∧ t ∉ blocked

/-- What carries over from call to call. A thread with a signalled semaphore has ended. -/
structure Inv (s : System) (ready blocked : List ThreadPtr) : Prop where
  shape : s.lists.Shape ready blocked
  ready_iff : ∀ t, t ∈ ready ↔ Mem s.threads t ∧ t ≠ mainThread ∧ (s.thread t).Active
  blocked_iff : ∀ t, t ∈ blocked ↔ Mem s.threads t ∧ (s.thread t).state = .blocked
  once : Distinct (fun t => t) s.threads
  main_allocated : mainThread < s.allocated
  allocated : ∀ t, Mem s.threads t → t < s.allocated
  freed_once : ∀ t, s.frees t ≤ 1 ∧ s.stackFrees t ≤ 1
  not_freed : ∀ t, Mem s.threads t ∨ s.allocated ≤ t → s.frees t = 0 ∧ s.stackFrees t = 0
  semaphore : ∀ t, Mem s.threads t → 0 < (s.thread t).joinSemaphore → (s.thread t).state = .zombie
  not_dead : ∀ t, Mem s.threads t → (s.thread t).state ≠ .dead

section Calls

variable {s u : System} {ready blocked : List ThreadPtr} {t : ThreadPtr} {id : ThreadId}

section

variable {d : Thread} (h : Inv s ready blocked)
include h

theorem Inv.wellFormed : WellFormed s ready blocked where
  ready_linked := h.shape.ready_linked
  ready_nodup := h.shape.ready_nodup
  ready_head := h.shape.ready_head
  ready_tail := h.shape.ready_tail
  blocked_linked := h.shape.blocked_linked
  blocked_nodup := h.shape.blocked_nodup
  blocked_head := h.shape.blocked_head
  ready_iff := h.ready_iff
  blocked_iff := h.blocked_iff
  freed_once := h.freed_once
  freed_gone t hfreed := by
    have hmem : ¬ Mem s.threads t := by
      intro hmem
      obtain ⟨hfrees, hstack⟩ := h.not_freed t (.inl hmem)
      omega
    exact ⟨hmem, fun hr => hmem ((h.ready_iff t).mp hr).1,
      fun hb => hmem ((h.blocked_iff t).mp hb).1⟩

theorem Inv.congr (hlists : u.lists = s.lists)
    (hthreads : u.threads = s.threads) (hthread : u.thread = s.thread)
    (hallocated : u.allocated = s.allocated) (hfrees : u.frees = s.frees)
    (hstack : u.stackFrees = s.stackFrees) : Inv u ready blocked := by
  obtain ⟨⟩ := u
  subst hlists hthreads hthread hallocated hfrees hstack
  exact { h with }

theorem Inv.move (ht : Mem s.threads t) {lists : Lists}
    {ready' blocked' : List ThreadPtr} (hshape : lists.Shape ready' blocked')
    (hothers : ∀ c, c ≠ t → (c ∈ ready' ↔ c ∈ ready) ∧ (c ∈ blocked' ↔ c ∈ blocked))
    (hready : t ∈ ready' ↔ t ≠ mainThread ∧ d.Active) (hblk : t ∈ blocked' ↔ d.state = .blocked)
    (hsem : 0 < d.joinSemaphore → d.state = .zombie) (hdead : d.state ≠ .dead) :
    Inv { s.setThread t d with lists := lists } ready' blocked' where
  shape := hshape
  ready_iff c := by
    by_cases hc : c = t
    · subst hc
      simp [System.setThread, hready, ht]
    · simp [System.setThread, hc, hothers c hc, h.ready_iff c]
  blocked_iff c := by
    by_cases hc : c = t
    · subst hc
      simp [System.setThread, hblk, ht]
    · simp [System.setThread, hc, hothers c hc, h.blocked_iff c]
  once := h.once
  main_allocated := h.main_allocated
  allocated := h.allocated
  freed_once := h.freed_once
  not_freed := h.not_freed
  semaphore c hmem := by
    by_cases hc : c = t
    · subst hc
      simpa [System.setThread] using hsem
    · simpa [System.setThread, hc] using h.semaphore c hmem
  not_dead c hmem := by
    by_cases hc : c = t
    · subst hc
      simpa [System.setThread] using hdead
    · simpa [System.setThread, hc] using h.not_dead c hmem

theorem Inv.setThread (ht : Mem s.threads t) (hactive : d.Active ↔ (s.thread t).Active)
    (hblk : d.state = .blocked ↔ (s.thread t).state = .blocked)
    (hsem : 0 < d.joinSemaphore → d.state = .zombie) (hdead : d.state ≠ .dead) :
    Inv (s.setThread t d) ready blocked := by
  apply h.move ht h.shape (fun c _ => ⟨Iff.rfl, Iff.rfl⟩) _ _ hsem hdead
  · rw [h.ready_iff t, hactive]
    exact and_iff_right ht
  · rw [h.blocked_iff t, hblk]
    exact and_iff_right ht

end

/-! ## The scheduler -/

section

variable (h : Inv s ready blocked)
include h

theorem Inv.preempt : Inv (preempt s) ready blocked := by
  unfold Threads.preempt
  split
  · exact h
  · rename_i t hcur
    split
    · rename_i hrunning
      have hmem := mem_of_threadGetCurrent hcur
      apply h.setThread hmem
      · simp [Thread.Active, hrunning]
      · simp [hrunning]
      · intro hsem
        rw [h.semaphore t hmem hsem] at hrunning
        cases hrunning
      · simp
    · exact h

theorem Inv.threadScheduler (hu : threadScheduler s = some u) : Inv u ready blocked := by
  rcases threadScheduler_cases hu with rfl | ⟨l, t, hchain, hhead, ht, -, rfl⟩
  · exact h
  · obtain rfl : l = ready :=
      hchain.unique h.shape.ready_linked.chain (hhead.trans h.shape.ready_head)
    have hp := h.preempt
    obtain ⟨hmem, -, hactive⟩ := (hp.ready_iff t).mp ht
    have hrun : Inv ((Threads.preempt s).setThread t
        { (Threads.preempt s).thread t with state := .running }) l blocked := by
      apply hp.setThread hmem
      · exact iff_of_true (.inr rfl) hactive
      · rcases hactive with hst | hst <;> simp [hst]
      · intro hsem
        rcases hactive with hst | hst <;> simp [hp.semaphore t hmem hsem] at hst
      · simp
    exact hrun.congr rfl rfl rfl rfl rfl rfl

/-! ## Threads that end or block -/

/-- The thread may be removed from the ready list: it is in it, or the main thread and the list is
empty. -/
def Leaves (s : System) (t : ThreadPtr) : Prop :=
  (s.thread t).Active ∧ (t = mainThread → s.lists.readyHead = none)

instance : Decidable (Leaves s t) := inferInstanceAs (Decidable (_ ∧ _))

theorem Inv.ready_eq_nil (hhead : s.lists.readyHead = none) : ready = [] := by
  rw [h.shape.ready_head] at hhead
  exact List.head?_eq_none_iff.mp hhead

theorem Inv.not_blocked (hst : (s.thread t).state ≠ .blocked) :
    t ∉ blocked := fun hmem => hst ((h.blocked_iff t).mp hmem).2

theorem Inv.shape_leave (ht : Mem s.threads t) (hleaves : Leaves s t) :
    (s.lists.threadRemoveFromReadyList t).Shape (ready.erase t) blocked := by
  by_cases hmain : t = mainThread
  · obtain rfl := h.ready_eq_nil (hleaves.2 hmain)
    apply h.shape.remove_alone
    apply h.not_blocked
    rcases hleaves.1 with hst | hst <;> simp [hst]
  · exact h.shape.remove ((h.ready_iff t).mpr ⟨ht, hmain, hleaves.1⟩)

end

theorem Leaves.not_blocked (hleaves : Leaves s t) : (s.thread t).state ≠ .blocked := by
  rcases hleaves.1 with hst | hst <;> simp [hst]

section

variable (h : Inv s ready blocked) (ht : Mem s.threads t)
include h ht

theorem Inv.becomeZombie (hleaves : Leaves s t)
    (exitCode : ℤ) : Inv (becomeZombie s t exitCode) (ready.erase t) blocked := by
  have hnodup := h.shape.ready_nodup
  have hmove : Inv { s.setThread t { s.thread t with
      state := .zombie
      exitCode := exitCode
      joinSemaphore := if (s.thread t).joinSemaphore < 1 then (s.thread t).joinSemaphore + 1
        else (s.thread t).joinSemaphore } with
    lists := s.lists.threadRemoveFromReadyList t } (ready.erase t) blocked := by
    apply h.move ht (h.shape_leave ht hleaves)
    · intro c hc
      exact ⟨List.mem_erase_of_ne hc, Iff.rfl⟩
    · simp [Thread.Active, hnodup.mem_erase_iff]
    · simpa using h.not_blocked hleaves.not_blocked
    · exact fun _ => rfl
    · simp
  exact hmove.congr rfl rfl rfl rfl rfl rfl

theorem Inv.becomeBlocked
    (hleaves : Leaves s t) : Inv (becomeBlocked s t) (ready.erase t) (t :: blocked) := by
  have hnodup := h.shape.ready_nodup
  have hnot := h.not_blocked hleaves.not_blocked
  have hgone : t ∉ ready.erase t := by simp [hnodup.mem_erase_iff]
  apply h.move ht ((h.shape_leave ht hleaves).but hgone hnot).addBlocked
  · intro c hc
    exact ⟨List.mem_erase_of_ne hc, by simp [hc]⟩
  · simp [Thread.Active, hnodup.mem_erase_iff]
  · simp
  · intro hsem
    rcases hleaves.1 with hst | hst <;> simp [h.semaphore t ht hsem] at hst
  · simp

theorem Inv.unblocked (hst : (s.thread t).state = .blocked) (hmain : t ≠ mainThread) :
    Inv { s.setThread t { s.thread t with state := .ready } with
      lists := (s.lists.removeFromBlockedList t).threadAddToReadyList t }
      (ready ++ [t]) (blocked.erase t) := by
  have hmem := (h.blocked_iff t).mpr ⟨ht, hst⟩
  have hnodup := h.shape.blocked_nodup
  apply h.move ht (h.shape.removeBlocked hmem).add
  · intro c hc
    exact ⟨by simp [hc], List.mem_erase_of_ne hc⟩
  · simp [Thread.Active, hmain]
  · simp [hnodup.mem_erase_iff]
  · intro hsem
    rw [h.semaphore t ht hsem] at hst
    cases hst
  · simp

end

/-! ## Threads that are created and cleaned up -/

theorem Inv.addThread (h : Inv s ready blocked) {slot : Fin 4096} (hslot : s.threads slot = none)
    (priority : ℤ) (flags : UInt32) :
    Inv (addThread s slot priority flags) (ready ++ [s.allocated]) blocked := by
  have hfr : ¬ Mem s.threads s.allocated := fun hmem => lt_irrefl _ (h.allocated _ hmem)
  have hr : s.allocated ∉ ready := fun hmem => hfr ((h.ready_iff _).mp hmem).1
  have hb : s.allocated ∉ blocked := fun hmem => hfr ((h.blocked_iff _).mp hmem).1
  have hne : ∀ c, Mem s.threads c → c ≠ s.allocated := by
    rintro c hc rfl
    exact hfr hc
  have hmem : ∀ c, Mem (Threads.addThread s slot priority flags).threads c ↔
      c = s.allocated ∨ Mem s.threads c := fun c => mem_fill hslot
  constructor
  · exact (h.shape.but hr hb).add
  · intro c
    rw [hmem, List.mem_append, List.mem_singleton]
    by_cases hc : c = s.allocated
    · subst hc
      have hmain : s.allocated ≠ mainThread := h.main_allocated.ne'
      simp [Threads.addThread, System.setThread, Thread.Active, hmain]
    · simp [Threads.addThread, System.setThread, hc, h.ready_iff c]
  · intro c
    rw [hmem]
    by_cases hc : c = s.allocated
    · subst hc
      simp [Threads.addThread, System.setThread, hb]
    · simp [Threads.addThread, System.setThread, hc, h.blocked_iff c]
  · exact h.once.fill hne
  · exact h.main_allocated.trans (Nat.lt_succ_self _)
  · intro c hc
    rcases (hmem c).mp hc with rfl | hc
    · exact Nat.lt_succ_self _
    · exact (h.allocated c hc).trans (Nat.lt_succ_self _)
  · exact h.freed_once
  · intro c hc
    apply h.not_freed c
    rcases hc with hc | hc
    · rcases (hmem c).mp hc with rfl | hc
      · exact .inr le_rfl
      · exact .inl hc
    · exact .inr ((Nat.le_succ _).trans hc)
  · intro c hc hsem
    rcases (hmem c).mp hc with rfl | hc
    · simp [Threads.addThread, System.setThread] at hsem
    · simp only [Threads.addThread, System.setThread, Function.update_of_ne (hne c hc)]
        at hsem ⊢
      exact h.semaphore c hc hsem
  · intro c hc
    rcases (hmem c).mp hc with rfl | hc
    · simp [Threads.addThread, System.setThread]
    · simp only [Threads.addThread, System.setThread, Function.update_of_ne (hne c hc)]
      exact h.not_dead c hc

theorem Inv.threadCleanUp (h : Inv s [] blocked) (ht : Mem s.threads t)
    (hst : (s.thread t).state = .zombie) : Inv (threadCleanUp s t) [] blocked := by
  have hnot : t ∉ blocked := h.not_blocked (by simp [hst])
  obtain ⟨hfrees, hstack⟩ := h.not_freed t (.inl ht)
  have hmem : ∀ c, Mem (Threads.threadCleanUp s t).threads c ↔ Mem s.threads c ∧ c ≠ t :=
    mem_clearSlot h.once
  have hother : ∀ c, c ≠ t → (Threads.threadCleanUp s t).thread c = s.thread c := fun c hc =>
    Function.update_of_ne hc ..
  constructor
  · exact h.shape.remove_alone hnot
  · intro c
    rw [h.ready_iff c, hmem]
    by_cases hc : c = t
    · subst hc
      simp [hst, Thread.Active]
    · simp [hother c hc, hc]
  · intro c
    rw [h.blocked_iff c, hmem]
    by_cases hc : c = t
    · subst hc
      simp [hst]
    · simp [hother c hc, hc]
  · intro i j a b hi hj hab
    exact h.once i j a b (clearSlot_some hi) (clearSlot_some hj) hab
  · exact h.main_allocated
  · intro c hc
    exact h.allocated c ((hmem c).mp hc).1
  · intro c
    by_cases hc : c = t
    · subst hc
      cases hs : (s.thread c).stack <;> simp [Threads.threadCleanUp, hs, hfrees, hstack]
    · have hold := h.freed_once c
      cases hs : (s.thread t).stack <;> simpa [Threads.threadCleanUp, hs, hc] using hold
  · intro c hc
    have hct : c ≠ t := by
      rintro rfl
      rcases hc with hc | hc
      · exact ((hmem c).mp hc).2 rfl
      · exact absurd (h.allocated c ht) (not_lt.mpr hc)
    have hold := h.not_freed c (hc.imp_left fun hc => ((hmem c).mp hc).1)
    cases hs : (s.thread t).stack <;> simpa [Threads.threadCleanUp, hs, hct] using hold
  · intro c hc
    obtain ⟨hc, hne⟩ := (hmem c).mp hc
    rw [hother c hne]
    exact h.semaphore c hc
  · intro c hc
    obtain ⟨hc, hne⟩ := (hmem c).mp hc
    rw [hother c hne]
    exact h.not_dead c hc

theorem Inv.erase_eq_nil (h : Inv s ready blocked) (ht : Mem s.threads t) (hleaves : Leaves s t)
    (hnext : s.lists.next t = none) (hprev : s.lists.prev t = none) : ready.erase t = [] := by
  by_cases hmain : t = mainThread
  · rw [h.ready_eq_nil (hleaves.2 hmain)]
    rfl
  · obtain ⟨l₁, l₂, rfl⟩ := List.append_of_mem ((h.ready_iff t).mpr ⟨ht, hmain, hleaves.1⟩)
    obtain ⟨hlast, hhead⟩ := h.shape.ready_linked.fields
    rw [hprev] at hlast
    rw [hnext] at hhead
    rw [List.getLast?_eq_none_iff.mp hlast.symm, List.head?_eq_none_iff.mp hhead.symm]
    simp

/-! ## Calls -/

/-- The condition on a call: a thread that ends or blocks is in the ready list, or the main thread
and the list is empty; a detached thread that ends is alone in it; the main thread is not unblocked;
a thread that has ended is joined or detached while the ready list is empty. -/
def Careful (s : System) : Call → Prop
  | .create .. => True
  | .yield => True
  | .block => ∀ t ∈ threadGetCurrent s, Leaves s t
  | .unblock id => threadGetById s id = some mainThread → (s.thread mainThread).state ≠ .blocked
  | .exit _ => ∀ t ∈ threadGetCurrent s, Leaves s t ∧
      ((s.thread t).detached = true → s.lists.next t = none ∧ s.lists.prev t = none)
  | .join id _ => ∀ t ∈ threadGetById s id, (s.thread t).state = .zombie → s.lists.readyHead = none
  | .detach id => ∀ t ∈ threadGetById s id, (s.thread t).state = .zombie → s.lists.readyHead = none

instance decidableCareful (s : System) : (c : Call) → Decidable (Careful s c)
  | .create .. | .yield => inferInstanceAs (Decidable True)
  | .unblock _ => inferInstanceAs (Decidable (_ → _))
  | .block => inferInstanceAs (Decidable (∀ t ∈ _, Leaves s t))
  | .exit _ => inferInstanceAs (Decidable (∀ t ∈ _, Leaves s t ∧ (_ → _)))
  | .join _ _ | .detach _ => inferInstanceAs (Decidable (∀ t ∈ _, _ → _))

def Listed (s : System) : Prop := ∃ ready blocked, Inv s ready blocked

section

variable (h : Inv s ready blocked)
include h

theorem Inv.threadCreate (entryPoint : Bool) (priority : ℤ)
    (flags : UInt32) : Listed (threadCreate s entryPoint priority flags) := by
  unfold Threads.threadCreate
  split
  · exact ⟨_, _, h⟩
  · split
    · exact ⟨_, _, h⟩
    · split
      · exact ⟨_, _, h⟩
      · rename_i slot hfree
        exact ⟨_, _, h.addThread (firstFree_some hfree) priority flags⟩

theorem Inv.threadBlock (hcare : Careful s .block) (hu : threadBlock s = some u) : Listed u := by
  unfold Threads.threadBlock at hu
  split at hu
  · cases hu
    exact ⟨_, _, h⟩
  · rename_i t hcur
    have hblk := h.becomeBlocked (mem_of_threadGetCurrent hcur) (hcare t hcur)
    exact ⟨_, _, hblk.threadScheduler hu⟩

theorem Inv.threadUnblock (hcare : Careful s (.unblock id)) : Listed (threadUnblock s id) := by
  unfold Threads.threadUnblock
  split
  · exact ⟨_, _, h⟩
  · rename_i t hfound
    split
    · exact ⟨_, _, h⟩
    · rename_i hst
      have hmain : t ≠ mainThread := by
        rintro rfl
        exact hst (hcare hfound)
      exact ⟨_, _, h.unblocked (threadGetById_some hfound).1 (not_not.mp hst) hmain⟩

theorem Inv.recordExit (exitCode : ℤ) : Inv (recordExit s exitCode) ready blocked := by
  unfold Threads.recordExit
  split
  · exact h
  · exact h.congr rfl rfl rfl rfl rfl rfl

end

theorem careful_recordExit (exitCode : ℤ) (hcare : Careful s (.exit exitCode)) :
    Careful (recordExit s exitCode) (.exit exitCode) := by
  unfold recordExit
  split <;> exact hcare

section

variable (h : Inv s ready blocked)
include h

theorem Inv.threadExit {exitCode : ℤ}
    (hcare : Careful s (.exit exitCode)) (hu : threadExit s exitCode = some u) : Listed u := by
  have hrecord := h.recordExit exitCode
  have hcare := careful_recordExit exitCode hcare
  unfold Threads.threadExit at hu
  generalize Threads.recordExit s exitCode = r at hu hrecord hcare
  dsimp only at hu
  split at hu
  · cases hu
    exact ⟨_, _, hrecord⟩
  · rename_i t hcur
    have ht := mem_of_threadGetCurrent hcur
    obtain ⟨hleaves, halone⟩ := hcare t hcur
    have hzombie := hrecord.becomeZombie ht hleaves exitCode
    split at hu
    · rename_i hdetached
      have hold : (r.thread t).detached = true := by
        simpa [Threads.becomeZombie, System.setThread, Thread.detached] using hdetached
      obtain ⟨hnext, hprev⟩ := halone hold
      rw [hrecord.erase_eq_nil ht hleaves hnext hprev] at hzombie
      have hclean := hzombie.threadCleanUp ht (by simp [Threads.becomeZombie, System.setThread])
      exact ⟨_, _, hclean.threadScheduler hu⟩
    · exact ⟨_, _, hzombie.threadScheduler hu⟩

theorem Inv.collect (ht : Mem s.threads t)
    (hst : (s.thread t).state = .zombie) (hhead : s.lists.readyHead = none) (id : ThreadId)
    (exitCode : Bool) : Listed (collect s t id exitCode) := by
  obtain rfl := h.ready_eq_nil hhead
  unfold Threads.collect
  dsimp only
  split
  · have hrecord : Inv { s with joined := (id, (s.thread t).exitCode) :: s.joined } [] blocked :=
      h.congr rfl rfl rfl rfl rfl rfl
    exact ⟨_, _, hrecord.threadCleanUp ht hst⟩
  · exact ⟨_, _, h.threadCleanUp ht hst⟩

theorem Inv.threadJoin {exitCode : Bool}
    (hcare : Careful s (.join id exitCode)) (hu : threadJoin s id exitCode = some u) :
    Listed u := by
  rcases threadJoin_cases (fun t ht => ⟨h.not_dead t ht, h.semaphore t ht⟩) hu with
    rfl | ⟨t, hfound, hzombie, rfl⟩
  · exact ⟨_, _, h⟩
  · exact h.collect (threadGetById_some hfound).1 hzombie (hcare t hfound hzombie) id exitCode

theorem Inv.threadDetach (hcare : Careful s (.detach id)) : Listed (threadDetach s id) := by
  unfold Threads.threadDetach
  split
  · exact ⟨_, _, h⟩
  · rename_i t hfound
    have ht := (threadGetById_some hfound).1
    have hflags : Inv (s.setThread t { s.thread t with flags := (s.thread t).flags ||| 4 })
        ready blocked :=
      h.setThread ht Iff.rfl Iff.rfl (h.semaphore t ht) (h.not_dead t ht)
    dsimp only
    split
    · rename_i hzombie
      have hold : (s.thread t).state = .zombie := by simpa [System.setThread] using hzombie
      obtain rfl := h.ready_eq_nil (hcare t hfound hold)
      exact ⟨_, _, hflags.threadCleanUp ht hzombie⟩
    · exact ⟨_, _, hflags⟩

end

theorem listed_step (s : System) (c : Call) (u : System) (h : Listed s) (hcare : Careful s c)
    (hu : step s c = some u) : Listed u := by
  obtain ⟨ready, blocked, h⟩ := h
  unfold step at hu
  split at hu
  · cases hu
  · cases c with
    | create entryPoint priority flags =>
      cases hu
      exact h.threadCreate entryPoint priority flags
    | yield => exact ⟨_, _, h.threadScheduler hu⟩
    | block => exact h.threadBlock hcare hu
    | unblock id =>
      cases hu
      exact h.threadUnblock hcare
    | exit exitCode => exact h.threadExit hcare hu
    | join id exitCode => exact h.threadJoin hcare hu
    | detach id =>
      cases hu
      exact h.threadDetach hcare

end Calls

theorem inv_init : Inv threadInit [] [] := by
  have hmem : ∀ t, Mem threadInit.threads t ↔ t = mainThread := by
    intro t
    refine (mem_fill rfl).trans (or_iff_left ?_)
    rintro ⟨i, hi⟩
    cases hi
  constructor
  · exact Lists.shape_empty
  · intro t
    rw [hmem]
    exact iff_of_false List.not_mem_nil fun h => h.2.1 h.1
  · intro t
    refine iff_of_false List.not_mem_nil ?_
    rintro ⟨ht, hst⟩
    rw [(hmem t).mp ht] at hst
    cases hst
  · apply Distinct.fill
    · intro i j a b hi
      cases hi
    · rintro b ⟨i, hi⟩
      cases hi
  · exact Nat.zero_lt_one
  · intro t ht
    rw [(hmem t).mp ht]
    exact Nat.zero_lt_one
  · intro t
    exact ⟨Nat.zero_le _, Nat.zero_le _⟩
  · intro t _
    exact ⟨rfl, rfl⟩
  · intro t ht hsem
    rw [(hmem t).mp ht] at hsem
    cases hsem
  · intro t ht
    rw [(hmem t).mp ht]
    decide

/-- In every run of careful calls the lists stay well formed. -/
theorem lists_stay_well_formed (calls : List Call) (h : Meets step Careful threadInit calls) :
    Throughout step (fun s => ∃ ready blocked, WellFormed s ready blocked) threadInit calls :=
  (throughout_of_meets step listed_step ⟨_, _, inv_init⟩ h).imp step
    fun _ ⟨ready, blocked, hinv⟩ => ⟨ready, blocked, hinv.wellFormed⟩

/-- A thread blocks when no other is ready, joins one that has ended, and is unblocked. -/
theorem join_of_blocked_well_formed :
    let calls : List Call := [.create true 2 0, .create true 2 0, .yield, .exit 7, .block,
      .join 1 true, .unblock 2, .create true 3 4, .yield, .yield]
    Meets step Careful threadInit calls ∧
      Throughout step (fun s => ∃ ready blocked, WellFormed s ready blocked) threadInit calls := by
  intro calls
  have hmeets : Meets step Careful threadInit calls := by decide +kernel
  exact ⟨hmeets, lists_stay_well_formed calls hmeets⟩

/-- Of two threads, the first ends and the second joins it. -/
def joinWhileReady : List Call :=
  [.create true 2 0, .create true 2 0, .yield, .exit 7, .join 1 true]

theorem joinWhileReady_isSome : (exec step threadInit joinWhileReady).isSome = true := by
  decide +kernel

theorem running_thread_not_listed : ∃ s, exec step threadInit joinWhileReady = some s ∧
    ¬ ∃ ready blocked, WellFormed s ready blocked := by
  refine ⟨_, (Option.some_get joinWhileReady_isSome).symm, ?_⟩
  rintro ⟨ready, blocked, h⟩
  have hnil : ready = [] := by
    apply List.head?_eq_none_iff.mp
    rw [← h.ready_head]
    decide +kernel
  have hmem := (h.ready_iff 2).mpr ⟨⟨2, by decide +kernel⟩, by decide, by decide +kernel⟩
  rw [hnil] at hmem
  cases hmem

end UintOS.Threads
