import UintOS.Kernel.Threads.Model
import UintOS.Library.Runs

/-!
# The ids of threads

`thread_get_current` takes the id of the current thread for its slot, and `thread_get_by_id` knows
no id of 4096 or more. New threads get the next id and the first free slot. So the ids can be relied
on as long as the two agree, which they do not once a slot is used again.
-/

namespace UintOS.Threads

open Function Links Option Runs SlotTable

/-- The running thread is the one that `thread_get_current` returns, a thread not yet cleaned up is
found by its id, and `thread_join` has stored what the thread with the id has passed to
`thread_exit`. -/
structure Reliable (s : System) : Prop where
  current : ∀ t, s.caller = some t →
    threadGetCurrent s = some t ∧ (s.thread t).id = s.currentThreadId
  by_id : ∀ t, t < s.allocated → s.frees t = 0 → threadGetById s (s.thread t).id = some t
  joined : ∀ p ∈ s.joined, ∃ t, s.passed t = some p.2 ∧
    ∀ u, u < s.allocated ∧ (s.thread u).id = p.1 ↔ u = t

/-- The threads are numbered in the order of their creation, and each one is in the slot of its
number until it is cleaned up. -/
structure Numbered (s : System) : Prop where
  ids : ∀ t, t < s.allocated → (s.thread t).id = t
  next_id : s.nextThreadId = s.allocated
  slots : ∀ i t, s.threads i = some t → i.val = t
  alive : ∀ t, Mem s.threads t ↔ t < s.allocated ∧ s.frees t = 0
  unused : ∀ t, s.allocated ≤ t → (s.thread t).state = .new ∧ s.frees t = 0
  freed : ∀ t, 0 < s.frees t → (s.thread t).state = .zombie
  caller : ∀ t, s.caller = some t →
    Mem s.threads t ∧ s.currentThreadId = t ∧ (s.thread t).state ≠ .zombie
  exited : ∀ t, (s.thread t).state = .zombie → s.passed t = some (s.thread t).exitCode
  semaphore : ∀ t, 0 < (s.thread t).joinSemaphore → (s.thread t).state = .zombie
  not_dead : ∀ t, (s.thread t).state ≠ .dead
  joined : ∀ p ∈ s.joined, ∃ t : ThreadPtr, (t : ℤ) = p.1 ∧ t < s.allocated ∧ 0 < s.frees t ∧
    s.passed t = some p.2

section Numbered

variable {s u : System} {t : ThreadPtr} {entryPoint : Bool} {exitCode priority : ℤ} {flags : UInt32}
  {id : ThreadId}

theorem System.setThread_cases (s : System) (t : ThreadPtr) (d : Thread) (c : ThreadPtr) :
    c = t ∧ (s.setThread t d).thread c = d ∨ c ≠ t ∧ (s.setThread t d).thread c = s.thread c := by
  by_cases hct : c = t
  · subst hct
    exact .inl ⟨rfl, update_self ..⟩
  · exact .inr ⟨hct, update_of_ne hct ..⟩

section

variable (h : Numbered s)
include h

theorem Numbered.lt (ht : Mem s.threads t) : t < s.allocated :=
  ((h.alive t).mp ht).1

theorem Numbered.slot (ht : Mem s.threads t) : ∃ hlt : t < 4096, s.threads ⟨t, hlt⟩ = some t := by
  obtain ⟨i, hi⟩ := ht
  obtain rfl := h.slots i t hi
  exact ⟨i.isLt, hi⟩

theorem Numbered.threadGetCurrent (ht : s.caller = some t) : threadGetCurrent s = some t := by
  obtain ⟨hmem, hcur, -⟩ := h.caller t ht
  obtain ⟨hlt, hslot⟩ := h.slot hmem
  have hbounds : 0 ≤ s.currentThreadId ∧ s.currentThreadId < 4096 := by
    rw [hcur]
    exact ⟨Int.natCast_nonneg t, by exact_mod_cast hlt⟩
  unfold Threads.threadGetCurrent
  rw [dif_pos hbounds]
  simpa [hcur] using hslot

theorem Numbered.threadGetById (ht : Mem s.threads t) :
    threadGetById s (s.thread t).id = some t := by
  obtain ⟨hlt, -⟩ := h.slot ht
  have hid := h.ids t (h.lt ht)
  have hbounds : ¬ ((s.thread t).id < 0 ∨ (s.thread t).id ≥ 4096) := by
    rw [hid, not_or]
    exact ⟨not_lt.mpr (Int.natCast_nonneg t), not_le.mpr (by exact_mod_cast hlt)⟩
  unfold Threads.threadGetById
  rw [if_neg hbounds]
  cases hfind : find s.threads fun c => (s.thread c).id = (s.thread t).id with
  | none => simpa using find_none hfind ht
  | some c =>
    obtain ⟨hmem, heq⟩ := find_some hfind
    have heq : (s.thread c).id = (s.thread t).id := by simpa using heq
    rw [h.ids c (h.lt hmem), hid] at heq
    exact congrArg some (by exact_mod_cast heq)

theorem Numbered.reliable : Reliable s where
  current t ht := by
    obtain ⟨hmem, hcur, -⟩ := h.caller t ht
    exact ⟨h.threadGetCurrent ht, (h.ids t (h.lt hmem)).trans hcur.symm⟩
  by_id t hlt hfrees := h.threadGetById ((h.alive t).mpr ⟨hlt, hfrees⟩)
  joined p hp := by
    obtain ⟨t, hid, hlt, -, hpassed⟩ := h.joined p hp
    refine ⟨t, hpassed, fun u => ⟨?_, ?_⟩⟩
    · rintro ⟨hu, huid⟩
      rw [h.ids u hu, ← hid] at huid
      exact_mod_cast huid
    · rintro rfl
      exact ⟨hlt, (h.ids u hlt).trans hid⟩

theorem Numbered.setThread (ht : Mem s.threads t) {d : Thread} (hid : d.id = (s.thread t).id)
    (hexited : d.state = .zombie → s.passed t = some d.exitCode)
    (hcaller : s.caller = some t → d.state ≠ .zombie)
    (hsem : 0 < d.joinSemaphore → d.state = .zombie) (hdead : d.state ≠ .dead) :
    Numbered (s.setThread t d) := by
  obtain ⟨hlt, hfrees⟩ := (h.alive t).mp ht
  refine { h with ids := ?_, unused := ?_, freed := ?_, caller := ?_, exited := ?_, semaphore := ?_,
                  not_dead := ?_ }
  all_goals
    intro c
    rcases s.setThread_cases t d c with ⟨rfl, hc⟩ | ⟨-, hc⟩
    all_goals rw [hc]
  · exact fun hc => hid.trans (h.ids c hc)
  · exact h.ids c
  · exact fun hle => absurd hlt (not_lt.mpr hle)
  · exact h.unused c
  · exact fun hpos => absurd hfrees hpos.ne'
  · exact h.freed c
  · exact fun hc => ⟨ht, (h.caller c hc).2.1, hcaller hc⟩
  · exact h.caller c
  · exact hexited
  · exact h.exited c
  · exact hsem
  · exact h.semaphore c
  · exact hdead
  · exact h.not_dead c

theorem Numbered.setState (ht : Mem s.threads t)
    (hold : (s.thread t).state ≠ .zombie) (state : ThreadState) (hnew : state ≠ .zombie)
    (hdead : state ≠ .dead) : Numbered (s.setThread t { s.thread t with state := state }) :=
  h.setThread ht rfl (fun heq => absurd heq hnew) (fun _ => hnew)
    (fun hsem => absurd (h.semaphore t hsem) hold) hdead

end

/-! ## The scheduler -/

theorem Numbered.preempt (h : Numbered s) : Numbered (preempt s) := by
  unfold Threads.preempt
  split
  · exact h
  · rename_i t hcur
    split
    · rename_i hrunning
      exact h.setState (mem_of_threadGetCurrent hcur) (by simp [hrunning]) .ready (by simp)
        (by simp)
    · exact h

theorem preempt_ready (ht : (s.thread t).state = .ready) :
    ((preempt s).thread t).state = .ready := by
  unfold preempt
  split
  · exact ht
  · rename_i c _
    split
    · by_cases hct : t = c
      · subst hct
        simp [System.setThread]
      · simpa [System.setThread, hct] using ht
    · exact ht

section

variable (h : Numbered s)
include h

theorem Numbered.mem_of_ready (ht : (s.thread t).state = .ready) : Mem s.threads t := by
  apply (h.alive t).mpr
  constructor
  · by_contra hlt
    rw [(h.unused t (not_lt.mp hlt)).1] at ht
    cases ht
  · by_contra hfrees
    rw [h.freed t (Nat.pos_of_ne_zero hfrees)] at ht
    cases ht

theorem Numbered.switchTo (ht : (s.thread t).state = .ready) : Numbered (switchTo s t) := by
  have hmem := h.mem_of_ready ht
  have hrun : Numbered (s.setThread t { s.thread t with state := .running }) :=
    h.setState hmem (by simp [ht]) .running (by simp) (by simp)
  refine { hrun with caller := ?_ }
  rintro _ ⟨⟩
  exact ⟨hmem, h.ids t (h.lt hmem), by simp [Threads.switchTo, System.setThread]⟩

theorem Numbered.threadScheduler (hu : threadScheduler s = some u) : Numbered u := by
  rcases threadScheduler_cases hu with rfl | ⟨l, t, -, -, -, hready, rfl⟩
  · exact h
  · exact h.preempt.switchTo (preempt_ready hready)

/-! ## Threads that are created, end and are cleaned up -/

theorem Numbered.addThread {slot : Fin 4096} (hslot : s.threads slot = none)
    (hid : s.nextThreadId = (slot.val : ℤ)) (priority : ℤ) (flags : UInt32) :
    Numbered (addThread s slot priority flags) := by
  have hval : slot.val = s.allocated := by
    have heq := hid.symm.trans h.next_id
    exact_mod_cast heq
  have hfrees : s.frees s.allocated = 0 := (h.unused _ le_rfl).2
  have hthread := s.setThread_cases s.allocated ⟨s.nextThreadId, .ready,
    if priority < 0 ∨ priority > 5 then 2 else priority, flags, true, 0, 0⟩
  constructor
  · intro c (hc : c < s.allocated + 1)
    rcases hthread c with ⟨rfl, hd⟩ | ⟨hne, hd⟩
    · exact (congrArg Thread.id hd).trans h.next_id
    · exact (congrArg Thread.id hd).trans (h.ids c (lt_of_le_of_ne (Nat.lt_succ_iff.mp hc) hne))
  · change s.nextThreadId + 1 = ((s.allocated + 1 : ℕ) : ℤ)
    rw [h.next_id]
    push_cast
    rfl
  · intro i c hi
    by_cases his : i = slot
    · subst his
      have hc : s.allocated = c := by
        simpa [Threads.addThread, System.setThread] using hi
      exact hval.trans hc
    · apply h.slots i c
      simpa [Threads.addThread, System.setThread, his] using hi
  · intro c
    refine (mem_fill hslot).trans ?_
    rw [h.alive c]
    change _ ↔ c < s.allocated + 1 ∧ s.frees c = 0
    constructor
    · rintro (rfl | ⟨hlt, hc⟩)
      · exact ⟨Nat.lt_succ_self _, hfrees⟩
      · exact ⟨hlt.trans (Nat.lt_succ_self _), hc⟩
    · rintro ⟨hlt, hc⟩
      rcases Nat.lt_succ_iff_lt_or_eq.mp hlt with hlt | rfl
      · exact .inr ⟨hlt, hc⟩
      · exact .inl rfl
  · intro c (hc : s.allocated + 1 ≤ c)
    rcases hthread c with ⟨rfl, -⟩ | ⟨-, hd⟩
    · omega
    · exact ⟨(congrArg Thread.state hd).trans (h.unused c (by omega)).1, (h.unused c (by omega)).2⟩
  · intro c hc
    rcases hthread c with ⟨rfl, -⟩ | ⟨-, hd⟩
    · exact absurd hfrees hc.ne'
    · exact (congrArg Thread.state hd).trans (h.freed c hc)
  · intro c hc
    obtain ⟨hmem, hcur, hst⟩ := h.caller c hc
    refine ⟨(mem_fill hslot).mpr (.inr hmem), hcur, ?_⟩
    rcases hthread c with ⟨rfl, -⟩ | ⟨-, hd⟩
    · exact absurd (h.lt hmem) (lt_irrefl _)
    · exact hd ▸ hst
  · intro c
    rcases hthread c with ⟨rfl, hd⟩ | ⟨-, hd⟩
    · exact fun hst => by cases (congrArg Thread.state hd).symm.trans hst
    · exact hd ▸ h.exited c
  · intro c
    rcases hthread c with ⟨rfl, hd⟩ | ⟨-, hd⟩
    · exact fun hpos => absurd (congrArg Thread.joinSemaphore hd) hpos.ne'
    · exact hd ▸ h.semaphore c
  · intro c
    rcases hthread c with ⟨rfl, hd⟩ | ⟨-, hd⟩
    · exact fun hst => by cases (congrArg Thread.state hd).symm.trans hst
    · exact hd ▸ h.not_dead c
  · intro p hp
    obtain ⟨c, hc, hlt, hfreed, hpassed⟩ := h.joined p hp
    exact ⟨c, hc, hlt.trans (Nat.lt_succ_self _), hfreed, hpassed⟩

theorem Numbered.recordExit (exitCode : ℤ) : Numbered (recordExit s exitCode) := by
  unfold Threads.recordExit
  split
  · exact h
  · rename_i t hcaller
    obtain ⟨hmem, -, hst⟩ := h.caller t hcaller
    refine { h with exited := ?_, joined := ?_ }
    · intro c hc
      have hct : c ≠ t := by
        rintro rfl
        exact hst hc
      simpa [hct] using h.exited c hc
    · intro p hp
      obtain ⟨c, hid, hlt, hfrees, hpassed⟩ := h.joined p hp
      have hct : c ≠ t := by
        rintro rfl
        exact hfrees.ne' ((h.alive c).mp hmem).2
      exact ⟨c, hid, hlt, hfrees, by simpa [hct] using hpassed⟩

end

section

variable (h : Numbered s) (ht : Mem s.threads t)
include h ht

theorem Numbered.becomeZombie
    (hpassed : s.passed t = some exitCode) : Numbered (becomeZombie s t exitCode) := by
  have hnobody : Numbered { s with caller := none } := by
    refine { h with caller := ?_ }
    rintro _ ⟨⟩
  have hzombie := hnobody.setThread (d := { s.thread t with
      state := .zombie
      exitCode := exitCode
      joinSemaphore := if (s.thread t).joinSemaphore < 1 then (s.thread t).joinSemaphore + 1
        else (s.thread t).joinSemaphore }) ht rfl (fun _ => hpassed)
          (fun hcaller => by cases hcaller)
    (fun _ => rfl) (by simp)
  exact { hzombie with }

theorem Numbered.threadCleanUp
    (hst : (s.thread t).state = .zombie) : Numbered (threadCleanUp s t) := by
  have hstack : Numbered (s.setThread t { s.thread t with stack := false }) := by
    refine h.setThread ht rfl ?_ ?_ ?_ ?_
    · exact h.exited t
    · exact fun hcaller => (h.caller t hcaller).2.2
    · exact h.semaphore t
    · exact h.not_dead t
  obtain ⟨hlt, hfrees⟩ := (h.alive t).mp ht
  have honce : Distinct (fun t => t) s.threads := by
    rintro i j a b hi hj rfl
    exact Fin.ext ((h.slots i a hi).trans (h.slots j a hj).symm)
  have hmem : ∀ c, Mem (Threads.threadCleanUp s t).threads c ↔ Mem s.threads c ∧ c ≠ t :=
    mem_clearSlot honce
  have hself : (Threads.threadCleanUp s t).frees t = s.frees t + 1 := update_self ..
  have hother : ∀ c, c ≠ t → (Threads.threadCleanUp s t).frees c = s.frees c := fun c hc =>
    update_of_ne hc ..
  refine { hstack with
    slots := ?_, alive := ?_, unused := ?_, freed := ?_, caller := ?_, joined := ?_ }
  · exact fun i c hi => h.slots i c (clearSlot_some hi)
  · intro c
    rw [hmem, h.alive c]
    by_cases hct : c = t
    · subst hct
      simp [hself]
    · rw [hother c hct]
      exact and_iff_left hct
  · intro c hc
    have hct : c ≠ t := fun heq => absurd hlt (not_lt.mpr (heq ▸ hc))
    rw [hother c hct]
    exact hstack.unused c hc
  · intro c hc
    by_cases hct : c = t
    · subst hct
      simpa [Threads.threadCleanUp, System.setThread] using hst
    · rw [hother c hct] at hc
      exact hstack.freed c hc
  · intro c hc
    obtain ⟨hcmem, hcur, hcstate⟩ := hstack.caller c hc
    refine ⟨(hmem c).mpr ⟨hcmem, ?_⟩, hcur, hcstate⟩
    rintro rfl
    exact (h.caller c hc).2.2 hst
  · intro p hp
    obtain ⟨c, hid, hclt, hcfrees, hpassed⟩ := h.joined p hp
    have hct : c ≠ t := by
      rintro rfl
      exact hcfrees.ne' hfrees
    exact ⟨c, hid, hclt, by rwa [hother c hct], hpassed⟩

/-- What `thread_join` stores is what the thread has passed to `thread_exit`. -/
theorem Numbered.collect (hst : (s.thread t).state = .zombie) (hid : (s.thread t).id = id)
    (exitCode : Bool) : Numbered (collect s t id exitCode) := by
  have hclean := h.threadCleanUp ht hst
  cases exitCode with
  | false => exact hclean
  | true =>
    have hcollect : Threads.collect s t id true = { Threads.threadCleanUp s t with
        joined := (id, (s.thread t).exitCode) :: s.joined } := by
      simp only [Threads.collect, Threads.threadCleanUp, System.setThread, if_true]
    have hlt := h.lt ht
    rw [hcollect]
    refine { hclean with joined := ?_ }
    intro p hp
    rcases List.mem_cons.mp hp with rfl | hp
    · refine ⟨t, (h.ids t hlt).symm.trans hid, hlt, ?_, h.exited t hst⟩
      simp [Threads.threadCleanUp]
    · exact hclean.joined p hp

end

/-! ## Calls -/

def InPlace (s : System) : Call → Prop
  | .create entryPoint _ _ => entryPoint = true →
      ∀ slot ∈ firstFree s.threads, s.nextThreadId = (slot.val : ℤ)
  | _ => True

theorem inPlace_create_iff : (entryPoint = true →
      ((firstFree s.threads).all fun slot => s.nextThreadId = (slot.val : ℤ)) = true) ↔
    InPlace s (.create entryPoint priority flags) := by
  simp [InPlace, all_eq_true]

-- the default instance would go through all slots
instance decidableInPlace (s : System) : (c : Call) → Decidable (InPlace s c)
  | .create .. => decidable_of_iff _ inPlace_create_iff
  | .yield | .block | .unblock _ | .exit _ | .join _ _ | .detach _ =>
    inferInstanceAs (Decidable True)

section

variable (h : Numbered s)
include h

theorem Numbered.threadCreate (hplace : InPlace s (.create entryPoint priority flags)) :
    Numbered (threadCreate s entryPoint priority flags) := by
  unfold Threads.threadCreate
  split
  · exact h
  · rename_i hentry
    split
    · exact h
    · split
      · exact h
      · rename_i slot hfree
        exact h.addThread (firstFree_some hfree)
          (hplace (by simpa using hentry) slot hfree) priority
          flags

theorem Numbered.threadBlock (hcaller : s.caller = some t)
    (hu : threadBlock s = some u) : Numbered u := by
  obtain ⟨hmem, -, hst⟩ := h.caller t hcaller
  simp only [Threads.threadBlock, h.threadGetCurrent hcaller] at hu
  have hblk : Numbered (becomeBlocked s t) :=
    { h.setState hmem hst .blocked (by simp) (by simp) with }
  exact hblk.threadScheduler hu

theorem Numbered.threadUnblock (id : ThreadId) : Numbered (threadUnblock s id) := by
  unfold Threads.threadUnblock
  split
  · exact h
  · rename_i t hfound
    split
    · exact h
    · rename_i hst
      have hready := h.setState (threadGetById_some hfound).1 (by simp [not_not.mp hst]) .ready
        (by simp) (by simp)
      exact { hready with }

theorem Numbered.threadExit (hcaller : s.caller = some t)
    (hu : threadExit s exitCode = some u) : Numbered u := by
  have hrecord := h.recordExit exitCode
  have hsame : (Threads.recordExit s exitCode).caller = some t := by
    simp [Threads.recordExit, hcaller]
  have hpassed : (Threads.recordExit s exitCode).passed t = some exitCode := by
    simp [Threads.recordExit, hcaller]
  simp only [Threads.threadExit, hrecord.threadGetCurrent hsame] at hu
  have hmem := (hrecord.caller t hsame).1
  have hzombie := hrecord.becomeZombie hmem hpassed
  split at hu
  · have hclean := hzombie.threadCleanUp hmem (by simp [Threads.becomeZombie, System.setThread])
    exact hclean.threadScheduler hu
  · exact hzombie.threadScheduler hu

theorem Numbered.threadJoin {exitCode : Bool}
    (hu : threadJoin s id exitCode = some u) : Numbered u := by
  rcases threadJoin_cases (fun t _ => ⟨h.not_dead t, h.semaphore t⟩) hu with
    rfl | ⟨t, hfound, hzombie, rfl⟩
  · exact h
  · obtain ⟨ht, hid⟩ := threadGetById_some hfound
    exact h.collect ht hzombie hid exitCode

theorem Numbered.threadDetach (id : ThreadId) : Numbered (threadDetach s id) := by
  unfold Threads.threadDetach
  split
  · exact h
  · rename_i t hfound
    have ht := (threadGetById_some hfound).1
    have hflags : Numbered (s.setThread t
        { s.thread t with flags := (s.thread t).flags ||| 4 }) := by
      refine h.setThread ht rfl ?_ ?_ ?_ ?_
      · exact h.exited t
      · exact fun hcaller => (h.caller t hcaller).2.2
      · exact h.semaphore t
      · exact h.not_dead t
    dsimp only
    split
    · rename_i hzombie
      exact hflags.threadCleanUp ht hzombie
    · exact hflags

end

theorem numbered_step (s : System) (c : Call) (u : System) (h : Numbered s) (hplace : InPlace s c)
    (hu : step s c = some u) : Numbered u := by
  unfold step at hu
  split at hu
  · cases hu
  · rename_i hsome
    obtain ⟨t, hcaller⟩ := ne_none_iff_exists'.mp (by simpa using hsome : s.caller ≠ none)
    cases c with
    | create entryPoint priority flags =>
      obtain rfl := some.inj hu
      exact h.threadCreate hplace
    | yield => exact h.threadScheduler hu
    | block => exact h.threadBlock hcaller hu
    | unblock id =>
      obtain rfl := some.inj hu
      exact h.threadUnblock id
    | exit exitCode => exact h.threadExit hcaller hu
    | join id exitCode => exact h.threadJoin hu
    | detach id =>
      obtain rfl := some.inj hu
      exact h.threadDetach id

end Numbered

theorem numbered_init : Numbered threadInit := by
  have hthread : ∀ t, t ≠ mainThread → threadInit.thread t = zeroThread := by
    intro t ht
    simp [threadInit, ht]
  have hmain : ∀ t, t < threadInit.allocated ↔ t = mainThread := fun t => Nat.lt_one_iff
  have hst : ∀ t, (threadInit.thread t).state ≠ .zombie ∧ (threadInit.thread t).state ≠ .dead ∧
      (threadInit.thread t).joinSemaphore = 0 := by
    intro t
    by_cases ht : t = mainThread
    · rw [ht]
      decide
    · rw [hthread t ht]
      decide
  constructor
  · intro t ht
    rw [(hmain t).mp ht]
    rfl
  · rfl
  · intro i t hi
    by_cases hi0 : i = 0
    · subst hi0
      cases hi
      rfl
    · have hnone : threadInit.threads i = none := by simp [threadInit, hi0]
      rw [hnone] at hi
      cases hi
  · intro t
    rw [hmain]
    refine (mem_fill rfl).trans ⟨?_, fun ht => .inl ht.1⟩
    rintro (ht | ⟨i, hi⟩)
    · exact ⟨ht, rfl⟩
    · cases hi
  · intro t ht
    have hne : t ≠ mainThread := fun heq => absurd ((hmain t).mpr heq) (not_lt.mpr ht)
    rw [hthread t hne]
    exact ⟨rfl, rfl⟩
  · intro t ht
    cases ht
  · rintro _ ⟨⟩
    exact ⟨⟨0, rfl⟩, rfl, by decide⟩
  · intro t ht
    exact absurd ht (hst t).1
  · intro t ht
    exact absurd ht (by rw [(hst t).2.2]; exact lt_irrefl 0)
  · intro t
    exact (hst t).2.1
  · intro p hp
    cases hp

/-- If new threads get the slots their ids say, the ids are reliable throughout the run. -/
theorem ids_stay_reliable (calls : List Call) (h : Meets step InPlace threadInit calls) :
    Throughout step Reliable threadInit calls :=
  (throughout_of_meets step numbered_step numbered_init h).imp step fun _ => Numbered.reliable

/-- Of three threads, the first ends, the second joins it and blocks, and the third detaches itself.
-/
theorem joined_thread_reliable :
    let calls : List Call := [.create true 2 0, .create true 2 0, .create true 2 0, .yield, .exit 7,
      .join 1 true, .block, .detach 3]
    Meets step InPlace threadInit calls ∧ Throughout step Reliable threadInit calls := by
  intro calls
  have hmeets : Meets step InPlace threadInit calls := by decide +kernel
  exact ⟨hmeets, ids_stay_reliable calls hmeets⟩

/-- A thread ends and is joined, and the next one created gets its slot. -/
def slotUsedAgain : List Call := [.create true 2 0, .create true 2 0, .yield, .exit 7, .join 1 true,
  .create true 2 0, .yield]

theorem slotUsedAgain_isSome : (exec step threadInit slotUsedAgain).isSome = true := by
  decide +kernel

/-- The new thread runs, but `thread_get_current` does not find it. -/
theorem new_thread_not_current : ∃ s, exec step threadInit slotUsedAgain = some s ∧
    ¬ Reliable s := by
  refine ⟨_, (some_get slotUsedAgain_isSome).symm, fun h => ?_⟩
  have hcur := (h.current 3 (by decide +kernel)).1
  revert hcur
  decide +kernel

end UintOS.Threads
