import UintOS.Kernel.Threads.Lists
import UintOS.Library.SlotTable

/-!
# Threads

A model of `thread.c`: the table of threads, the calls of the current thread, and the choice of the
next one. Calls are made one at a time and allocations succeed. The memory of a freed thread is not
used again; how often it was freed is counted. The table is searched by id, but `thread_get_current`
uses the id of the current thread as its slot.
-/

namespace UintOS.Threads

open Function Links Option SlotTable

inductive ThreadState
  | new
  | ready
  | running
  | blocked
  | waiting
  | zombie
  | dead
deriving DecidableEq, Repr

abbrev ThreadId := ℤ

/-- `thread_t`, without the list fields. The semaphore is its count, at most 1. -/
structure Thread where
  id : ThreadId
  state : ThreadState
  priority : ℤ
  flags : UInt32
  stack : Bool
  exitCode : ℤ
  joinSemaphore : ℕ

def Thread.detached (t : Thread) : Bool := t.flags &&& 4 ≠ 0

/-- The variables of `thread.c`, the allocated threads, and what has happened: how often a thread
and its stack were freed, which thread runs and can make a call, the value each thread has passed to
`thread_exit`, and the ids and values of the calls of `thread_join` that returned 0. -/
structure System where
  threads : Fin 4096 → Option ThreadPtr
  threadCount : ℤ
  nextThreadId : ThreadId
  currentThreadId : ThreadId
  lists : Lists
  thread : ThreadPtr → Thread
  allocated : ℕ
  frees : ThreadPtr → ℕ
  stackFrees : ThreadPtr → ℕ
  caller : Option ThreadPtr
  passed : ThreadPtr → Option ℤ
  joined : List (ThreadId × ℤ)

def mainThread : ThreadPtr := 0

def zeroThread : Thread := ⟨0, .new, 0, 0, false, 0, 0⟩

/-- `thread_init`. The main thread has the flag `THREAD_FLAG_SYSTEM` and no stack. -/
def threadInit : System where
  threads := update (fun _ => none) 0 (some mainThread)
  threadCount := 1
  nextThreadId := 1
  currentThreadId := 0
  lists := .empty
  thread := update (fun _ => zeroThread) mainThread ⟨0, .running, 2, 1, false, 0, 0⟩
  allocated := 1
  frees _ := 0
  stackFrees _ := 0
  caller := some mainThread
  passed _ := none
  joined := []

variable (s : System) (t : ThreadPtr)

def System.setThread (d : Thread) : System :=
  { s with thread := update s.thread t d }

def threadGetCurrent : Option ThreadPtr :=
  if h : 0 ≤ s.currentThreadId ∧ s.currentThreadId < 4096 then
    s.threads ⟨s.currentThreadId.toNat, (Int.toNat_lt h.1).mpr h.2⟩
  else none

variable (id : ThreadId)

def threadGetById : Option ThreadPtr :=
  if id < 0 ∨ id ≥ 4096 then none else find s.threads fun t => (s.thread t).id = id

/-- The threads are compared with the best so far, of priority -1 at first. -/
def betterThread (best : Option ThreadPtr × ℤ) (t : ThreadPtr) : Option ThreadPtr × ℤ :=
  if (s.thread t).state = .ready ∧ (s.thread t).priority > best.2 then
    (some t, (s.thread t).priority)
  else best

/-- `thread_get_next_to_run`; it does not return when the list has no end. -/
def threadGetNextToRun : Option (Option ThreadPtr) :=
  (walk s.lists.next s.allocated s.lists.readyHead).map fun ready =>
    (ready.foldl (betterThread s) (none, -1)).1

def preempt : System :=
  match threadGetCurrent s with
  | none => s
  | some t =>
    if (s.thread t).state = .running then s.setThread t { s.thread t with state := .ready } else s

def switchTo : System :=
  { s.setThread t { s.thread t with state := .running } with
    currentThreadId := (s.thread t).id
    caller := some t }

def threadScheduler : Option System :=
  (threadGetNextToRun s).map fun next =>
    match next with
    | none => s
    | some next => switchTo (preempt s) next

/-- `thread_create`, once there is room. -/
def addThread (slot : Fin 4096) (priority : ℤ) (flags : UInt32) : System :=
  let t := s.allocated
  let priority := if priority < 0 ∨ priority > 5 then 2 else priority
  { s.setThread t ⟨s.nextThreadId, .ready, priority, flags, true, 0, 0⟩ with
    threads := update s.threads slot (some t)
    threadCount := s.threadCount + 1
    nextThreadId := s.nextThreadId + 1
    lists := s.lists.threadAddToReadyList t
    allocated := s.allocated + 1 }

/-- `thread_create`; `entryPoint` is whether there is one. -/
def threadCreate (entryPoint : Bool) (priority : ℤ) (flags : UInt32) : System :=
  if !entryPoint then s
  else if s.threadCount ≥ 4096 then s
  else
    match firstFree s.threads with
    | none => s
    | some slot => addThread s slot priority flags

/-- The first slot with the thread is cleared. Irreducible, since comparing two states must never
search the table. -/
@[irreducible] def clearSlot (threads : Fin 4096 → Option ThreadPtr) (t : ThreadPtr) :
    Fin 4096 → Option ThreadPtr :=
  match slotOf threads t with
  | some i => update threads i none
  | none => threads

def threadCleanUp : System :=
  { s.setThread t { s.thread t with stack := false } with
    lists := s.lists.threadRemoveFromReadyList t
    threads := clearSlot s.threads t
    stackFrees :=
      if (s.thread t).stack then update s.stackFrees t (s.stackFrees t + 1)
      else s.stackFrees
    frees := update s.frees t (s.frees t + 1)
    threadCount := s.threadCount - 1 }

variable (exitCode : ℤ)

/-- `thread_exit` up to the clean-up; `semaphore_signal` counts to 1. -/
def becomeZombie : System :=
  { s.setThread t { s.thread t with
      state := .zombie
      exitCode := exitCode
      joinSemaphore := if (s.thread t).joinSemaphore < 1 then (s.thread t).joinSemaphore + 1
        else (s.thread t).joinSemaphore } with
    lists := s.lists.threadRemoveFromReadyList t
    caller := none }

/-- The caller has passed a value to `thread_exit`. -/
def recordExit : System :=
  match s.caller with
  | none => s
  | some t => { s with passed := update s.passed t (some exitCode) }

/-- `thread_exit`. It returns when there is no current thread; else it never does, and nobody runs
when no thread is ready. -/
def threadExit : Option System :=
  let s := recordExit s exitCode
  match threadGetCurrent s with
  | none => some s
  | some t =>
    let s := becomeZombie s t exitCode
    threadScheduler (if (s.thread t).detached then threadCleanUp s t else s)

/-- `thread_join` once the thread has ended. -/
def collect (exitCode : Bool) : System :=
  let s := if exitCode then { s with joined := (id, (s.thread t).exitCode) :: s.joined } else s
  threadCleanUp s t

/-- `thread_join`; `exitCode` is whether the value is asked for. It does not return when it has to
wait, since the waiting thread stays the current one. -/
def threadJoin (exitCode : Bool) : Option System :=
  if id = s.currentThreadId then some s
  else
    match threadGetById s id with
    | none => some s
    | some t =>
      if (s.thread t).detached then some s
      else if (s.thread t).state ≠ .zombie ∧ (s.thread t).state ≠ .dead then
        if (s.thread t).joinSemaphore > 0 then
          some (collect (s.setThread t { s.thread t with
            joinSemaphore := (s.thread t).joinSemaphore - 1 }) t id exitCode)
        else none
      else some (collect s t id exitCode)

def threadDetach : System :=
  match threadGetById s id with
  | none => s
  | some t =>
    let s := s.setThread t { s.thread t with flags := (s.thread t).flags ||| 4 }
    if (s.thread t).state = .zombie then threadCleanUp s t else s

/-- `thread_block` up to the choice of the next thread. -/
def becomeBlocked : System :=
  { s.setThread t { s.thread t with state := .blocked } with
    lists := (s.lists.threadRemoveFromReadyList t).addToBlockedList t }

def threadBlock : Option System :=
  match threadGetCurrent s with
  | none => some s
  | some t => threadScheduler (becomeBlocked s t)

def threadUnblock : System :=
  match threadGetById s id with
  | none => s
  | some t =>
    if (s.thread t).state ≠ .blocked then s
    else
      { s.setThread t { s.thread t with state := .ready } with
        lists := (s.lists.removeFromBlockedList t).threadAddToReadyList t }

inductive Call
  | create (entryPoint : Bool) (priority : ℤ) (flags : UInt32)
  | yield
  | block
  | unblock (id : ThreadId)
  | exit (exitCode : ℤ)
  | join (id : ThreadId) (exitCode : Bool)
  | detach (id : ThreadId)
deriving DecidableEq, Repr

def step (c : Call) : Option System :=
  if s.caller.isNone then none
  else
    match c with
    | .create entryPoint priority flags => some (threadCreate s entryPoint priority flags)
    | .yield => threadScheduler s
    | .block => threadBlock s
    | .unblock id => some (threadUnblock s id)
    | .exit exitCode => threadExit s exitCode
    | .join id exitCode => threadJoin s id exitCode
    | .detach id => some (threadDetach s id)

/-! ## What the functions find -/

section Finding

variable {s u : System} {t : ThreadPtr} {id : ThreadId} {threads : Fin 4096 → Option ThreadPtr}

theorem mem_of_threadGetCurrent (h : threadGetCurrent s = some t) : Mem s.threads t := by
  unfold threadGetCurrent at h
  split at h
  · exact ⟨_, h⟩
  · cases h

theorem threadGetById_some (h : threadGetById s id = some t) :
    Mem s.threads t ∧ (s.thread t).id = id := by
  unfold threadGetById at h
  split at h
  · cases h
  · obtain ⟨hmem, hid⟩ := find_some h
    exact ⟨hmem, by simpa using hid⟩

theorem mem_clearSlot (h : Distinct (fun t => t) threads)
    (c : ThreadPtr) : Mem (clearSlot threads t) c ↔ Mem threads c ∧ c ≠ t := by
  unfold clearSlot
  cases hslot : slotOf threads t with
  | none =>
    refine (and_iff_left_of_imp fun hc => ?_).symm
    rintro rfl
    exact slotOf_none hslot hc
  | some i =>
    have hi := slotOf_some hslot
    constructor
    · intro hc
      refine ⟨mem_of_mem_clear hc, ?_⟩
      rintro rfl
      exact h.not_mem_clear hi hc
    · rintro ⟨hc, hne⟩
      exact mem_clear hi hc hne

theorem clearSlot_some {i : Fin 4096} {c : ThreadPtr}
    (h : clearSlot threads t i = some c) : threads i = some c := by
  unfold clearSlot at h
  cases hslot : slotOf threads t with
  | none =>
    rw [hslot] at h
    exact h
  | some j =>
    simp only [hslot] at h
    by_cases hij : i = j
    · rw [hij, update_self] at h
      cases h
    · rwa [update_of_ne hij] at h

theorem foldl_betterThread (ready : List ThreadPtr) (best : Option ThreadPtr × ℤ)
    (h : (ready.foldl (betterThread s) best).1 = some t) :
    best.1 = some t ∨ t ∈ ready ∧ (s.thread t).state = .ready := by
  induction ready generalizing best with
  | nil => exact .inl h
  | cons a ready ih =>
    rcases ih _ h with hbest | ⟨hmem, hst⟩
    · unfold betterThread at hbest
      split at hbest
      · rename_i hbetter
        cases hbest
        exact .inr ⟨List.mem_cons_self .., hbetter.1⟩
      · exact .inl hbest
    · exact .inr ⟨List.mem_cons_of_mem _ hmem, hst⟩

/-- The scheduler finds no thread and changes nothing, or it switches to a ready thread of the list
that starts at the head. -/
theorem threadScheduler_cases (h : threadScheduler s = some u) :
    u = s ∨ ∃ ready t, Chain s.lists.next ready ∧ ready.head? = s.lists.readyHead ∧ t ∈ ready ∧
      (s.thread t).state = .ready ∧ u = switchTo (preempt s) t := by
  obtain ⟨next, hnext, rfl⟩ := map_eq_some_iff.mp h
  obtain ⟨ready, hwalk, rfl⟩ := map_eq_some_iff.mp hnext
  obtain ⟨hchain, hhead⟩ := walk_chain hwalk
  cases hbest : (ready.foldl (betterThread s) (none, -1)).1 with
  | none => exact .inl rfl
  | some t =>
    rcases foldl_betterThread ready _ hbest with hnone | ⟨hmem, hst⟩
    · cases hnone
    · exact .inr ⟨ready, t, hchain, hhead, hmem, hst, rfl⟩

/-- A joined thread has ended, where only threads that end signal their semaphores. -/
theorem threadJoin_cases {exitCode : Bool}
    (hended : ∀ t, Mem s.threads t → (s.thread t).state ≠ .dead ∧
      (0 < (s.thread t).joinSemaphore → (s.thread t).state = .zombie))
    (h : threadJoin s id exitCode = some u) :
    u = s ∨ ∃ t, threadGetById s id = some t ∧ (s.thread t).state = .zombie ∧
      u = collect s t id exitCode := by
  unfold threadJoin at h
  split at h
  · exact .inl (some.inj h).symm
  · split at h
    · exact .inl (some.inj h).symm
    · rename_i t hfound
      obtain ⟨hdead, hsem⟩ := hended t (threadGetById_some hfound).1
      split at h
      · exact .inl (some.inj h).symm
      · split at h
        · rename_i hst
          split at h
          · exact absurd (hsem ‹_›) hst.1
          · cases h
        · rename_i hst
          refine .inr ⟨t, hfound, ?_, (some.inj h).symm⟩
          by_contra hne
          exact hst ⟨hne, hdead⟩

end Finding

end UintOS.Threads
