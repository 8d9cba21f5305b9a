import UintOS.Kernel.Scheduler.OnePlace

/-!
# Exit status and freed tasks

A task is freed by the `scheduler_waitpid` of its parent only, which has to find it first: as a
current task, in a ready queue or on the sleeping list, where it stays when it is freed. Hence no
task is freed without a reference that is left, and a task whose parent was waiting is not freed at
all.
-/

namespace UintOS.Scheduler

open List Runs

namespace Sched

variable {s t u : Sched} {p : Ptr} {taskId : UInt32}

/-! ## What is allocated and freed -/

structure SameHeap (s t : Sched) : Prop where
  live : t.history.live = s.history.live
  freed : t.history.freed = s.history.freed

theorem SameHeap.refl (s : Sched) : SameHeap s s := ⟨rfl, rfl⟩

theorem SameHeap.trans (h : SameHeap s t) (h' : SameHeap t u) : SameHeap s u :=
  ⟨h'.live.trans h.live, h'.freed.trans h.freed⟩

section

variable (s : Sched)

theorem sameHeap_wakeSleeper (e : Sleeper) (byTimer : Bool) :
    SameHeap s (s.wakeSleeper e byTimer) := by
  unfold wakeSleeper
  split_ifs
  · exact ⟨rfl, rfl⟩
  · exact SameHeap.refl s

theorem sameHeap_wakeDue (es : List Sleeper) : SameHeap s (s.wakeDue es).1 :=
  wakeDue_rule (SameHeap.refl s) fun t e _ ht => ht.trans (sameHeap_wakeSleeper t e true)

theorem sameHeap_saveCurrentTask : SameHeap s s.saveCurrentTask := by
  unfold saveCurrentTask
  cases s.getCurrentTask with
  | none => exact SameHeap.refl s
  | some p =>
    dsimp only
    split_ifs
    · exact ⟨rfl, rfl⟩
    · exact SameHeap.refl s

theorem sameHeap_choice : SameHeap s s.choice := by
  have h := sameHeap_wakeDue s.saveCurrentTask s.saveCurrentTask.sleepingTasks
  exact (sameHeap_saveCurrentTask s).trans ⟨h.live, h.freed⟩

theorem sameHeap_countSchedule : SameHeap s s.countSchedule := by
  have h := (balanced_countSchedule s).eq
  exact ⟨by rw [h], by rw [h]⟩

theorem sameHeap_schedule : SameHeap s s.schedule := by
  rcases schedule_steps s with heq | heq | ⟨t, p, ht, heq⟩
  · rw [heq]
    exact SameHeap.refl s
  · rw [heq]
    exact sameHeap_choice s
  · rw [heq]
    have hchoice : SameHeap s.choice t := by
      rcases ht with rfl | ⟨i, r, rfl⟩
      · exact SameHeap.refl _
      · exact ⟨rfl, rfl⟩
    have hcount := sameHeap_countSchedule ((t.noteSelection p).runTask p)
    exact ((sameHeap_choice s).trans hchoice).trans ⟨hcount.live, hcount.freed⟩

theorem sameHeap_unblock (p : Ptr) : SameHeap s (s.unblock p) := by
  unfold unblock
  split_ifs
  · exact ⟨rfl, rfl⟩
  · exact SameHeap.refl s

theorem sameHeap_deliver (w : Waiter) (exitCode : UInt32) : SameHeap s (s.deliver w exitCode) := by
  unfold deliver
  cases w.exitCodePtr <;> cases s.findTaskById w.parentId
  · exact SameHeap.refl s
  · exact sameHeap_unblock s _
  · exact ⟨rfl, rfl⟩
  · have h := sameHeap_unblock
    exact ⟨(h _ _).live, (h _ _).freed⟩

theorem sameHeap_deliverAll (taskId exitCode : UInt32) (ws : List Waiter) :
    SameHeap s (s.deliverAll taskId exitCode ws).1 :=
  deliverAll_rule (SameHeap.refl s) fun t w ht => ht.trans (sameHeap_deliver t w exitCode)

theorem sameHeap_terminateTask (taskId exitCode : UInt32) :
    SameHeap s (s.terminateTask taskId exitCode).2 := by
  unfold terminateTask
  cases s.findTaskById taskId with
  | none => exact SameHeap.refl s
  | some p =>
    dsimp only
    let z := ((s.endSleeps p).setTask p { s.tasks p with
      state := .zombie, exitCode := exitCode }).removeTaskFromReadyQueue taskId
    have hall := sameHeap_deliverAll z taskId exitCode z.waitingParents
    have h : SameHeap s (z.checkWaitingParents taskId exitCode) := ⟨hall.live, hall.freed⟩
    split_ifs
    · exact h.trans (sameHeap_schedule _)
    · exact h

theorem sameHeap_tick : SameHeap s s.tick :=
  tick_rule ⟨rfl, rfl⟩ (fun _ _ => ⟨rfl, rfl⟩) fun t ht => ht.trans (sameHeap_schedule t)

theorem sameHeap_addSleepingTask (p : Ptr) (milliseconds : UInt32) (memory : Bool) :
    SameHeap s (s.addSleepingTask p milliseconds memory) := by
  unfold addSleepingTask
  split_ifs
  · exact ⟨rfl, rfl⟩
  · exact SameHeap.refl s

theorem sameHeap_wakeTask (taskId : UInt32) : SameHeap s (s.wakeTask taskId).2 := by
  rcases wakeTask_cases s taskId with heq | ⟨e, es, -, -, -, ⟨-, heq⟩ | ⟨-, heq⟩⟩
  · rw [heq]
    exact SameHeap.refl s
  · rw [heq]
    have h := sameHeap_wakeSleeper (({ s with sleepingTasks := es } : Sched).endSleeps e.task) e
      false
    exact ⟨h.live, h.freed⟩
  · rw [heq]
    exact ⟨rfl, rfl⟩

theorem sameHeap_migrateTask (taskId : UInt32) (cpuId : ℤ) :
    SameHeap s (s.migrateTask taskId cpuId).2 := by
  rcases migrateTask_cases s taskId cpuId with heq | ⟨p, i, -, ⟨-, heq⟩ | heq⟩
  · rw [heq]
    exact SameHeap.refl s
  · rw [heq]
    exact ⟨rfl, rfl⟩
  · rw [heq]
    exact ⟨rfl, rfl⟩

theorem sameHeap_setTaskPriority (taskId priority : UInt32) :
    SameHeap s (s.setTaskPriority taskId priority).2 := by
  rcases setTaskPriority_cases s taskId priority with heq | ⟨p, x, -, -, ⟨-, heq⟩ | ⟨-, heq⟩⟩
  · rw [heq]
    exact SameHeap.refl s
  · rw [heq]
    exact ⟨rfl, rfl⟩
  · rw [heq]
    exact ⟨rfl, rfl⟩

end

end Sched

open Sched

theorem heap_cases (s : Sched) (op : Op) : SameHeap s (op.call s).2 ∨
    (∃ priority p stack, op = .create priority (some p) stack ∧
      (op.call s).2.history.live = p :: s.history.live ∧
      (op.call s).2.history.freed = s.history.freed) ∨
    (∃ child ∈ s.places, (op.call s).2.places = s.places ∧
      (op.call s).2.history.live = s.history.live.erase child ∧
      child ∈ (op.call s).2.history.freed) := by
  cases op with
  | create priority task stack =>
    cases task with
    | none => exact .inl (SameHeap.refl s)
    | some p =>
      cases stack with
      | none => exact .inl ⟨rfl, rfl⟩
      | some stack => exact .inr (.inl ⟨priority, p, some stack, rfl, rfl, rfl⟩)
  | schedule => exact .inl (sameHeap_schedule s)
  | tick => exact .inl (sameHeap_tick s)
  | yield => exact .inl ((yield_eq s).symm ▸ sameHeap_schedule s)
  | block =>
    refine .inl (blockCurrentTask_rule (SameHeap.refl s) fun p _ => ?_)
    exact { sameHeap_schedule (s.setBlocked p) with }
  | unblock taskId =>
    exact .inl (unblockTask_rule (SameHeap.refl s) fun p _ => sameHeap_unblock s p)
  | sleep milliseconds memory =>
    refine .inl (sleep_rule (SameHeap.refl s) (sameHeap_schedule s) fun p _ _ => ?_)
    exact (sameHeap_addSleepingTask s p milliseconds memory).trans (sameHeap_schedule _)
  | wake taskId => exact .inl (sameHeap_wakeTask s taskId)
  | waitpid taskId exitCode options memory =>
    change SameHeap s (s.waitpid taskId exitCode options memory).2 ∨ _ ∨
      (∃ child ∈ s.places, (s.waitpid taskId exitCode options memory).2.places = s.places ∧
      (s.waitpid taskId exitCode options memory).2.history.live = s.history.live.erase child ∧
      child ∈ (s.waitpid taskId exitCode options memory).2.history.freed)
    rcases waitpid_cases s taskId exitCode options memory with
      heq | ⟨child, vars, hfind, -, heq⟩ | ⟨current, child, ws, -, -, -, heq⟩
    · rw [heq]
      exact .inl (SameHeap.refl s)
    · rw [heq]
      right
      right
      exact ⟨child, mem_of_find?_eq_some hfind, rfl, rfl, mem_cons_self⟩
    · rw [heq]
      have h := sameHeap_schedule (({ s with waitingParents := ws } : Sched).setBlocked current)
      exact .inl ⟨h.live, h.freed⟩
  | setPriority taskId priority => exact .inl (sameHeap_setTaskPriority s taskId priority)
  | migrate taskId cpuId => exact .inl (sameHeap_migrateTask s taskId cpuId)
  | terminate taskId exitCode => exact .inl (sameHeap_terminateTask s taskId exitCode)
  | initSmp _ | registerIdle _ | setPreemption _ | setAlgorithm _ | setQuantum _ =>
    exact .inl ⟨rfl, rfl⟩

/-! ## References to freed tasks -/

/-- The tasks that the scheduler refers to: the current tasks of all CPUs, the tasks in queues and
the sleeping tasks. -/
def Sched.references (s : Sched) : List Ptr :=
  (List.finRange maxCpus).filterMap (fun i => (s.cpuStates i).currentTask) ++ s.queued ++
    s.sleepingTasks.map Sleeper.task

theorem mem_references_of_places {s : Sched} {p : Ptr} (hp : p ∈ s.places) : p ∈ s.references := by
  rcases mem_append.mp hp with hp | hp
  · apply mem_append_left
    rcases mem_append.mp hp with hp | hp
    · apply mem_append_left
      obtain ⟨i, -, hi⟩ := mem_filterMap.mp hp
      exact mem_filterMap.mpr ⟨i, mem_finRange i, hi⟩
    · exact mem_append_right _ (mem_queued.mpr (.inl hp))
  · exact mem_append_right _ hp

/-- No place, and no waiting parent, refers to memory freed and not allocated again. -/
structure NoDangling (s : Sched) : Prop where
  places : ∀ p ∈ s.references, p ∈ s.history.freed → p ∈ s.history.live
  waiting : ∀ w ∈ s.waitingParents, ∀ p ∈ s.history.freed, p ∉ s.history.live →
    (s.tasks p).id ≠ w.parentId ∧ (s.tasks p).id ≠ w.childId

def HeapOk (s : Sched) : Op → Prop
  | .create _ (some p) _ => p ∉ s.history.live
  | _ => True

/-- A step keeps that nothing was freed, or leaves a reference to what it frees. -/
theorem step_freed {s t : Sched} {op : Op} (hnodup : s.history.live.Nodup)
    (hfreed : s.history.freed = []) (hop : HeapOk s op) (hstep : step s op = some t)
    (hclean : NoDangling t) : t.history.live.Nodup ∧ t.history.freed = [] := by
  obtain rfl : (op.call s).2 = t := Option.some.inj hstep
  rcases heap_cases s op with h | ⟨priority, p, stack, rfl, hlive, hfreed'⟩ |
    ⟨child, hchild, hplaces, hlive, hmem⟩
  · rw [h.live, h.freed]
    exact ⟨hnodup, hfreed⟩
  · rw [hlive, hfreed']
    exact ⟨nodup_cons.mpr ⟨hop, hnodup⟩, hfreed⟩
  · have hreference : child ∈ (op.call s).2.references :=
      mem_references_of_places (hplaces ▸ hchild)
    have hback := hclean.places child hreference hmem
    rw [hlive] at hback
    exact absurd hback hnodup.not_mem_erase

/-- While there is no reference to a freed task, none is freed. -/
theorem freed_of_noDangling {s t : Sched} {ops : List Op} (hnodup : s.history.live.Nodup)
    (hfreed : s.history.freed = []) (hops : Meets step HeapOk s ops)
    (hclean : Throughout step NoDangling s ops) (hexec : exec step s ops = some t) :
    t.history.freed = [] := by
  induction ops generalizing s with
  | nil =>
    cases hexec
    exact hfreed
  | cons op ops ih =>
    obtain ⟨u, hu, hexec⟩ := Option.bind_eq_some_iff.mp hexec
    have hrest := ((throughout_cons step NoDangling s op ops).mp hclean).2 u hu
    obtain ⟨hnodup', hfreed'⟩ := step_freed hnodup hfreed hops.1 hu (hrest.head step)
    exact ih hnodup' hfreed' (hops.2 u hu) hrest hexec

/-! ## The status of a child -/

/-- The call that gives a parent the status of its child: the child is terminated while the parent
waits, or the parent waits for a zombie. -/
def Exits (s : Sched) (child : Ptr) : Op → Prop
  | .terminate taskId _ => s.findTaskById taskId = some child ∧
    (s.tasks child).state ≠ .zombie ∧ ∃ w ∈ s.waitingParents, w.childId = taskId
  | .waitpid taskId _ _ _ => child ∈ s.history.live ∧ (s.tasks child).id = taskId ∧
    (s.tasks child).state = .zombie ∧
    ∃ parent, s.getCurrentTask = some parent ∧ (s.tasks child).parentId = (s.tasks parent).id
  | _ => False

/-- A further wait for a task returns -1. -/
def NotAgain (taskId : UInt32) (s : Sched) : Op → Prop
  | .waitpid taskId' exitCode options memory =>
    taskId' = taskId → (s.waitpid taskId' exitCode options memory).1 = -1
  | _ => True

/-- What the parent gets by the call. If it was waiting, its variable has the exit code, and it is
ready and in a queue, or runs already. Otherwise the wait returns the id, with the exit code, and
later waits return -1. -/
def Delivered (s : Sched) (child : Ptr) (after : List Op) : Op → Prop
  | .terminate taskId exitCode => ∀ w ∈ s.waitingParents, w.childId = taskId →
    (∀ ptr, w.exitCodePtr = some ptr →
      (s.terminateTask taskId exitCode).2.exitVars ptr = exitCode) ∧
    ∃ parent, s.Known parent ∧ (s.tasks parent).id = w.parentId ∧
      (((s.terminateTask taskId exitCode).2.tasks parent).state = .running ∨
        ((s.terminateTask taskId exitCode).2.tasks parent).state = .ready ∧
        parent ∈ (s.terminateTask taskId exitCode).2.queued)
  | .waitpid taskId exitCode options memory =>
    (s.waitpid taskId exitCode options memory).1 = taskId.toInt32.toInt ∧
    (∀ ptr, exitCode = some ptr →
      (s.waitpid taskId exitCode options memory).2.exitVars ptr = (s.tasks child).exitCode) ∧
    Meets step (NotAgain taskId) (s.waitpid taskId exitCode options memory).2 after
  | _ => True

/-- The status is delivered by the call, after it the task and its stack are freed once, and no
state of the run has a reference to a freed task. -/
def Settled (start : Sched) (before : List Op) (op : Op) (after : List Op) (child : Ptr) : Prop :=
  ∃ s t, exec step start before = some s ∧ exec step start (before ++ op :: after) = some t ∧
    Delivered s child after op ∧ child ∉ s.history.freed ∧
    t.history.freed.count child = 1 ∧ t.history.freed.count (s.tasks child).stack = 1 ∧
    Throughout step NoDangling start (before ++ op :: after)

/-- No call by which a parent gets a status settles it: the child is not freed, or it is freed while
there is a reference to it. -/
theorem exit_status_settled_iff (tasks : Ptr → Task) (exitVars : Ptr → UInt32) (numCpus : ℤ)
    (idle : Ptr) (ops : List Op)
    (hops : Meets step HeapOk (start tasks exitVars numCpus idle) ops) :
    (∀ before op after child s, ops = before ++ op :: after →
      exec step (start tasks exitVars numCpus idle) before = some s → Exits s child op →
      Settled (start tasks exitVars numCpus idle) before op after child) ↔
    Meets step (fun s op => ∀ child, ¬ Exits s child op)
      (start tasks exitVars numCpus idle) ops := by
  rw [meets_iff_forall]
  constructor
  · intro h before op after s hsplit hexec child hexits
    obtain ⟨_, t, -, hexec', -, -, hcount, -, hclean⟩ :=
      h before op after child s hsplit hexec hexits
    rw [← hsplit] at hexec' hclean
    have hfreed := freed_of_noDangling nodup_nil rfl hops hclean hexec'
    rw [hfreed] at hcount
    cases hcount
  · intro h before op after child s hsplit hexec hexits
    exact absurd hexits (h before op after s hsplit hexec child)

def waitForChild : List Op :=
  [.create 5 (some 10) (some 11), .schedule, .create 6 (some 30) (some 31),
    .waitpid 2 (some 99) 0 true]

/-- The status of the child is not settled when it terminates. -/
theorem waited_status_is_not_settled :
    ¬ ∀ before op after child s, waitForChild ++ [.terminate 2 7] = before ++ op :: after →
      exec step (startIdle 1) before = some s → Exits s child op →
      Settled (startIdle 1) before op after child := by
  have hops : Meets step HeapOk (startIdle 1) (waitForChild ++ [.terminate 2 7]) := by
    refine ⟨not_mem_nil, fun t ht => ⟨trivial, fun t' ht' => ?_⟩⟩
    obtain rfl := Option.some.inj ht
    obtain rfl := Option.some.inj ht'
    refine ⟨?_, fun _ _ => ⟨trivial, fun _ _ => ⟨trivial, fun _ _ => trivial⟩⟩⟩
    change 30 ∉ [10]
    decide
  unfold startIdle at hops ⊢
  rw [exit_status_settled_iff _ _ _ _ _ hops]
  intro h
  apply (meets_iff_forall step).mp h waitForChild (.terminate 2 7) [] _ rfl rfl 30
  exact ⟨by decide, by decide, _, mem_cons_self, rfl⟩

/-- The parent is still blocked, in no queue, and the child is not freed. -/
theorem waiting_parent_stays_blocked :
    ∃ s t, exec step (startIdle 1) waitForChild = some s ∧ Exits s 30 (.terminate 2 7) ∧
      exec step (startIdle 1) (waitForChild ++ [.terminate 2 7]) = some t ∧
      (t.tasks 10).state = .blocked ∧ 10 ∉ t.queued ∧ t.history.freed = [] ∧
      ¬ Settled (startIdle 1) waitForChild (.terminate 2 7) [] 30 := by
  refine ⟨_, _, rfl, ?_, rfl, by decide, by decide, by decide, ?_⟩
  · exact ⟨by decide, by decide, _, mem_cons_self, rfl⟩
  · rintro ⟨s, t, -, ht, -, -, hcount, -⟩
    obtain rfl := Option.some.inj ht
    revert hcount
    decide

end UintOS.Scheduler
