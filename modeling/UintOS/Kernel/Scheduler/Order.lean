import UintOS.Kernel.Scheduler.NotLost

/-!
# The order of the ready tasks

A ready queue holds the tasks of one priority in the order in which they became ready. So the chosen
task has the highest priority and has been ready longest among those, provided that no priority is
changed while a task is in a queue, that the lowest one is left to the idle task, and that the idle
task is never blocked or terminated.
-/

namespace UintOS.Scheduler

open Function List Runs

namespace Sched

variable {s t : Sched} {p q idle : Ptr} {taskId : UInt32}

/-- The queues are those of the priorities, with tasks in the order in which they became ready. -/
structure Sorted (s : Sched) : Prop where
  place : ∀ i, ∀ p ∈ (s.readyQueues i).contents, queueOf (s.tasks p).priority = i
  fifo : ∀ i, (s.readyQueues i).contents.Pairwise fun p q =>
    s.history.readySince p < s.history.readySince q
  past : ∀ i, ∀ p ∈ (s.readyQueues i).contents, s.history.readySince p < s.history.clock

theorem Sorted.sublist (h : Sorted s)
    (hsub : ∀ i, (t.readyQueues i).contents.Sublist (s.readyQueues i).contents)
    (hqueue : ∀ p ∈ t.readyTasks, (t.tasks p).priority = (s.tasks p).priority)
    (hsince : ∀ p ∈ t.readyTasks, t.history.readySince p = s.history.readySince p)
    (hclock : s.history.clock ≤ t.history.clock) : Sorted t := by
  have hmem : ∀ i, ∀ p ∈ (t.readyQueues i).contents, p ∈ t.readyTasks :=
    fun i p hp => mem_readyTasks.mpr ⟨i, hp⟩
  refine ⟨?_, ?_, ?_⟩
  · intro i p hp
    rw [hqueue p (hmem i p hp)]
    exact h.place i p ((hsub i).subset hp)
  · intro i
    apply ((h.fifo i).sublist (hsub i)).imp_of_mem
    intro p q hp hq hlt
    rwa [hsince p (hmem i p hp), hsince q (hmem i q hq)]
  · intro i p hp
    rw [hsince p (hmem i p hp)]
    exact (h.past i p ((hsub i).subset hp)).trans_le hclock

theorem Sorted.push (h : Sorted s) (hp : p ∉ s.readyTasks) {i : Fin maxPriority}
    (hcont : ∀ j, (t.readyQueues j).contents =
      (s.readyQueues j).contents ++ if j = i then [p] else [])
    (htasks : ∀ q, q ≠ p → t.tasks q = s.tasks q) (hi : queueOf (t.tasks p).priority = i)
    (hsince : t.history.readySince = update s.history.readySince p s.history.clock)
    (hclock : t.history.clock = s.history.clock + 1) : Sorted t := by
  have hne : ∀ j, ∀ q ∈ (s.readyQueues j).contents, q ≠ p := by
    rintro j q hq rfl
    exact hp (mem_readyTasks.mpr ⟨j, hq⟩)
  have hold : ∀ j, ∀ q ∈ (s.readyQueues j).contents,
      t.history.readySince q = s.history.readySince q := by
    intro j q hq
    rw [hsince, update_of_ne (hne j q hq)]
  have hnew : t.history.readySince p = s.history.clock := by rw [hsince, update_self]
  have hmem : ∀ {j q}, q ∈ (if j = i then [p] else []) → j = i ∧ q = p := by
    intro j q hq
    split_ifs at hq with hj
    · exact ⟨hj, mem_singleton.mp hq⟩
    · cases hq
  refine ⟨?_, ?_, ?_⟩
  · intro j q hq
    rw [hcont] at hq
    rcases mem_append.mp hq with hq | hq
    · rw [htasks q (hne j q hq)]
      exact h.place j q hq
    · obtain ⟨rfl, rfl⟩ := hmem hq
      exact hi
  · intro j
    rw [hcont, pairwise_append]
    refine ⟨?_, by split_ifs <;> simp, ?_⟩
    · apply (h.fifo j).imp_of_mem
      intro q r hq hr hlt
      rwa [hold j q hq, hold j r hr]
    · intro q hq r hr
      rw [(hmem hr).2, hold j q hq, hnew]
      exact h.past j q hq
  · intro j q hq
    rw [hclock]
    rw [hcont] at hq
    rcases mem_append.mp hq with hq | hq
    · rw [hold j q hq]
      exact (h.past j q hq).trans (Nat.lt_succ_self _)
    · rw [(hmem hq).2, hnew]
      exact Nat.lt_succ_self _

theorem contents_addTask (s : Sched) (p : Ptr)
    (hroom : (s.readyQueues (queueOf (s.tasks p).priority)).count < maxTasks)
      (j : Fin maxPriority) :
    ((s.addTask p).readyQueues j).contents =
      (s.readyQueues j).contents ++ if j = queueOf (s.tasks p).priority then [p] else [] := by
  change (update s.readyQueues _ _ j).contents = _
  split_ifs with hj
  · rw [hj, update_self, TaskQueue.contents_add hroom]
  · rw [update_of_ne hj, append_nil]

/-! ## What else stays -/

/-- The idle task has the lowest priority, as no other; it is ready, or current and running. Nobody
waits for a task, and none has been migrated. -/
structure Regular (s : Sched) (idle : Ptr) : Prop where
  priority : ∀ p ∈ s.history.live, (s.tasks p).priority.toNat < 31
  idlePriority : (s.tasks idle).priority = 31
  idleState : (s.tasks idle).state = .ready ∨
    (s.tasks idle).state = .running ∧ s.getCurrentTask = some idle
  waiting : s.waitingParents = []
  noLocal : s.localTasks = []

end Sched

/-- What `scheduler_schedule` has chosen is ready, and no ready task has a higher priority, or the
same one for longer. The idle task is chosen only when no other is ready. -/
def Selection.Best (selection : Selection) (idle : Ptr) : Prop :=
  ∃ c ∈ selection.ready, c.task = selection.chosen ∧
    (∀ d ∈ selection.ready, c.priority ≤ d.priority) ∧
    (∀ d ∈ selection.ready, d.priority = c.priority → c.since ≤ d.since) ∧
    (selection.chosen = idle → ∀ d ∈ selection.ready, d.task = idle)

instance (selection : Selection) (idle : Ptr) : Decidable (selection.Best idle) :=
  inferInstanceAs (Decidable (∃ c ∈ selection.ready, _))

namespace Sched

variable {s t : Sched} {p q idle : Ptr} {taskId priority : UInt32}

structure Ordered (s : Sched) (idle : Ptr) : Prop where
  sorted : Sorted s
  regular : Regular s idle
  best : ∀ selection ∈ s.history.selections, selection.Best idle

theorem Ordered.same (h : Ordered s idle) (hst : ∀ q, (t.tasks q).state = (s.tasks q).state)
    (hprio : ∀ q, (t.tasks q).priority = (s.tasks q).priority)
    (hqueues : t.readyQueues = s.readyQueues) (hcur : t.getCurrentTask = s.getCurrentTask)
    (hlocal : t.localTasks = []) (hwaiting : t.waitingParents = s.waitingParents)
    (hlive : t.history.live = s.history.live) (hsince : t.history.readySince = s.history.readySince)
    (hclock : s.history.clock ≤ t.history.clock)
    (hselections : t.history.selections = s.history.selections) : Ordered t idle := by
  refine ⟨h.sorted.sublist ?_ (fun q _ => hprio q) ?_ hclock, ⟨?_, ?_, ?_, ?_, ?_⟩, ?_⟩
  · intro i
    rw [hqueues]
  · intro q _
    rw [hsince]
  · intro q hq
    rw [hprio]
    exact h.regular.priority q (hlive ▸ hq)
  · rw [hprio, h.regular.idlePriority]
  · rw [hst, hcur]
    exact h.regular.idleState
  · rw [hwaiting, h.regular.waiting]
  · exact hlocal
  · rw [hselections]
    exact h.best

theorem Ordered.change (h : Ordered s idle) (hidle : p ≠ idle)
    (htasks : ∀ q, q ≠ p → t.tasks q = s.tasks q)
    (hprio : p ∈ s.history.live → (t.tasks p).priority.toNat < 31)
    (hsub : ∀ i, (t.readyQueues i).contents.Sublist (s.readyQueues i).contents)
    (hp : p ∉ t.readyTasks) (hcpus : t.cpuStates = s.cpuStates)
    (hwaiting : t.waitingParents = s.waitingParents) (hlive : t.history.live = s.history.live)
    (hsince : ∀ q, q ≠ p → t.history.readySince q = s.history.readySince q)
    (hclock : s.history.clock ≤ t.history.clock)
    (hselections : t.history.selections = s.history.selections) : Ordered t idle := by
  have hne : ∀ q ∈ t.readyTasks, q ≠ p := by
    rintro q hq rfl
    exact hp hq
  have hcur : t.getCurrentTask = s.getCurrentTask := by
    unfold getCurrentTask
    rw [hcpus]
  refine ⟨h.sorted.sublist hsub ?_ (fun q hq => hsince q (hne q hq)) hclock,
    ⟨?_, ?_, ?_, ?_, ?_⟩, ?_⟩
  · intro q hq
    rw [htasks q (hne q hq)]
  · intro q hq
    rw [hlive] at hq
    by_cases hqp : q = p
    · subst hqp
      exact hprio hq
    · rw [htasks q hqp]
      exact h.regular.priority q hq
  · rw [htasks idle hidle.symm, h.regular.idlePriority]
  · rw [htasks idle hidle.symm, hcur]
    exact h.regular.idleState
  · rw [hwaiting, h.regular.waiting]
  · rw [localTasks_congr hcpus, h.regular.noLocal]
  · rw [hselections]
    exact h.best

theorem Ordered.makeReady (hinv : Inv s idle) (h : Ordered s idle) (hknown : s.Known p)
    (hp : (s.tasks p).state ≠ .ready) : Ordered (s.makeReady p) idle := by
  have hnot : p ∉ s.queued := hinv.placed.notMem hp
  have hprio : ∀ q, ((s.makeReady p).tasks q).priority = (s.tasks q).priority := by
    intro q
    by_cases hqp : q = p
    · rw [hqp, tasks_makeReady_self]
    · rw [tasks_makeReady_of_ne hqp]
  have hroom : (s.readyQueues (queueOf ((s.makeReady p).tasks p).priority)).count < maxTasks :=
    (count_le_queued s _).trans_lt (length_queued_lt hinv.env hinv.placed hknown hnot)
  refine ⟨?_, ⟨?_, ?_, ?_, h.regular.waiting, h.regular.noLocal⟩, h.best⟩
  · exact h.sorted.push (fun hmem => hnot (mem_queued.mpr (.inl hmem)))
      (contents_addTask ((s.noteReady p).setState p .ready) p hroom)
      (fun q hq => tasks_makeReady_of_ne hq) rfl rfl rfl
  · intro q hq
    rw [hprio]
    exact h.regular.priority q hq
  · rw [hprio, h.regular.idlePriority]
  · by_cases hidle : idle = p
    · rw [← hidle, tasks_makeReady_self]
      exact .inl rfl
    · rw [tasks_makeReady_of_ne hidle]
      exact h.regular.idleState

/-! ## The choice -/

section

variable (hinv : Inv s idle) (h : Ordered s idle)
include hinv h

theorem Ordered.wakeSleeper {e : Sleeper}
    (hknown : s.Known e.task) (byTimer : Bool) : Ordered (s.wakeSleeper e byTimer) idle := by
  unfold Sched.wakeSleeper
  split_ifs with hblk
  · apply Ordered.makeReady
    · exact hinv.inert { Keeps.refl s with } rfl rfl rfl
    · exact ⟨{ h.sorted with }, { h.regular with }, h.best⟩
    · exact hknown
    · intro hready
      cases hblk.symm.trans hready
  · exact h

theorem Ordered.wakeDue {es : List Sleeper}
    (hknown : ∀ e ∈ es, s.Known e.task) : Ordered (s.wakeDue es).1 idle := by
  have hall : (Inv (s.wakeDue es).1 idle ∧ Keeps s (s.wakeDue es).1) ∧
      Ordered (s.wakeDue es).1 idle := by
    refine wakeDue_rule ⟨⟨hinv, Keeps.refl s⟩, h⟩ ?_
    rintro t e he ⟨⟨ht, hk⟩, ho⟩
    have hknown := hk.known.mpr (hknown e he)
    exact ⟨⟨ht.wakeSleeper hknown true, hk.trans (keeps_wakeSleeper t e true)⟩,
      ho.wakeSleeper ht hknown true⟩
  exact hall.2

theorem Ordered.checkSleepingTasks : Ordered s.checkSleepingTasks idle := by
  have hdue := h.wakeDue hinv fun e he => hinv.env.sleepers e.task (mem_map_of_mem he)
  exact ⟨{ hdue.sorted with }, { hdue.regular with }, hdue.best⟩

theorem Ordered.saveCurrentTask :
    Ordered s.saveCurrentTask idle ∧ (s.saveCurrentTask.tasks idle).state = .ready := by
  unfold Sched.saveCurrentTask
  rcases h.regular.idleState with hready | ⟨hrunning, hcur⟩
  · cases hcur : s.getCurrentTask with
    | none => exact ⟨h, hready⟩
    | some p =>
      dsimp only
      split_ifs with hrunning
      · have hp : (s.tasks p).state ≠ .ready := by
          rw [hrunning]
          exact TaskState.noConfusion
        refine ⟨h.makeReady hinv (hinv.env.current _ p hcur) hp, ?_⟩
        rw [tasks_makeReady_of_ne]
        · exact hready
        · rintro rfl
          exact hp hready
      · exact ⟨h, hready⟩
  · rw [hcur]
    dsimp only
    rw [if_pos hrunning]
    refine ⟨h.makeReady hinv (.inl hinv.env.idleTask) ?_, ?_⟩
    · rw [hrunning]
      exact TaskState.noConfusion
    · rw [tasks_makeReady_self]

theorem Ordered.choice : Ordered s.choice idle ∧ (s.choice.tasks idle).state = .ready := by
  obtain ⟨hsave, hready⟩ := h.saveCurrentTask hinv
  have hinv' := hinv.saveCurrentTask.1
  refine ⟨hsave.checkSleepingTasks hinv', ?_⟩
  have hu := (checkSleepingTasks_unblocks s.saveCurrentTask).1.tasks (q := idle) (by
    rw [hready]
    exact TaskState.noConfusion)
  unfold Sched.choice
  rw [hu, hready]

end

theorem val_queueOf (h : priority.toNat < maxPriority) :
    (queueOf priority).val = priority.toNat := by
  unfold queueOf
  have hlt : ¬ 2 ^ 31 ≤ priority.toNat := by
    unfold maxPriority at h
    omega
  rw [if_neg hlt, dif_pos h]

theorem mem_candidates {d : Candidate} : d ∈ s.candidates ↔
    ∃ q, s.Known q ∧ (s.tasks q).state = .ready ∧
      d = ⟨q, min (s.tasks q).priority.toNat (maxPriority - 1), s.history.readySince q⟩ := by
  have hknown : ∀ q, q ∈ s.idleTask.toList ++ s.history.live ↔ s.Known q := by
    intro q
    rw [mem_append, Option.mem_toList]
    rfl
  unfold candidates
  rw [mem_map]
  constructor
  · rintro ⟨q, hq, rfl⟩
    obtain ⟨hq, hready⟩ := mem_filter.mp hq
    exact ⟨q, (hknown q).mp hq, of_decide_eq_true hready, rfl⟩
  · rintro ⟨q, hq, hready, rfl⟩
    exact ⟨q, mem_filter.mpr ⟨(hknown q).mpr hq, decide_eq_true hready⟩, rfl⟩

/-- A known task is the idle task, at level 31, or at the level of its priority. -/
theorem Regular.level (h : Regular s idle) (hinv : Inv s idle) (hq : s.Known q) :
    q = idle ∧ min (s.tasks q).priority.toNat (maxPriority - 1) = 31 ∨
      q ∈ s.history.live ∧ (s.tasks q).priority.toNat < 31 ∧
        min (s.tasks q).priority.toNat (maxPriority - 1) = (s.tasks q).priority.toNat := by
  rcases hq with hq | hq
  · left
    obtain rfl : idle = q := Option.some.inj (hinv.env.idleTask.symm.trans hq)
    rw [h.idlePriority]
    exact ⟨rfl, rfl⟩
  · right
    have hlt := h.priority q hq
    refine ⟨hq, hlt, ?_⟩
    unfold maxPriority
    omega

section

variable (hinv : Inv s idle) (h : Ordered s idle)
include hinv h

theorem Ordered.mem_queue (hq : q ∈ s.history.live) (hready : (s.tasks q).state = .ready) :
    ∃ j, q ∈ (s.readyQueues j).contents ∧ j.val = (s.tasks q).priority.toNat := by
  have hmem : q ∈ s.readyTasks := by
    rcases mem_queued.mp (hinv.placed.queued q hq hready) with hmem | hmem
    · exact hmem
    · rw [h.regular.noLocal] at hmem
      cases hmem
  obtain ⟨j, hj⟩ := mem_readyTasks.mp hmem
  refine ⟨j, hj, ?_⟩
  rw [← h.sorted.place j q hj]
  apply val_queueOf
  exact (h.regular.priority q hq).trans (by decide)

theorem Ordered.best_head {i : Fin maxPriority}
    {l : List Ptr} (hcont : (s.readyQueues i).contents = p :: l)
    (hbef : ∀ j < i, (s.readyQueues j).contents = []) :
    Selection.Best ⟨p, s.candidates⟩ idle := by
  have hp : p ∈ (s.readyQueues i).contents := hcont ▸ mem_cons_self
  obtain ⟨hready, hknown⟩ :=
    hinv.placed.ready p (mem_queued.mpr (.inl (mem_readyTasks.mpr ⟨i, hp⟩)))
  -- the queue is the level of the chosen task
  have hlevel : min (s.tasks p).priority.toNat (maxPriority - 1) = i.val := by
    rw [← h.sorted.place i p hp]
    rcases h.regular.level hinv hknown with ⟨rfl, -⟩ | ⟨-, hlt, heq⟩
    · rw [h.regular.idlePriority]
      rfl
    · rw [heq, val_queueOf (hlt.trans (by decide))]
  -- a ready task other than the idle task is in this queue or in a later one
  have hlater : ∀ q ∈ s.history.live, (s.tasks q).state = .ready →
      ∃ j, q ∈ (s.readyQueues j).contents ∧ j.val = (s.tasks q).priority.toNat ∧ i ≤ j := by
    intro q hq hqready
    obtain ⟨j, hj, hval⟩ := h.mem_queue hinv hq hqready
    refine ⟨j, hj, hval, ?_⟩
    by_contra hlt
    rw [hbef j (not_le.mp hlt)] at hj
    cases hj
  refine ⟨_, mem_candidates.mpr ⟨p, hknown, hready, rfl⟩, rfl, ?_, ?_, ?_⟩
  · intro d hd
    obtain ⟨q, hq, hqready, rfl⟩ := mem_candidates.mp hd
    dsimp only
    rw [hlevel]
    rcases h.regular.level hinv hq with ⟨-, heq⟩ | ⟨hlive, -, heq⟩
    · rw [heq]
      exact Nat.le_of_lt_succ i.isLt
    · obtain ⟨j, -, hval, hij⟩ := hlater q hlive hqready
      rw [heq, ← hval]
      exact hij
  · intro d hd hsame
    obtain ⟨q, hq, hqready, rfl⟩ := mem_candidates.mp hd
    dsimp only at hsame ⊢
    rcases h.regular.level hinv hq with ⟨rfl, heq⟩ | ⟨hlive, -, heq⟩
    · rcases h.regular.level hinv hknown with ⟨rfl, -⟩ | ⟨-, hlt, heq'⟩
      · exact le_rfl
      · omega
    · obtain ⟨j, hj, hval, -⟩ := hlater q hlive hqready
      obtain rfl : j = i := Fin.ext (by omega)
      have hfifo := h.sorted.fifo j
      rw [hcont] at hj hfifo
      rcases mem_cons.mp hj with rfl | hj
      · exact le_rfl
      · exact ((pairwise_cons.mp hfifo).1 q hj).le
  · rintro rfl d hd
    obtain ⟨q, hq, hqready, rfl⟩ := mem_candidates.mp hd
    rcases h.regular.level hinv hq with ⟨rfl, -⟩ | ⟨hlive, hlt, -⟩
    · rfl
    · -- the idle task is in the last queue
      obtain ⟨j, -, hval, hij⟩ := hlater q hlive hqready
      have hlast : i.val = 31 := by
        rw [← hlevel, h.regular.idlePriority]
        rfl
      have : i.val ≤ j.val := hij
      omega

theorem Ordered.best_idle (hready : (s.tasks idle).state = .ready) (hempty : s.readyTasks = []) :
    Selection.Best ⟨idle, s.candidates⟩ idle := by
  have honly : ∀ d ∈ s.candidates, d.task = idle ∧
      d = ⟨idle, min (s.tasks idle).priority.toNat (maxPriority - 1),
        s.history.readySince idle⟩ := by
    intro d hd
    obtain ⟨q, hq, hqready, rfl⟩ := mem_candidates.mp hd
    rcases h.regular.level hinv hq with ⟨rfl, -⟩ | ⟨hlive, -⟩
    · exact ⟨rfl, rfl⟩
    · obtain ⟨j, hj, -⟩ := h.mem_queue hinv hlive hqready
      have hmem := mem_readyTasks.mpr ⟨j, hj⟩
      rw [hempty] at hmem
      cases hmem
  refine ⟨_, mem_candidates.mpr ⟨idle, .inl hinv.env.idleTask, hready, rfl⟩, rfl, ?_, ?_, ?_⟩
  · intro d hd
    rw [(honly d hd).2]
  · intro d hd _
    rw [(honly d hd).2]
  · exact fun _ d hd => (honly d hd).1

end

theorem priority_runTask (s : Sched) (p q : Ptr) :
    ((s.runTask p).tasks q).priority = (s.tasks q).priority := by
  by_cases hqp : q = p
  · rw [hqp]
    change (update s.tasks p _ p).priority = _
    rw [update_self]
  · rw [tasks_runTask_of_ne hqp]

theorem Ordered.runTask (h : Ordered s idle) (hready : (s.tasks idle).state = .ready)
    (hbest : Selection.Best ⟨p, s.candidates⟩ idle)
    (htasks : t.tasks = s.tasks) (hcpus : t.cpuStates = s.cpuStates)
    (hwaiting : t.waitingParents = s.waitingParents)
    (hsub : ∀ i, (t.readyQueues i).contents.Sublist (s.readyQueues i).contents)
    (hhistory : t.history = { s.history with
      selections := ⟨p, s.candidates⟩ :: s.history.selections }) :
    Ordered (t.runTask p) idle := by
  have hprio : ∀ q, ((t.runTask p).tasks q).priority = (s.tasks q).priority := by
    intro q
    rw [priority_runTask, htasks]
  refine ⟨h.sorted.sublist hsub (fun q _ => hprio q) ?_ ?_, ⟨?_, ?_, ?_, ?_, ?_⟩, ?_⟩
  · intro q _
    change t.history.readySince q = _
    rw [hhistory]
  · change _ ≤ t.history.clock
    rw [hhistory]
  · intro q hq
    change q ∈ t.history.live at hq
    rw [hhistory] at hq
    rw [hprio]
    exact h.regular.priority q hq
  · rw [hprio, h.regular.idlePriority]
  · by_cases hidle : idle = p
    · rw [← hidle]
      exact .inr ⟨state_runTask_self t idle, getCurrentTask_runTask t idle⟩
    · rw [tasks_runTask_of_ne hidle, htasks]
      exact .inl hready
  · exact hwaiting.trans h.regular.waiting
  · rw [localTasks_runTask, localTasks_congr hcpus, h.regular.noLocal]
  · intro selection hmem
    change selection ∈ t.history.selections at hmem
    rw [hhistory] at hmem
    rcases mem_cons.mp hmem with rfl | hmem
    · exact hbest
    · exact h.best selection hmem

theorem Ordered.balanced (h : Ordered s idle) (hb : Balanced s t) : Ordered t idle := by
  have htasks : t.tasks = s.tasks := by rw [hb.eq]
  have hhistory : t.history = s.history := by rw [hb.eq]
  have hperm := hb.localTasks
  rw [h.regular.noLocal] at hperm
  apply h.same (fun q => by rw [htasks]) (fun q => by rw [htasks]) (by rw [hb.eq])
    (hb.current currentCpu) hperm.eq_nil (by rw [hb.eq])
  all_goals rw [hhistory]

theorem Ordered.schedule (hinv : Inv s idle) (h : Ordered s idle) : Ordered s.schedule idle := by
  have hinv' := hinv.choice.1
  obtain ⟨hchoice, hready⟩ := h.choice hinv
  rcases schedule_cases hinv.env.enabled with ⟨i, p, r, hcont, hbef, hb⟩ | ⟨hempty, hb⟩
  · apply Ordered.balanced ?_ hb
    apply hchoice.runTask (t := (s.choice.setQueue i r).noteSelection p) hready
      (hchoice.best_head hinv' hcont hbef) rfl rfl rfl ?_ rfl
    intro j
    change (update s.choice.readyQueues i r j).contents.Sublist _
    by_cases hj : j = i
    · subst hj
      rw [update_self, hcont]
      exact sublist_cons_self p _
    · rw [update_of_ne hj]
  · have hbest := hchoice.best_idle hinv' hready hempty
    apply Ordered.balanced ?_ (hb idle hinv'.env.idleTask)
    exact hchoice.runTask (t := s.choice.noteSelection idle) hready hbest rfl rfl rfl
      (fun _ => Sublist.refl _) rfl

/-! ## The other calls -/

theorem Ordered.createTask (hinv : Inv s idle) (h : Ordered s idle) (hp : s.Creatable p)
    (hprio : priority.toNat < 31) (stack : Ptr) :
    Ordered ((s.created priority p stack).addTask p) idle := by
  have hnot : p ∉ s.queued := fun hmem => hp.fresh (hinv.placed.ready p hmem).2
  have hne : idle ≠ p := by
    rintro rfl
    exact hp.fresh (.inl hinv.env.idleTask)
  have hroom : ∀ i, (s.readyQueues i).count < maxTasks :=
    fun i => (count_le_queued s i).trans_lt (hinv.length_queued_lt hp)
  have htasks : ∀ q, q ≠ p → ((s.created priority p stack).addTask p).tasks q = s.tasks q :=
    fun q hq => tasks_created_of_ne priority stack hq
  refine ⟨?_, ⟨?_, ?_, ?_, h.regular.waiting, h.regular.noLocal⟩, h.best⟩
  · exact h.sorted.push (fun hmem => hnot (mem_queued.mpr (.inl hmem)))
      (contents_addTask (s.created priority p stack) p (hroom _)) htasks rfl rfl rfl
  · intro q hq
    by_cases hqp : q = p
    · subst hqp
      change ((s.created priority q stack).tasks q).priority.toNat < 31
      rw [tasks_created_self]
      exact hprio
    · rw [htasks q hqp]
      exact h.regular.priority q ((mem_cons.mp hq).resolve_left hqp)
  · rw [htasks idle hne, h.regular.idlePriority]
  · rw [htasks idle hne]
    exact h.regular.idleState

section

variable (h : Ordered s idle) (hp : p ∉ s.queued) (hidle : p ≠ idle)
include h hp hidle

theorem Ordered.setBlocked : Ordered (s.setBlocked p) idle := by
  apply h.change hidle (fun q hq => tasks_setBlocked_of_ne hq) ?_
    (fun _ => Sublist.refl _) (fun hmem => hp (mem_queued.mpr (.inl hmem))) rfl rfl rfl
    (fun _ _ => rfl) (Nat.le_succ _) rfl
  intro hlive
  change (update s.tasks p _ p).priority.toNat < 31
  rw [update_self]
  exact h.regular.priority p hlive

theorem Ordered.addSleepingTask (milliseconds : UInt32) (memory : Bool) :
    Ordered (s.addSleepingTask p milliseconds memory) idle := by
  unfold Sched.addSleepingTask
  split_ifs
  · dsimp only
    apply Ordered.setBlocked
    · exact ⟨{ h.sorted with }, { h.regular with }, h.best⟩
    · exact hp
    · exact hidle
  · exact h

end

theorem Ordered.endSleeps (h : Ordered s idle) (p : Ptr) : Ordered (s.endSleeps p) idle :=
  h.same (fun _ => rfl) (fun _ => rfl) rfl rfl h.regular.noLocal rfl rfl rfl (Nat.le_succ _) rfl

theorem Ordered.unblock (hinv : Inv s idle) (h : Ordered s idle) (hknown : s.Known p) :
    Ordered (s.unblock p) idle := by
  unfold Sched.unblock
  split_ifs with hblk
  · apply (h.endSleeps p).makeReady (hinv.endSleeps p) hknown
    intro hready
    cases hblk.symm.trans hready
  · exact h

theorem Ordered.wakeTask (hinv : Inv s idle) (h : Ordered s idle) (taskId : UInt32) :
    Ordered (s.wakeTask taskId).2 idle := by
  rcases wakeTask_cases s taskId with heq | ⟨e, es, he, hes, -, ⟨-, heq⟩ | ⟨-, heq⟩⟩
  · rw [heq]
    exact h
  · have hdrop : Ordered { s with sleepingTasks := es } idle :=
      ⟨{ h.sorted with }, { h.regular with }, h.best⟩
    have hinv' := hinv.dropSleeper (hes ▸ eraseP_subset : es ⊆ s.sleepingTasks)
    have hknown : s.Known e.task := hinv.env.sleepers e.task (mem_map_of_mem he)
    rw [heq]
    exact (hdrop.endSleeps e.task).wakeSleeper (hinv'.endSleeps e.task) hknown false
  · rw [heq]
    exact ⟨{ h.sorted with }, { h.regular with }, h.best⟩

theorem Ordered.setSlice (h : Ordered s idle) (p : Ptr) (n : Int32) :
    Ordered (s.setTask p { s.tasks p with timeSlice := n }) idle := by
  have hfields : ∀ q, ((s.setTask p { s.tasks p with timeSlice := n }).tasks q).state =
      (s.tasks q).state ∧ ((s.setTask p { s.tasks p with timeSlice := n }).tasks q).priority =
      (s.tasks q).priority := by
    intro q
    by_cases hqp : q = p
    · rw [hqp, tasks_setTask_self]
      exact ⟨rfl, rfl⟩
    · rw [state_setTask_of_ne hqp]
      exact ⟨rfl, rfl⟩
  exact h.same (fun q => (hfields q).1)
    (fun q => (hfields q).2) rfl rfl h.regular.noLocal rfl rfl rfl
    le_rfl rfl

theorem Ordered.tick (hinv : Inv s idle) (hr : s.Running) (h : Ordered s idle) :
    Ordered s.tick idle := by
  let t : Sched := { s with schedulerTicks := s.schedulerTicks + 1 }
  have ht : Ordered t idle :=
    ⟨{ h.sorted with }, { h.regular with }, h.best⟩
  have hinv' : Inv t idle := hinv.inert { Keeps.refl s with } rfl rfl rfl
  have hboth : Inv s.tick idle ∧ Ordered s.tick idle := by
    refine tick_rule ⟨hinv', ht⟩ ?_ fun u hu => ⟨hu.1.schedule.1, hu.2.schedule hu.1⟩
    exact fun p n => ⟨(hinv'.setTask (x := { s.tasks p with timeSlice := n }) hr rfl rfl).1,
      ht.setSlice p n⟩
  exact hboth.2

/-- The priority of a task may be changed while it is in no queue. That of the idle task and of
ready tasks stays the same. -/
def Adjustable (s : Sched) (p : Ptr) (priority : UInt32) : Prop :=
  if s.idleTask = some p then 31 ≤ priority.toNat
  else priority.toNat < 31 ∧ ((s.tasks p).state = .ready → priority = (s.tasks p).priority)

theorem setTask_self (s : Sched) (p : Ptr) : s.setTask p (s.tasks p) = s := by
  unfold setTask
  rw [update_eq_self]

theorem Ordered.setTaskPriority (hinv : Inv s idle) (h : Ordered s idle)
    (hadjust : ∀ p, s.findTaskById taskId = some p → s.Adjustable p priority) :
    Ordered (s.setTaskPriority taskId priority).2 idle := by
  rcases setTaskPriority_cases s taskId priority with heq | ⟨p, x, hfind, hx, hcases⟩
  · rw [heq]
    exact h
  -- a task that keeps its priority is left as it is
  have hsame : x = (s.tasks p).priority → Ordered (s.setTaskPriority taskId priority).2 idle := by
    rintro rfl
    rcases hcases with ⟨-, heq⟩ | ⟨hne, -⟩
    · rw [heq]
      change Ordered (s.setTask p (s.tasks p)) idle
      rw [setTask_self]
      exact h
    · apply absurd _ hne
      unfold maxPriority at hx ⊢
      split_ifs at hx with hbig
      · rw [hx]
        rfl
      · rw [hx]
        omega
  have hok := hadjust p hfind
  unfold Adjustable at hok
  by_cases hidle : p = idle
  · -- the idle task keeps its priority
    subst hidle
    rw [if_pos hinv.env.idleTask] at hok
    have hx31 : x = 31 := by
      rw [hx]
      split_ifs with hbig
      · rfl
      · apply UInt32.toNat_inj.mp
        change priority.toNat = 31
        unfold maxPriority at hbig
        omega
    exact hsame (hx31.trans h.regular.idlePriority.symm)
  rw [if_neg (by rw [hinv.env.idleTask]; exact fun heq => hidle (Option.some.inj heq).symm)] at hok
  obtain ⟨hlt, hready⟩ := hok
  obtain rfl : x = priority := by
    rw [hx, if_neg]
    unfold maxPriority
    omega
  have hlive : p ∈ s.history.live := by
    rcases (hinv.find hfind).1 with hknown | hlive
    · exact absurd (Option.some.inj (hinv.env.idleTask.symm.trans hknown)).symm hidle
    · exact hlive
  by_cases hst : (s.tasks p).state = .ready
  · -- so does a ready task
    exact hsame (hready hst)
  · have hnot : p ∉ s.readyTasks :=
      fun hmem => hinv.placed.notMem hst (mem_queued.mpr (.inl hmem))
    rcases hcases with ⟨-, heq⟩ | ⟨-, heq⟩
    · rw [heq]
      apply h.change hidle (fun q hq => state_setTask_of_ne hq) ?_ (fun _ => Sublist.refl _)
        hnot rfl rfl rfl (fun _ _ => rfl) le_rfl rfl
      intro _
      rw [tasks_setTask_self]
      exact hlt
    · rw [heq]
      apply h.change (t := (s.noteReady p).setTask p { s.tasks p with priority := x }) hidle
        (fun q hq => state_setTask_of_ne hq) ?_ (fun _ => Sublist.refl _) hnot rfl rfl rfl
        (fun q hq => update_of_ne hq _ _) (Nat.le_succ _) rfl
      intro _
      rw [tasks_setTask_self]
      exact hlt

theorem sublist_removeTask (s : Sched) (taskId : UInt32) (i : Fin maxPriority) :
    ((s.removeTaskFromReadyQueue taskId).readyQueues i).contents.Sublist
      (s.readyQueues i).contents := by
  rcases removeTaskFromReadyQueue_cases s taskId with
    ⟨j, q, l, l', -, hcont, r, hr, heq⟩ | ⟨-, heq⟩
  · rw [heq]
    change (update s.readyQueues j r i).contents.Sublist _
    by_cases hij : i = j
    · subst hij
      rw [update_self, hcont, hr]
      exact (Sublist.refl l).append (sublist_cons_self q l')
    · rw [update_of_ne hij]
  · rw [heq]

theorem Ordered.zombified (hinv : Inv s idle) (h : Ordered s idle) (hknown : s.Known p)
    (hidle : p ≠ idle) (exitCode : UInt32) : Ordered (s.zombified p exitCode) idle := by
  have hlocal : p ∉ s.localTasks := by
    rw [h.regular.noLocal]
    exact not_mem_nil
  have hnot := (hinv.zombified hknown hlocal exitCode).placed.notMem (p := p) (by
    rw [state_zombified_self]
    exact TaskState.noConfusion)
  apply h.change hidle (fun q hq => tasks_zombified_of_ne exitCode hq) ?_ ?_
    (fun hmem => hnot (mem_queued.mpr (.inl hmem))) rfl rfl rfl (fun _ _ => rfl)
    (Nat.le_succ _) rfl
  · intro hlive
    change (update s.tasks p _ p).priority.toNat < 31
    rw [update_self]
    exact h.regular.priority p hlive
  · intro i
    rw [readyQueues_zombified]
    exact sublist_removeTask s _ i

theorem Ordered.terminateTask (hinv : Inv s idle) (h : Ordered s idle)
    (hidle : s.findTaskById taskId ≠ some idle) (exitCode : UInt32) :
    Ordered (s.terminateTask taskId exitCode).2 idle := by
  cases hfind : s.findTaskById taskId with
  | none =>
    rw [terminateTask_of_none hfind]
    exact h
  | some p =>
    obtain ⟨hknown, hid⟩ := hinv.find hfind
    have hne : p ≠ idle := by
      rintro rfl
      exact hidle hfind
    have hlocal : p ∉ s.localTasks := by
      rw [h.regular.noLocal]
      exact not_mem_nil
    have hz := h.zombified hinv hknown hne exitCode
    have hinvz := hinv.zombified hknown hlocal exitCode
    -- nobody waits for the task
    have hcheck : (s.zombified p exitCode).checkWaitingParents taskId exitCode =
        s.zombified p exitCode := by
      unfold Sched.checkWaitingParents
      rw [hz.regular.waiting]
      change { s.zombified p exitCode with waitingParents := [] } = _
      rw [← hz.regular.waiting]
    rw [terminateTask_eq hid hfind, hcheck]
    dsimp only
    split_ifs
    · exact hz.schedule hinvz
    · exact hz

/-- A task for which there is no stack is written and given back. -/
theorem Inv.outside (h : Inv s idle) (hr : s.Running) (hp : ¬ s.Known p) (x : Task)
    (nextTaskId : UInt32) : Inv ({ s with nextTaskId := nextTaskId }.setTask p x) idle ∧
      ({ s with nextTaskId := nextTaskId }.setTask p x).Running := by
  let t : Sched := { s with nextTaskId := nextTaskId }.setTask p x
  have htasks : ∀ q, s.Known q → t.tasks q = s.tasks q := by
    intro q hq
    apply update_of_ne
    rintro rfl
    exact hp hq
  refine ⟨⟨⟨h.env.idleTask, h.env.notLive, h.env.enabled, h.env.cpus, ?_, h.env.current,
    h.env.sleepers, h.env.room⟩, ⟨h.placed.nodup, ?_, ?_, h.placed.idle⟩⟩, ?_⟩
  · intro q r hq hr hid
    rw [htasks q hq, htasks r hr] at hid
    exact h.env.ids q r hq hr hid
  · intro q hq
    obtain ⟨hready, hknown⟩ := h.placed.ready q hq
    rw [htasks q hknown]
    exact ⟨hready, hknown⟩
  · intro q hq hready
    rw [htasks q (.inr hq)] at hready
    exact h.placed.queued q hq hready
  · intro q hq
    rw [htasks q (h.env.current _ q hq)]
    exact hr q hq

theorem Ordered.outside (hinv : Inv s idle) (h : Ordered s idle) (hp : ¬ s.Known p) (x : Task)
    (nextTaskId : UInt32) : Ordered ({ s with nextTaskId := nextTaskId }.setTask p x) idle := by
  let t : Sched := { s with nextTaskId := nextTaskId }
  apply h.change (t := t.setTask p x) (p := p) ?_
    (fun q hq => state_setTask_of_ne (s := t) hq) (fun hlive => absurd (.inr hlive) hp)
    (fun _ => Sublist.refl _) ?_ rfl rfl rfl (fun _ _ => rfl) le_rfl rfl
  · rintro rfl
    exact hp (.inl hinv.env.idleTask)
  · intro hmem
    exact hp (hinv.placed.ready p (mem_queued.mpr (.inl hmem))).2

end Sched

open Sched

/-! ## Runs -/

/-- The calls that keep the order: tasks other than the idle task have priorities up to 30, the
priority of a ready task is not changed, and the idle task is neither blocked nor terminated. A new
task has unused memory and a new id, and there are fewer than 256. -/
def OrderOk (s : Sched) : Op → Prop
  | .create priority task _ => ∀ p, task = some p → s.Creatable p ∧ priority.toNat < 31
  | .block => ∀ p, s.getCurrentTask = some p → s.idleTask ≠ some p
  | .sleep milliseconds _ =>
    milliseconds = 0 ∨ ∀ p, s.getCurrentTask = some p → s.idleTask ≠ some p
  | .setPriority taskId priority =>
    ∀ p, s.findTaskById taskId = some p → s.Adjustable p priority
  | .terminate taskId _ => ∀ p, s.findTaskById taskId = some p → s.idleTask ≠ some p
  | .schedule | .tick | .yield | .unblock _ | .wake _ => True
  | _ => False

theorem step_ordered {s t : Sched} {idle : Ptr} (hinv : Inv s idle) (hr : s.Running)
    (h : Ordered s idle) {op : Op} (hop : OrderOk s op) (hstep : step s op = some t) :
    Inv t idle ∧ t.Running ∧ Ordered t idle := by
  have hidle := hinv.env.idleTask
  have hblock : ∀ p, s.getCurrentTask = some p → p ∉ s.queued := fun p => Running.notMem hinv hr
  -- what is left to show for a call that keeps tasks in their places
  have hplaced : PlaceOk s op → Ordered t idle → Inv t idle ∧ t.Running ∧ Ordered t idle := by
    intro hop ht
    obtain ⟨hinv', hr'⟩ := step_placed hinv hr hop hstep
    exact ⟨hinv', hr', ht⟩
  obtain rfl : (op.call s).2 = t := Option.some.inj hstep
  cases op with
  | create priority task stack =>
    cases task with
    | none => exact ⟨hinv, hr, h⟩
    | some p =>
      obtain ⟨hp, hprio⟩ := hop p rfl
      cases stack with
      | none =>
        obtain ⟨hinv', hr'⟩ := hinv.outside hr hp.fresh _ _
        exact ⟨hinv', hr', h.outside hinv hp.fresh _ _⟩
      | some stack =>
        exact hplaced ⟨p, stack, rfl, rfl, hp⟩ (h.createTask hinv hp hprio stack)
  | schedule => exact hplaced trivial (h.schedule hinv)
  | tick => exact hplaced trivial (h.tick hinv hr)
  | yield => exact hplaced trivial ((yield_eq s).symm ▸ h.schedule hinv)
  | block =>
    refine hplaced trivial (blockCurrentTask_rule h fun p hp => ?_)
    have hne : p ≠ idle := fun heq => hop p hp (heq ▸ hidle)
    exact (h.setBlocked (hblock p hp) hne).schedule (hinv.setBlocked (hblock p hp))
  | unblock taskId =>
    exact hplaced trivial (unblockTask_rule h fun p hfind => h.unblock hinv (hinv.find hfind).1)
  | sleep milliseconds memory =>
    refine hplaced trivial (sleep_rule h (h.schedule hinv) fun p hzero hp => ?_)
    have hne : p ≠ idle := fun heq => hop.resolve_left hzero p hp (heq ▸ hidle)
    exact (h.addSleepingTask (hblock p hp) hne milliseconds memory).schedule
      (hinv.addSleepingTask (hblock p hp) (hinv.env.current _ p hp) milliseconds memory)
  | wake taskId => exact hplaced trivial (h.wakeTask hinv taskId)
  | waitpid _ _ _ _ => exact hop.elim
  | setPriority taskId priority => exact hplaced trivial (h.setTaskPriority hinv hop)
  | migrate _ _ => exact hop.elim
  | terminate taskId exitCode =>
    apply hplaced
    · intro p _
      rw [h.regular.noLocal]
      exact not_mem_nil
    · exact h.terminateTask hinv (fun hfind => hop idle hfind hidle) exitCode
  | initSmp _ | registerIdle _ | setPreemption _ | setAlgorithm _ | setQuantum _ => exact hop.elim

theorem ordered_start (tasks : Ptr → Task) (exitVars : Ptr → UInt32) (numCpus : ℤ) (idle : Ptr) :
    Ordered (start tasks exitVars numCpus idle) idle := by
  have hidle : (start tasks exitVars numCpus idle).tasks idle =
      { tasks idle with state := .ready, priority := 31 } := update_self _ _ _
  refine ⟨⟨?_, ?_, ?_⟩, ⟨?_, ?_, ?_, rfl, localTasks_start tasks exitVars numCpus idle⟩, ?_⟩
  · intro i p hp
    cases hp
  · intro i
    exact List.Pairwise.nil
  · intro i p hp
    cases hp
  · intro p hp
    cases hp
  · rw [hidle]
  · rw [hidle]
    exact .inl rfl
  · intro selection hmem
    cases hmem

/-- On one CPU, every choice of a run whose calls meet the condition is the best. -/
theorem choices_are_best (tasks : Ptr → Task) (exitVars : Ptr → UInt32) (idle : Ptr)
    (ops : List Op) (h : Meets step OrderOk (start tasks exitVars 1 idle) ops) :
    Throughout step (fun s => ∀ selection ∈ s.history.selections, selection.Best idle)
      (start tasks exitVars 1 idle) ops := by
  have hstart := inv_start tasks exitVars 1 idle
  have hrunning := running_start tasks exitVars 1 idle
  have hordered := ordered_start tasks exitVars 1 idle
  have hrun := throughout_of_meets step (I := fun s => Inv s idle ∧ s.Running ∧ Ordered s idle)
    (fun _ _ _ hs hop hstep => step_ordered hs.1 hs.2.1 hs.2.2 hop hstep)
    ⟨hstart, hrunning, hordered⟩ h
  exact hrun.imp step fun _ hs => hs.2.2.best

/-- Of two tasks of one priority the first runs, gets a higher priority, runs again, and is
terminated. -/
theorem promoted_task_runs_again :
    Throughout step (fun s => ∀ selection ∈ s.history.selections, selection.Best 1000)
      (startIdle 1) [.create 5 (some 10) (some 11), .create 5 (some 20) (some 21), .schedule,
        .setPriority 1 4, .yield, .terminate 1 0] := by
  apply choices_are_best
  refine ⟨?_, ?_⟩
  · rintro p hp
    obtain rfl := Option.some.inj hp
    exact ⟨creatable_of_list (by decide) (by decide), by decide⟩
  intro t ht
  obtain rfl := Option.some.inj ht
  refine ⟨?_, ?_⟩
  · rintro p hp
    obtain rfl := Option.some.inj hp
    exact ⟨creatable_of_list (by decide) (by decide), by decide⟩
  intro t ht
  obtain rfl := Option.some.inj ht
  refine ⟨trivial, ?_⟩
  intro t ht
  obtain rfl := Option.some.inj ht
  refine ⟨?_, ?_⟩
  · intro p hp
    obtain rfl : p = 10 := Option.some.inj (hp.symm.trans (by decide))
    unfold Adjustable
    rw [if_neg (by decide)]
    exact ⟨by decide, fun h => absurd h (by decide)⟩
  intro t ht
  obtain rfl := Option.some.inj ht
  refine ⟨trivial, ?_⟩
  intro t ht
  obtain rfl := Option.some.inj ht
  refine ⟨?_, fun _ _ => trivial⟩
  intro p hp
  obtain rfl : p = 10 := Option.some.inj (hp.symm.trans (by decide))
  decide

/-- A task whose priority is lowered while it is ready stays in its queue, and is chosen before a
task that now has a higher priority. -/
theorem lowered_task_is_chosen :
    ∃ t, exec step (startIdle 1) [.create 5 (some 10) (some 11), .create 6 (some 20) (some 21),
        .setPriority 1 10, .schedule] = some t ∧
      ∃ selection ∈ t.history.selections, ¬ selection.Best 1000 := by
  refine ⟨_, rfl, ?_⟩
  decide

end UintOS.Scheduler
