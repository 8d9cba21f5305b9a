import UintOS.Kernel.Scheduler.Placement

/-!
# Runs of the scheduler

Every call keeps ready tasks, and no others, in the queues, under a condition on the tasks that
are migrated, terminated and waited for.
-/

namespace UintOS.Scheduler

open List Option Runs

namespace Sched

variable {s : Sched} {p idle : Ptr} {taskId : UInt32}

/-! ## New tasks -/

/-- A task can be created: the heap gives unused memory, and the next id and the number of tasks are
in their bounds. -/
structure Creatable (s : Sched) (p : Ptr) : Prop where
  fresh : ¬ s.Known p
  newId : ∀ q, s.Known q → (s.tasks q).id ≠ s.nextTaskId
  room : s.history.live.length + 1 < maxTasks

def created (s : Sched) (priority : UInt32) (p stack : Ptr) : Sched :=
  let parentId := (s.getCurrentTask.map fun p => (s.tasks p).id).getD 0
  let t := ({ s with nextTaskId := s.nextTaskId + 1 }.noteReady p).setTask p
    ⟨s.nextTaskId, .ready, priority, 0, stack, 0, parentId⟩
  { t with history := { t.history with live := p :: t.history.live } }

theorem creatable_of_list (h : ∀ q ∈ s.idleTask.toList ++ s.history.live,
      q ≠ p ∧ (s.tasks q).id ≠ s.nextTaskId) (hroom : s.history.live.length + 1 < maxTasks) :
    s.Creatable p := by
  have hknown : ∀ q, s.Known q → q ≠ p ∧ (s.tasks q).id ≠ s.nextTaskId := by
    intro q hq
    exact h q (mem_append.mpr (hq.imp_left mem_toList.mpr))
  exact ⟨fun hp => (hknown p hp).1 rfl, fun q hq => (hknown q hq).2, hroom⟩

theorem known_created (priority : UInt32) (stack q : Ptr) :
    (s.created priority p stack).Known q ↔ q = p ∨ s.Known q := by
  change s.idleTask = some q ∨ q ∈ p :: s.history.live ↔ _
  rw [mem_cons]
  unfold Known
  tauto

theorem tasks_created_of_ne (priority : UInt32) (stack : Ptr) {q : Ptr} (h : q ≠ p) :
    (s.created priority p stack).tasks q = s.tasks q := Function.update_of_ne h _ _

theorem tasks_created_self (s : Sched) (priority : UInt32) (p stack : Ptr) :
    (s.created priority p stack).tasks p = ⟨s.nextTaskId, .ready, priority, 0, stack, 0,
      (s.getCurrentTask.map fun p => (s.tasks p).id).getD 0⟩ := Function.update_self _ _ _

theorem Env.created (h : Env s idle) (hp : s.Creatable p) (priority : UInt32) (stack : Ptr) :
    Env (s.created priority p stack) idle := by
  refine ⟨h.idleTask, ?_, h.enabled, h.cpus, ?_, ?_, ?_, hp.room⟩
  · change idle ∉ p :: s.history.live
    rw [mem_cons, not_or]
    refine ⟨?_, h.notLive⟩
    rintro rfl
    exact hp.fresh (.inl h.idleTask)
  · intro q r hq hr heq
    rw [known_created] at hq hr
    by_cases hqp : q = p
    · by_cases hrp : r = p
      · rw [hqp, hrp]
      · rw [hqp, tasks_created_self, tasks_created_of_ne priority stack hrp] at heq
        exact absurd heq.symm (hp.newId r (hr.resolve_left hrp))
    · by_cases hrp : r = p
      · rw [hrp, tasks_created_self, tasks_created_of_ne priority stack hqp] at heq
        exact absurd heq (hp.newId q (hq.resolve_left hqp))
      · rw [tasks_created_of_ne priority stack hqp, tasks_created_of_ne priority stack hrp] at heq
        exact h.ids q r (hq.resolve_left hqp) (hr.resolve_left hrp) heq
  · intro i q hq
    exact (known_created priority stack q).mpr (.inr (h.current i q hq))
  · intro q hq
    exact (known_created priority stack q).mpr (.inr (h.sleepers q hq))

section

variable (h : Inv s idle)
include h

theorem Inv.length_queued_lt (hp : s.Creatable p) : s.queued.length < maxTasks := by
  have hsubset : s.queued ⊆ idle :: s.history.live :=
    fun q hq => h.env.known_iff.mp (h.placed.ready q hq).2
  have hle := (h.placed.nodup.subperm hsubset).length_le
  have := hp.room
  rw [length_cons] at hle
  omega

theorem Inv.createTask (hp : s.Creatable p) (priority : UInt32) (stack : Ptr) :
    Inv ((s.created priority p stack).addTask p) idle := by
  have hnot : p ∉ s.queued := fun hmem => hp.fresh (h.placed.ready p hmem).2
  have hperm : ((s.created priority p stack).addTask p).queued.Perm (p :: s.queued) := by
    have hadd := readyTasks_addTask (s := s.created priority p stack) (p := p)
      ((count_le_queued s _).trans_lt (h.length_queued_lt hp))
    exact hadd.append_right _
  have hk : Keeps (s.created priority p stack) ((s.created priority p stack).addTask p) :=
    { Keeps.refl _ with }
  refine ⟨(h.env.created hp priority stack).keeps hk, ?_, ?_, ?_, h.placed.idle⟩
  · exact hperm.nodup_iff.mpr (nodup_cons.mpr ⟨hnot, h.placed.nodup⟩)
  · intro q hq
    rw [hk.known, known_created]
    change ((s.created priority p stack).tasks q).state = .ready ∧ _
    by_cases hqp : q = p
    · rw [hqp, tasks_created_self]
      exact ⟨rfl, .inl rfl⟩
    · rw [tasks_created_of_ne priority stack hqp]
      obtain ⟨hready, hknown⟩ :=
        h.placed.ready q ((mem_cons.mp (hperm.mem_iff.mp hq)).resolve_left hqp)
      exact ⟨hready, .inr hknown⟩
  · intro q hq hready
    apply hperm.mem_iff.mpr
    by_cases hqp : q = p
    · exact hqp ▸ mem_cons_self
    · change ((s.created priority p stack).tasks q).state = .ready at hready
      rw [tasks_created_of_ne priority stack hqp] at hready
      exact mem_cons_of_mem p (h.placed.queued q ((mem_cons.mp hq).resolve_left hqp) hready)

theorem Running.createTask (hr : s.Running) (hp : s.Creatable p)
    (priority : UInt32) (stack : Ptr) : ((s.created priority p stack).addTask p).Running := by
  intro q hq
  have hcur : s.getCurrentTask = some q := hq
  have hqp : q ≠ p := by
    rintro rfl
    exact hp.fresh (h.env.current _ q hcur)
  change ((s.created priority p stack).tasks q).state = .running
  rw [tasks_created_of_ne priority stack hqp]
  exact hr q hcur

/-! ## The other calls -/

theorem Running.notMem (hr : s.Running) (hcur : s.getCurrentTask = some p) : p ∉ s.queued := by
  apply h.placed.notMem
  rw [hr p hcur]
  exact TaskState.noConfusion

theorem Inv.setBlocked (hp : p ∉ s.queued) : Inv (s.setBlocked p) idle := by
  have hnote : Inv (s.noteBlocked p) idle := h.inert { Keeps.refl s with } rfl rfl rfl
  exact ⟨h.env.keeps (keeps_setBlocked s p),
    placed_setTask hnote.placed rfl hp TaskState.noConfusion⟩

theorem Inv.setTask (hr : s.Running) {x : Task} (hid : x.id = (s.tasks p).id)
    (hst : x.state = (s.tasks p).state) : Inv (s.setTask p x) idle ∧
      (s.setTask p x).Running := by
  refine ⟨⟨h.env.keeps (keeps_setTask hid), placed_setTask_same h.placed hid hst⟩, ?_⟩
  intro q hq
  by_cases hqp : q = p
  · subst hqp
    rw [tasks_setTask_self, hst]
    exact hr q hq
  · rw [state_setTask_of_ne hqp]
    exact hr q hq

theorem Inv.tick (hr : s.Running) : Inv s.tick idle ∧ s.tick.Running := by
  have hticks : Inv { s with schedulerTicks := s.schedulerTicks + 1 } idle :=
    h.inert { Keeps.refl s with } rfl rfl rfl
  exact tick_rule ⟨hticks, hr⟩ (fun _ _ => hticks.setTask hr rfl rfl) fun _ ht => ht.1.schedule

end

theorem mem_insertSleeper {e x : Sleeper} {es : List Sleeper} :
    x ∈ insertSleeper e es ↔ x = e ∨ x ∈ es := by
  unfold insertSleeper
  rw [mem_append, mem_cons]
  nth_rewrite 3 [← takeWhile_append_dropWhile (p := fun y : Sleeper => y.wakeTime ≤ e.wakeTime)
    (l := es)]
  rw [mem_append]
  tauto

theorem Inv.addSleepingTask (h : Inv s idle) (hp : p ∉ s.queued) (hknown : s.Known p)
    (milliseconds : UInt32) (memory : Bool) :
    Inv (s.addSleepingTask p milliseconds memory) idle := by
  unfold Sched.addSleepingTask
  split_ifs
  · dsimp only
    apply Inv.setBlocked
    · apply Inv.inert h
      · refine { Keeps.refl s with sleepers := ?_ }
        intro q hq
        change q ∈ (insertSleeper _ s.sleepingTasks).map Sleeper.task at hq
        obtain ⟨e, he, rfl⟩ := mem_map.mp hq
        rcases mem_insertSleeper.mp he with rfl | he
        · exact .inr hknown
        · exact .inl (mem_map_of_mem he)
      · rfl
      · rfl
      · rfl
    · exact hp
  · exact h

theorem wakeTask_cases (s : Sched) (taskId : UInt32) : (s.wakeTask taskId).2 = s ∨
    ∃ e es, e ∈ s.sleepingTasks ∧
      es = s.sleepingTasks.eraseP (fun e => (s.tasks e.task).id = taskId) ∧
      s.sleepingTasks.find? (fun e => (s.tasks e.task).id = taskId) = some e ∧
      ((s.tasks e.task).state = .blocked ∧ (s.wakeTask taskId).2 =
          ({ s with sleepingTasks := es }.endSleeps e.task).wakeSleeper e false ∨
        (s.tasks e.task).state ≠ .blocked ∧
          (s.wakeTask taskId).2 = { s with sleepingTasks := es }) := by
  unfold wakeTask
  cases hfind : s.sleepingTasks.find? fun e => (s.tasks e.task).id = taskId with
  | none => exact .inl rfl
  | some e =>
    right
    dsimp only
    refine ⟨e, _, mem_of_find?_eq_some hfind, rfl, rfl, ?_⟩
    split_ifs with hblk
    · exact .inl ⟨hblk, rfl⟩
    · unfold wakeSleeper
      rw [if_neg hblk]
      exact .inr ⟨hblk, rfl⟩

theorem Inv.wakeTask (h : Inv s idle) (hr : s.Running) (taskId : UInt32) :
    Inv (s.wakeTask taskId).2 idle ∧ (s.wakeTask taskId).2.Running := by
  rcases wakeTask_cases s taskId with heq | ⟨e, es, he, hes, -, ⟨-, heq⟩ | ⟨-, heq⟩⟩
  · rw [heq]
    exact ⟨h, hr⟩
  · have hdrop := h.dropSleeper (hes ▸ eraseP_subset : es ⊆ s.sleepingTasks)
    have hknown : s.Known e.task := h.env.sleepers e.task (mem_map_of_mem he)
    have hu := unblocks_wakeSleeper (({ s with sleepingTasks := es } : Sched).endSleeps e.task) e
      false
    rw [heq]
    exact ⟨(hdrop.endSleeps e.task).wakeSleeper hknown false, hr.unblocks { hu with }⟩
  · rw [heq]
    exact ⟨h.dropSleeper (hes ▸ eraseP_subset), hr⟩

theorem setTaskPriority_cases (s : Sched) (taskId priority : UInt32) :
    (s.setTaskPriority taskId priority).2 = s ∨
    ∃ p x, s.findTaskById taskId = some p ∧
      x = (if maxPriority ≤ priority.toNat then 31 else priority) ∧
      (min (s.tasks p).priority.toNat (maxPriority - 1) = x.toNat ∧
          (s.setTaskPriority taskId priority).2 =
            s.setTask p { s.tasks p with priority := x } ∨
        min (s.tasks p).priority.toNat (maxPriority - 1) ≠ x.toNat ∧
          (s.setTaskPriority taskId priority).2 =
            (s.noteReady p).setTask p { s.tasks p with priority := x }) := by
  unfold setTaskPriority
  generalize (if maxPriority ≤ priority.toNat then 31 else priority) = x
  cases hfind : s.findTaskById taskId with
  | none => exact .inl rfl
  | some p =>
    right
    dsimp only
    refine ⟨p, x, rfl, rfl, ?_⟩
    split_ifs with hsame
    · exact .inl ⟨hsame, rfl⟩
    · exact .inr ⟨hsame, rfl⟩

theorem Inv.setTaskPriority (h : Inv s idle) (hr : s.Running) (taskId priority : UInt32) :
    Inv (s.setTaskPriority taskId priority).2 idle ∧
      (s.setTaskPriority taskId priority).2.Running := by
  rcases setTaskPriority_cases s taskId priority with heq | ⟨p, x, -, -, ⟨-, heq⟩ | ⟨-, heq⟩⟩
  · rw [heq]
    exact ⟨h, hr⟩
  · rw [heq]
    exact h.setTask hr rfl rfl
  · have hnote : Inv (s.noteReady p) idle := h.inert { Keeps.refl s with } rfl rfl rfl
    rw [heq]
    exact hnote.setTask hr rfl rfl

theorem waitpid_cases (s : Sched) (taskId : UInt32) (exitCode : Option Ptr) (options : UInt32)
    (memory : Bool) :
    (s.waitpid taskId exitCode options memory).2 = s ∨
    (∃ child vars, s.findTaskById taskId = some child ∧ (s.tasks child).state = .zombie ∧
      (s.waitpid taskId exitCode options memory).2 =
        { s with exitVars := vars }.freeTask child) ∨
    (∃ current child ws, s.getCurrentTask = some current ∧ s.findTaskById taskId = some child ∧
      options &&& 1 = 0 ∧ (s.waitpid taskId exitCode options memory).2 =
        ({ s with waitingParents := ws }.setBlocked current).schedule) := by
  unfold waitpid
  cases hcur : s.getCurrentTask with
  | none => exact .inl rfl
  | some current =>
    cases hfind : s.findTaskById taskId with
    | none => exact .inl rfl
    | some child =>
      dsimp only
      split_ifs with hparent hzombie hoption
      · exact .inl rfl
      · right
        left
        cases exitCode with
        | none => exact ⟨child, s.exitVars, rfl, hzombie, rfl⟩
        | some ptr => exact ⟨child, _, rfl, hzombie, rfl⟩
      · exact .inl rfl
      · right
        right
        have hoption : options &&& 1 = 0 := not_not.mp hoption
        unfold addWaitingParent
        split_ifs
        · exact ⟨current, child, _, rfl, rfl, hoption, rfl⟩
        · exact ⟨current, child, s.waitingParents, rfl, rfl, hoption, rfl⟩

theorem Inv.waitpid (h : Inv s idle) (hr : s.Running)
    (hchild : ∀ p, s.findTaskById taskId = some p → (s.tasks p).state ≠ .zombie)
    (exitCode : Option Ptr) (options : UInt32) (memory : Bool) :
    Inv (s.waitpid taskId exitCode options memory).2 idle ∧
      (s.waitpid taskId exitCode options memory).2.Running := by
  rcases waitpid_cases s taskId exitCode options memory with
    heq | ⟨child, vars, hfind, hzombie, -⟩ | ⟨current, child, ws, hcur, -, -, heq⟩
  · rw [heq]
    exact ⟨h, hr⟩
  · exact absurd hzombie (hchild child hfind)
  · rw [heq]
    have hwait : Inv { s with waitingParents := ws } idle :=
      h.inert { Keeps.refl s with } rfl rfl rfl
    have hnot : current ∉ s.queued := Running.notMem h hr hcur
    exact (hwait.setBlocked hnot).schedule

end Sched

open Sched

/-! ## Runs -/

section

variable (tasks : Ptr → Task) (exitVars : Ptr → UInt32) (numCpus : ℤ) (idle : Ptr)

theorem cpuStates_start (i : Fin maxCpus) :
    ((start tasks exitVars numCpus idle).cpuStates i).currentTask = none ∧
      ((start tasks exitVars numCpus idle).cpuStates i).localQueue = .empty := by
  unfold start Sched.setPreemption Sched.registerIdleTask Sched.initSmp Sched.init
  dsimp only [noteReady, Sched.setTask]
  split_ifs <;> exact ⟨rfl, rfl⟩

theorem readyTasks_start : (start tasks exitVars numCpus idle).readyTasks = [] := by
  apply eq_nil_iff_forall_not_mem.mpr
  intro p hp
  obtain ⟨i, hi⟩ := mem_readyTasks.mp hp
  cases hi

theorem localTasks_start : (start tasks exitVars numCpus idle).localTasks = [] := by
  apply eq_nil_iff_forall_not_mem.mpr
  intro p hp
  obtain ⟨i, hi⟩ := mem_localTasks.mp hp
  rw [(cpuStates_start ..).2] at hi
  cases hi

theorem numCpus_start : 0 < (start tasks exitVars numCpus idle).numCpus := by
  change 0 < if numCpus ≤ 0 then 1 else if (maxCpus : ℤ) < numCpus then maxCpus else numCpus.toNat
  split_ifs with hzero hmax
  · exact Nat.one_pos
  · decide
  · omega

theorem inv_start : Inv (start tasks exitVars numCpus idle) idle := by
  have hready := readyTasks_start tasks exitVars numCpus idle
  have hlocal := localTasks_start tasks exitVars numCpus idle
  have hqueued : (start tasks exitVars numCpus idle).queued = [] := by
    unfold queued
    rw [hready, hlocal]
    rfl
  refine ⟨⟨rfl, not_mem_nil, rfl, numCpus_start tasks exitVars numCpus idle, ?_, ?_, ?_,
    (by decide : 0 < maxTasks)⟩, ⟨?_, ?_, ?_, ?_⟩⟩
  · rintro p q (hp | hp) (hq | hq) -
    · exact some.inj (hp.symm.trans hq)
    · cases hq
    · cases hp
    · cases hp
  · intro i p hp
    rw [(cpuStates_start ..).1] at hp
    cases hp
  · intro p hp
    cases hp
  · rw [hqueued]
    exact nodup_nil
  · intro p hp
    rw [hqueued] at hp
    cases hp
  · intro p hp
    cases hp
  · intro p _ hp
    rw [hlocal] at hp
    cases hp

theorem running_start : (start tasks exitVars numCpus idle).Running := by
  intro p hp
  unfold getCurrentTask at hp
  rw [(cpuStates_start ..).1] at hp
  cases hp

end

/-- No task is in the queues twice, a ready task other than the idle task is in them, and a task in
them is neither running nor blocked nor a zombie. -/
structure OnePlace (s : Sched) : Prop where
  nodup : s.queued.Nodup
  ready : ∀ p ∈ s.history.live, (s.tasks p).state = .ready → s.queued.count p = 1
  states : ∀ p ∈ s.queued, (s.tasks p).state ≠ .running ∧ (s.tasks p).state ≠ .blocked ∧
    (s.tasks p).state ≠ .zombie

/-- The calls that keep tasks in their places: one creates a task in new memory, with a new id,
while there are fewer than 256; one migrates a ready task other than the idle one, not migrated
before; one terminates a task that was not migrated, and one waits for a task that is not yet a
zombie. -/
def PlaceOk (s : Sched) : Op → Prop
  | .create _ task stack => ∃ p stack', task = some p ∧ stack = some stack' ∧ s.Creatable p
  | .migrate taskId _ => ∀ p, s.findTaskById taskId = some p → s.Movable p
  | .terminate taskId _ => ∀ p, s.findTaskById taskId = some p → p ∉ s.localTasks
  | .waitpid taskId _ _ _ =>
    ∀ p, s.findTaskById taskId = some p → (s.tasks p).state ≠ .zombie
  | op => op.IsTaskCall

theorem step_placed {s t : Sched} {idle : Ptr} (h : Inv s idle) (hr : s.Running) {op : Op}
    (hop : PlaceOk s op) (hstep : step s op = some t) : Inv t idle ∧ t.Running := by
  obtain rfl : (op.call s).2 = t := some.inj hstep
  have hblock : ∀ p, s.getCurrentTask = some p → p ∉ s.queued := fun p => Running.notMem h hr
  cases op with
  | create priority task stack =>
    obtain ⟨p, stack', rfl, rfl, hp⟩ := hop
    exact ⟨h.createTask hp priority stack', Running.createTask h hr hp priority stack'⟩
  | schedule => exact h.schedule
  | tick => exact h.tick hr
  | yield => exact (yield_eq s).symm ▸ h.schedule
  | block => exact blockCurrentTask_rule ⟨h, hr⟩ fun p hp => (h.setBlocked (hblock p hp)).schedule
  | unblock taskId =>
    exact unblockTask_rule ⟨h, hr⟩ fun p hfind =>
      ⟨h.unblock (h.find hfind).1, hr.unblocks (unblocks_unblock s p)⟩
  | sleep milliseconds memory =>
    exact sleep_rule ⟨h, hr⟩ h.schedule fun p _ hp =>
      (h.addSleepingTask (hblock p hp) (h.env.current _ p hp) milliseconds memory).schedule
  | wake taskId => exact h.wakeTask hr taskId
  | waitpid taskId exitCode options memory => exact h.waitpid hr hop exitCode options memory
  | setPriority taskId priority => exact h.setTaskPriority hr taskId priority
  | migrate taskId cpuId => exact h.migrateTask hr cpuId hop
  | terminate taskId exitCode => exact h.terminateTask hr hop exitCode
  | initSmp _ | registerIdle _ | setPreemption _ | setAlgorithm _ | setQuantum _ => exact hop.elim

theorem onePlace_of_inv {s : Sched} {idle : Ptr} (h : Inv s idle) : OnePlace s := by
  refine ⟨h.placed.nodup, ?_, ?_⟩
  · intro p hp hready
    exact count_eq_one_of_mem h.placed.nodup (h.placed.queued p hp hready)
  · intro p hp
    rw [(h.placed.ready p hp).1]
    exact ⟨TaskState.noConfusion, TaskState.noConfusion, TaskState.noConfusion⟩

/-- With any number of CPUs and any idle task, each task is in one place throughout a run whose
calls meet the condition. -/
theorem each_task_in_one_place (tasks : Ptr → Task) (exitVars : Ptr → UInt32) (numCpus : ℤ)
    (idle : Ptr) (ops : List Op) (h : Meets step PlaceOk (start tasks exitVars numCpus idle) ops) :
    Throughout step OnePlace (start tasks exitVars numCpus idle) ops := by
  have hstart := inv_start tasks exitVars numCpus idle
  have hrunning := running_start tasks exitVars numCpus idle
  have hrun := throughout_of_meets step (I := fun s => Inv s idle ∧ s.Running)
    (fun _ _ _ hs hop hstep => step_placed hs.1 hs.2 hop hstep) ⟨hstart, hrunning⟩ h
  exact hrun.imp step fun _ hs => onePlace_of_inv hs.1

/-- An idle task at address 1000 with id 0. -/
def startIdle (numCpus : ℤ) : Sched :=
  start (fun _ => ⟨0, .unused, 0, 0, 0, 0, 0⟩) (fun _ => 0) numCpus 1000

/-- On two CPUs a task is created, a second one with a higher priority is, the second one runs, and
the first one is migrated. -/
theorem migrated_ready_task_in_one_place : Throughout step OnePlace (startIdle 2)
      [.create 5 (some 10) (some 11), .create 3 (some 20) (some 21), .schedule, .migrate 1 1] := by
  apply each_task_in_one_place
  refine ⟨⟨10, 11, rfl, rfl, creatable_of_list (by decide) (by decide)⟩, ?_⟩
  intro t ht
  obtain rfl := some.inj ht
  refine ⟨⟨20, 21, rfl, rfl, creatable_of_list (by decide) (by decide)⟩, ?_⟩
  intro t ht
  obtain rfl := some.inj ht
  refine ⟨trivial, ?_⟩
  intro t ht
  obtain rfl := some.inj ht
  refine ⟨?_, fun _ _ => trivial⟩
  intro p hp
  obtain rfl : p = 10 := some.inj (hp.symm.trans (by decide))
  exact ⟨by decide, by decide, by decide⟩

/-- The current task is put into the queue of its CPU while running. -/
theorem migrated_current_task_is_queued :
    ∃ t, exec step (startIdle 1) [.create 5 (some 10) (some 11), .schedule, .migrate 1 0] = some t ∧
      ¬ OnePlace t := by
  refine ⟨_, rfl, ?_⟩
  intro h
  exact (h.states 10 (by decide)).1 (by decide)

end UintOS.Scheduler
