import UintOS.Kernel.Scheduler.OnePlace

/-!
# Where tasks are found

`scheduler_find_task_by_id` looks at the current task, the ready queues and the sleeping list. A
task is in one of these places as long as tasks are blocked only by sleeping, and are neither
terminated nor migrated.
-/

namespace UintOS.Scheduler

open Function List Runs

namespace Sched

variable {s t : Sched} {p q idle : Ptr} {taskId : UInt32}

def sleepers (s : Sched) : List Ptr := s.sleepingTasks.map Sleeper.task

/-- Known tasks are ready, running or blocked. A running one is the current task, and a blocked one
is on the sleeping list. -/
structure Held (s : Sched) : Prop where
  states : ∀ p, s.Known p →
    (s.tasks p).state = .ready ∨ (s.tasks p).state = .running ∨ (s.tasks p).state = .blocked
  running : ∀ p, s.Known p → (s.tasks p).state = .running → s.getCurrentTask = some p
  blocked : ∀ p, s.Known p → (s.tasks p).state = .blocked → p ∈ s.sleepers
  noLocal : s.localTasks = []

def InPlace (s : Sched) (p : Ptr) : Prop :=
  (s.tasks p).state = .ready ∨ (s.tasks p).state = .running ∧ s.getCurrentTask = some p ∨
    (s.tasks p).state = .blocked ∧ p ∈ s.sleepers

theorem Held.inPlace (h : Held s) (hp : s.Known p) : s.InPlace p := by
  rcases h.states p hp with hst | hst | hst
  · exact .inl hst
  · exact .inr (.inl ⟨hst, h.running p hp hst⟩)
  · exact .inr (.inr ⟨hst, h.blocked p hp hst⟩)

theorem held_of_inPlace (h : ∀ p, s.Known p → s.InPlace p) (hlocal : s.localTasks = []) :
    Held s := by
  refine ⟨?_, ?_, ?_, hlocal⟩
  · intro p hp
    rcases h p hp with hst | ⟨hst, -⟩ | ⟨hst, -⟩ <;> simp [hst]
  · intro p hp hrunning
    rcases h p hp with hst | ⟨-, hcur⟩ | ⟨hst, -⟩
    · cases hst.symm.trans hrunning
    · exact hcur
    · cases hst.symm.trans hrunning
  · intro p hp hblk
    rcases h p hp with hst | ⟨hst, -⟩ | ⟨-, hmem⟩
    · cases hst.symm.trans hblk
    · cases hst.symm.trans hblk
    · exact hmem

/-- No task is running, as it is in the middle of `scheduler_schedule`. -/
def Still (s : Sched) : Prop := ∀ p, s.Known p → (s.tasks p).state ≠ .running

theorem Held.unblocks (h : Held s) (hk : Keeps s t) (hu : Unblocks s t)
    (hslp : ∀ q, (t.tasks q).state = .blocked → q ∈ s.sleepers → q ∈ t.sleepers)
    (hlocal : t.localTasks = s.localTasks) : Held t := by
  refine held_of_inPlace (fun p hp => ?_) (hlocal.trans h.noLocal)
  rcases hu.change p with hsame | ⟨-, hready⟩
  · unfold InPlace
    rw [hsame, hu.current]
    rcases h.inPlace (hk.known.mp hp) with hst | hst | ⟨hst, hmem⟩
    · exact .inl hst
    · exact .inr (.inl hst)
    · exact .inr (.inr ⟨hst, hslp p (hsame ▸ hst) hmem⟩)
  · exact .inl (by rw [hready])

theorem Still.unblocks (h : Still s) (hk : Keeps s t) (hu : Unblocks s t) : Still t := by
  intro p hp
  rcases hu.change p with hsame | ⟨-, hready⟩
  · rw [hsame]
    exact h p (hk.known.mp hp)
  · rw [hready]
    exact TaskState.noConfusion

theorem Held.change (h : Held s) (hk : Keeps s t) (hne : ∀ q, q ≠ p → t.tasks q = s.tasks q)
    (hself : (t.tasks p).state = .ready ∨ (t.tasks p).state = .running ∧ t.getCurrentTask = some p ∨
      (t.tasks p).state = .blocked ∧ p ∈ s.sleepers)
    (hrunning : ∀ q, s.Known q → q ≠ p → (s.tasks q).state = .running → t.getCurrentTask = some q)
    (hslp : t.sleepers = s.sleepers) (hlocal : t.localTasks = s.localTasks) : Held t := by
  refine held_of_inPlace (fun q hq => ?_) (hlocal.trans h.noLocal)
  unfold InPlace
  rw [hslp]
  by_cases hqp : q = p
  · rw [hqp]
    exact hself
  · rw [hne q hqp]
    have hknown := hk.known.mp hq
    rcases h.inPlace hknown with hst | ⟨hst, -⟩ | hst
    · exact .inl hst
    · exact .inr (.inl ⟨hst, hrunning q hknown hqp hst⟩)
    · exact .inr (.inr hst)

theorem sleepers_endSleeps (s : Sched) (p : Ptr) : (s.endSleeps p).sleepers = s.sleepers := by
  unfold sleepers endSleeps
  rw [map_map]
  apply map_congr_left
  intro e _
  dsimp only [comp]
  split_ifs <;> rfl

theorem sleepers_unblock (s : Sched) (p : Ptr) : (s.unblock p).sleepers = s.sleepers := by
  unfold unblock
  split_ifs
  · exact sleepers_endSleeps s p
  · rfl

theorem localTasks_wakeSleeper (s : Sched) (e : Sleeper) (byTimer : Bool) :
    (s.wakeSleeper e byTimer).localTasks = s.localTasks := by
  unfold wakeSleeper
  split_ifs <;> rfl

theorem localTasks_unblock (s : Sched) (p : Ptr) : (s.unblock p).localTasks = s.localTasks := by
  unfold unblock
  split_ifs <;> rfl

theorem Held.unblock (h : Held s) (p : Ptr) : Held (s.unblock p) := by
  apply h.unblocks (keeps_unblock s p) (unblocks_unblock s p) ?_ (localTasks_unblock s p)
  intro q _ hq
  rw [sleepers_unblock]
  exact hq

/-! ## The timer -/

theorem state_wakeSleeper_self (s : Sched) (e : Sleeper) (byTimer : Bool) :
    ((s.wakeSleeper e byTimer).tasks e.task).state ≠ .blocked := by
  unfold wakeSleeper
  split_ifs with hblk
  · rw [tasks_makeReady_self]
    exact TaskState.noConfusion
  · exact hblk

theorem wakeDue_unblocks (s : Sched) (es : List Sleeper) :
    Unblocks s (s.wakeDue es).1 ∧ (s.wakeDue es).1.localTasks = s.localTasks := by
  refine wakeDue_rule ⟨Unblocks.refl s, rfl⟩ ?_
  intro t e _ ht
  exact ⟨ht.1.trans (unblocks_wakeSleeper t e true), (localTasks_wakeSleeper t e true).trans ht.2⟩

theorem mem_wakeDue (s : Sched) (es : List Sleeper)
    (hblk : ((s.wakeDue es).1.tasks q).state = .blocked) (hq : q ∈ es.map Sleeper.task) :
    q ∈ (s.wakeDue es).2.map Sleeper.task := by
  induction es generalizing s with
  | nil => exact hq
  | cons e es ih =>
    rw [map_cons, mem_cons] at hq
    rw [wakeDue] at hblk ⊢
    by_cases hdue : e.wakeTime ≤ s.schedulerTicks
    · rw [if_pos hdue] at hblk ⊢
      apply ih (s.wakeSleeper e true) hblk
      apply hq.resolve_left
      rintro rfl
      -- the loop does not block the task again
      have hawake := state_wakeSleeper_self s e true
      rw [(wakeDue_unblocks (s.wakeSleeper e true) es).1.tasks hawake] at hblk
      exact hawake hblk
    · rw [if_neg hdue] at hblk ⊢
      change q ∈ e.task :: (s.wakeDue es).2.map Sleeper.task
      rcases hq with rfl | hq
      · exact mem_cons_self
      · exact mem_cons_of_mem _ (ih s hblk hq)

theorem checkSleepingTasks_unblocks (s : Sched) :
    Unblocks s s.checkSleepingTasks ∧ s.checkSleepingTasks.localTasks = s.localTasks := by
  obtain ⟨hu, hlocal⟩ := wakeDue_unblocks s s.sleepingTasks
  exact ⟨{ hu with }, hlocal⟩

theorem Held.checkSleepingTasks (hinv : Inv s idle) (h : Held s) : Held s.checkSleepingTasks := by
  obtain ⟨hu, hlocal⟩ := checkSleepingTasks_unblocks s
  apply h.unblocks hinv.checkSleepingTasks.2 hu ?_ hlocal
  intro q hblk hq
  exact mem_wakeDue s s.sleepingTasks hblk hq

/-! ## Scheduling -/

theorem Held.saveCurrentTask (h : Held s) : Held s.saveCurrentTask ∧ Still s.saveCurrentTask := by
  unfold Sched.saveCurrentTask
  cases hcur : s.getCurrentTask with
  | none =>
    refine ⟨h, ?_⟩
    intro p hp hrunning
    cases hcur.symm.trans (h.running p hp hrunning)
  | some p =>
    dsimp only
    have hother : ∀ q, s.Known q → q ≠ p → (s.tasks q).state ≠ .running := by
      intro q hq hqp hrunning
      exact hqp (Option.some.inj (hcur.symm.trans (h.running q hq hrunning))).symm
    split_ifs with hrunning
    · have hk := keeps_makeReady s p
      have hself : ((s.makeReady p).tasks p).state = .ready := by rw [tasks_makeReady_self]
      refine ⟨h.change hk (fun _ => tasks_makeReady_of_ne) (.inl hself)
        (fun q hq hqp hst => absurd hst (hother q hq hqp)) rfl rfl, ?_⟩
      intro q hq
      by_cases hqp : q = p
      · rw [hqp, hself]
        exact TaskState.noConfusion
      · rw [tasks_makeReady_of_ne hqp]
        exact hother q (hk.known.mp hq) hqp
    · refine ⟨h, ?_⟩
      intro q hq
      by_cases hqp : q = p
      · rw [hqp]
        exact hrunning
      · exact hother q hq hqp

theorem Held.choice (hinv : Inv s idle) (h : Held s) : Held s.choice ∧ Still s.choice := by
  obtain ⟨hsave, hstill⟩ := h.saveCurrentTask
  have hinv' := hinv.saveCurrentTask.1
  exact ⟨hsave.checkSleepingTasks hinv',
    hstill.unblocks hinv'.checkSleepingTasks.2 (checkSleepingTasks_unblocks _).1⟩

theorem tasks_runTask_of_ne (h : q ≠ p) : (s.runTask p).tasks q = s.tasks q :=
  update_of_ne h _ _

theorem state_runTask_self (s : Sched) (p : Ptr) : ((s.runTask p).tasks p).state = .running :=
  congrArg Task.state (update_self p _ s.tasks)

theorem Held.runTask (h : Held s) (hstill : Still s) (hknown : s.Known p) : Held (s.runTask p) :=
  h.change (keeps_runTask s hknown) (fun _ => tasks_runTask_of_ne)
    (.inr (.inl ⟨state_runTask_self s p, getCurrentTask_runTask s p⟩))
    (fun q hq _ hst => absurd hst (hstill q hq)) rfl (localTasks_runTask s p)

theorem Held.same (h : Held s) (hk : Keeps s t)
    (hst : ∀ q, (t.tasks q).state = (s.tasks q).state)
      (hcur : t.getCurrentTask = s.getCurrentTask)
    (hslp : t.sleepers = s.sleepers) (hlocal : t.localTasks = []) : Held t := by
  refine held_of_inPlace (fun q hq => ?_) hlocal
  unfold InPlace
  rw [hst, hcur, hslp]
  exact h.inPlace (hk.known.mp hq)

theorem Held.balanced (h : Held s) (hb : Balanced s t) : Held t := by
  have hslp : t.sleepers = s.sleepers := by rw [hb.eq]; rfl
  refine h.same (keeps_of_balanced hb) (fun q => by rw [hb.eq]) (hb.current currentCpu) hslp ?_
  have hperm := hb.localTasks
  rw [h.noLocal] at hperm
  exact hperm.eq_nil

theorem Held.schedule (hinv : Inv s idle) (h : Held s) : Held s.schedule := by
  obtain ⟨hchoice, hstill⟩ := h.choice hinv
  obtain ⟨hinv', -⟩ := hinv.choice
  rcases schedule_cases hinv.env.enabled with ⟨i, p, r, hcont, -, hb⟩ | ⟨hempty, hb⟩
  · have hmem : p ∈ s.choice.queued := by
      apply mem_queued.mpr
      left
      apply mem_readyTasks.mpr
      exact ⟨i, hcont ▸ mem_cons_self⟩
    have hknown := (hinv'.placed.ready p hmem).2
    have hheld : Held ((s.choice.setQueue i r).noteSelection p) := { hchoice with }
    exact (hheld.runTask hstill hknown).balanced hb
  · have hheld : Held (s.choice.noteSelection idle) := { hchoice with }
    exact (hheld.runTask hstill (.inl hinv'.env.idleTask)).balanced (hb idle hinv'.env.idleTask)

theorem tasks_setBlocked_of_ne (h : q ≠ p) : (s.setBlocked p).tasks q = s.tasks q :=
  update_of_ne h _ _

theorem state_setBlocked_self (s : Sched) (p : Ptr) : ((s.setBlocked p).tasks p).state = .blocked :=
  congrArg Task.state (update_self p _ (s.noteBlocked p).tasks)

theorem Held.setBlocked (h : Held s) (hp : p ∈ s.sleepers) : Held (s.setBlocked p) :=
  h.change (keeps_setBlocked s p) (fun _ => tasks_setBlocked_of_ne)
    (.inr (.inr ⟨state_setBlocked_self s p, hp⟩)) (fun q hq _ => h.running q hq) rfl rfl

theorem Held.setTask (h : Held s) {x : Task} (hid : x.id = (s.tasks p).id)
    (hst : x.state = (s.tasks p).state) : Held (s.setTask p x) := by
  refine h.same (keeps_setTask hid) ?_ rfl rfl h.noLocal
  intro q
  by_cases hqp : q = p
  · rw [hqp, tasks_setTask_self, hst]
  · rw [state_setTask_of_ne hqp]

/-! ## Finding -/

theorem currentCpu_mem (h : 0 < s.numCpus) : currentCpu ∈ s.cpus := by
  unfold cpus
  rw [mem_filter]
  exact ⟨mem_finRange _, decide_eq_true h⟩

theorem Inv.find_of_mem (h : Inv s idle) (hp : p ∈ s.places) :
    s.findTaskById (s.tasks p).id = some p := by
  cases hfind : s.findTaskById (s.tasks p).id with
  | none =>
    have := find?_eq_none.mp hfind p hp
    simp at this
  | some q =>
    obtain ⟨hknown, hid⟩ := h.find hfind
    rw [h.env.ids q p hknown (h.known_of_mem hp) hid]

theorem mem_places_of_sleeper (hp : p ∈ s.sleepers) : p ∈ s.places := mem_append_right _ hp

theorem Held.mem_places (hinv : Inv s idle) (h : Held s) (hp : p ∈ s.history.live) :
    p ∈ s.places := by
  rcases h.states p (.inr hp) with hready | hrunning | hblk
  · have hqueued := hinv.placed.queued p hp hready
    rw [mem_queued, h.noLocal] at hqueued
    exact mem_append_left _ (mem_append_right _ (hqueued.resolve_right not_mem_nil))
  · have hcur := h.running p (.inr hp) hrunning
    have hmem : p ∈ s.cpus.filterMap fun i => (s.cpuStates i).currentTask :=
      mem_filterMap.mpr ⟨currentCpu, currentCpu_mem hinv.env.cpus, hcur⟩
    exact mem_append_left _ (mem_append_left _ hmem)
  · exact mem_places_of_sleeper (h.blocked p (.inr hp) hblk)

/-! ## The calls -/

theorem Held.createTask (h : Held s) (p : Ptr) (priority : UInt32) (stack : Ptr) :
    Held ((s.created priority p stack).addTask p) := by
  refine held_of_inPlace (fun q hq => ?_) h.noLocal
  by_cases hqp : q = p
  · subst hqp
    exact .inl (congrArg Task.state (tasks_created_self s priority q stack))
  · have hsame : ((s.created priority p stack).addTask p).tasks q = s.tasks q :=
      tasks_created_of_ne priority stack hqp
    unfold InPlace
    rw [hsame]
    exact h.inPlace (((known_created priority stack q).mp hq).resolve_left hqp)

theorem Held.tick (hinv : Inv s idle) (hr : s.Running) (h : Held s) : Held s.tick := by
  have hticks : Inv { s with schedulerTicks := s.schedulerTicks + 1 } idle :=
    hinv.inert { Keeps.refl s with } rfl rfl rfl
  have hheld : Held { s with schedulerTicks := s.schedulerTicks + 1 } := { h with }
  have hboth : Inv s.tick idle ∧ Held s.tick := by
    refine tick_rule ⟨hticks, hheld⟩ ?_ fun t ht => ⟨ht.1.schedule.1, ht.2.schedule ht.1⟩
    exact fun p n => ⟨(hticks.setTask (x := { s.tasks p with timeSlice := n }) hr rfl rfl).1,
      hheld.setTask rfl rfl⟩
  exact hboth.2

theorem sleepers_insertSleeper {e : Sleeper} {es : List Sleeper} :
    q ∈ (insertSleeper e es).map Sleeper.task ↔ q = e.task ∨ q ∈ es.map Sleeper.task := by
  simp only [mem_map, mem_insertSleeper]
  constructor
  · rintro ⟨x, rfl | hx, rfl⟩
    · exact .inl rfl
    · exact .inr ⟨x, hx, rfl⟩
  · rintro (rfl | ⟨x, hx, rfl⟩)
    · exact ⟨e, .inl rfl, rfl⟩
    · exact ⟨x, .inr hx, rfl⟩

theorem Held.addSleepingTask (h : Held s) (p : Ptr) (milliseconds : UInt32) (memory : Bool) :
    Held (s.addSleepingTask p milliseconds memory) := by
  unfold Sched.addSleepingTask
  split_ifs
  · dsimp only
    apply Held.setBlocked
    · refine ⟨h.states, h.running, ?_, h.noLocal⟩
      intro q hq hblk
      exact sleepers_insertSleeper.mpr (.inr (h.blocked q hq hblk))
    · exact sleepers_insertSleeper.mpr (.inl rfl)
  · exact h

theorem Held.wakeTask (hinv : Inv s idle) (h : Held s) (taskId : UInt32) :
    Held (s.wakeTask taskId).2 := by
  -- only the entry that was found is dropped
  have hkept : ∀ e ∈ s.sleepingTasks, (s.tasks e.task).id = taskId → ∀ q, s.Known q → q ≠ e.task →
      q ∈ s.sleepers →
      q ∈ (s.sleepingTasks.eraseP fun e => (s.tasks e.task).id = taskId).map Sleeper.task := by
    intro e he hid q hq hqe hmem
    obtain ⟨x, hx, rfl⟩ := mem_map.mp hmem
    apply mem_map_of_mem
    apply (mem_eraseP_of_neg ?_).mpr hx
    intro hxid
    have hxid : (s.tasks x.task).id = taskId := by simpa using hxid
    exact hqe (hinv.env.ids _ _ hq (hinv.env.sleepers _ (mem_map_of_mem he)) (hxid.trans hid.symm))
  rcases wakeTask_cases s taskId with heq | ⟨e, es, he, hes, hfind, ⟨hblk, heq⟩ | ⟨hawake, heq⟩⟩
  · rw [heq]
    exact h
  · have hid : (s.tasks e.task).id = taskId := by simpa using find?_some hfind
    have hk : Keeps s _ :=
      ((keeps_dropSleeper (hes ▸ eraseP_subset : es ⊆ s.sleepingTasks)).trans
        (keeps_endSleeps _ e.task)).trans (keeps_wakeSleeper _ e false)
    have hu := unblocks_wakeSleeper (({ s with sleepingTasks := es } : Sched).endSleeps e.task) e
      false
    rw [heq]
    apply h.unblocks hk { hu with } ?_ (localTasks_wakeSleeper _ e false)
    intro q hqblocked hq
    have hqe : q ≠ e.task := by
      rintro rfl
      exact state_wakeSleeper_self _ e false hqblocked
    have hslp : ((({ s with sleepingTasks := es } : Sched).endSleeps e.task).wakeSleeper e
        false).sleepers = es.map Sleeper.task := by
      rw [sleepers, sleepingTasks_wakeSleeper]
      exact sleepers_endSleeps ({ s with sleepingTasks := es } : Sched) e.task
    rw [hslp, hes]
    exact hkept e he hid q (hinv.env.sleepers q hq) hqe hq
  · have hid : (s.tasks e.task).id = taskId := by simpa using find?_some hfind
    rw [heq]
    refine ⟨h.states, h.running, ?_, h.noLocal⟩
    intro q hq hblk
    rw [sleepers, hes]
    apply hkept e he hid q hq ?_ (h.blocked q hq hblk)
    rintro rfl
    exact hawake hblk

/-- A blocked task that is unblocked by its id is ready and in a ready queue. -/
theorem unblockTask_of_blocked (hinv : Inv s idle) (h : Held s) (hknown : s.Known p)
    (hblk : (s.tasks p).state = .blocked) :
    ((s.unblockTask (s.tasks p).id).tasks p).state = .ready ∧
      p ∈ (s.unblockTask (s.tasks p).id).readyTasks := by
  have hfind : s.findTaskById (s.tasks p).id = some p :=
    hinv.find_of_mem (mem_places_of_sleeper (h.blocked p hknown hblk))
  have hend := hinv.endSleeps p
  have hne : ((s.endSleeps p).tasks p).state ≠ .ready := by
    change (s.tasks p).state ≠ .ready
    rw [hblk]
    exact TaskState.noConfusion
  have heq : s.unblockTask (s.tasks p).id = (s.endSleeps p).makeReady p := by
    unfold unblockTask
    rw [hfind]
    exact if_pos hblk
  rw [heq]
  refine ⟨by rw [tasks_makeReady_self], ?_⟩
  exact (readyTasks_makeReady hend.env hend.placed hknown hne).mem_iff.mpr mem_cons_self

theorem migrateTask_of_none (hfind : s.findTaskById taskId = none) (cpuId : ℤ) :
    (s.migrateTask taskId cpuId).2 = s ∧ (s.migrateTask taskId cpuId).1 ≠ 0 := by
  unfold Sched.migrateTask
  split_ifs with hcpu
  · exact ⟨rfl, Int.negSucc_ne_zero _⟩
  · rw [hfind]
    dsimp only
    split_ifs
    · exact ⟨rfl, Int.negSucc_ne_zero _⟩
    · exact ⟨rfl, Int.negSucc_ne_zero _⟩

end Sched

open Sched

/-! ## Runs -/

/-- The scheduler, and the last call with the state before it. -/
structure Session where
  sched : Sched
  last : Option (Sched × Op)

def Session.step (s : Session) (op : Op) : Option Session :=
  some ⟨(op.call s.sched).2, some (s.sched, op)⟩

/-- No task is lost: each one created is found by its id, a blocked one just unblocked is ready and
in a ready queue, and a ready one just migrated is in a ready queue, from which `scheduler_schedule`
takes tasks whatever the CPU. -/
structure NotLost (s : Session) : Prop where
  found : ∀ p ∈ s.sched.history.live, s.sched.findTaskById (s.sched.tasks p).id = some p
  unblocked : ∀ before taskId p, s.last = some (before, .unblock taskId) → before.Known p →
    (before.tasks p).id = taskId → (before.tasks p).state = .blocked →
      (s.sched.tasks p).state = .ready ∧ p ∈ s.sched.readyTasks
  migrated : ∀ before taskId cpuId p, s.last = some (before, .migrate taskId cpuId) →
    (before.migrateTask taskId cpuId).1 = 0 → before.Known p → (before.tasks p).id = taskId →
      (before.tasks p).state = .ready → p ∈ s.sched.readyTasks

/-- The calls that lose no task: one creates a task in new memory, with a new id, while there are
fewer than 256; one blocks the current task, or makes it wait, only if it is on the sleeping list,
and none terminates or migrates a task. -/
def FindOk (s : Sched) : Op → Prop
  | .create _ task stack => ∃ p stack', task = some p ∧ stack = some stack' ∧ s.Creatable p
  | .block => ∀ p, s.getCurrentTask = some p → p ∈ s.sleepers
  | .waitpid taskId _ options _ => s.findTaskById taskId = none ∨ options &&& 1 ≠ 0 ∨
      ∀ p, s.getCurrentTask = some p → p ∈ s.sleepers
  | .migrate taskId _ => s.findTaskById taskId = none
  | .terminate taskId _ => s.findTaskById taskId = none
  | op => op.IsTaskCall

theorem placeOk_of_findOk {s : Sched} {idle : Ptr} (hinv : Inv s idle) (h : Held s) {op : Op}
    (hop : FindOk s op) : PlaceOk s op := by
  cases op with
  | create priority task stack => exact hop
  | migrate taskId cpuId | terminate taskId exitCode =>
    intro p hp
    cases hp.symm.trans hop
  | waitpid taskId exitCode options memory =>
    intro p hp hzombie
    rcases h.states p (hinv.find hp).1 with hst | hst | hst
    · cases hst.symm.trans hzombie
    · cases hst.symm.trans hzombie
    · cases hst.symm.trans hzombie
  | block | schedule | tick | yield | unblock _ | sleep _ _ | wake _ | setPriority _ _ => trivial
  | initSmp _ | registerIdle _ | setPreemption _ | setAlgorithm _ | setQuantum _ => exact hop

theorem step_held {s : Sched} {idle : Ptr} (hinv : Inv s idle) (hr : s.Running) (h : Held s)
    {op : Op} (hop : FindOk s op) : Held (op.call s).2 := by
  have hset : ∀ p, p ∈ s.sleepers → s.getCurrentTask = some p → Held (s.setBlocked p).schedule := by
    intro p hp hcur
    exact (h.setBlocked hp).schedule (hinv.setBlocked (Running.notMem hinv hr hcur))
  cases op with
  | create priority task stack =>
    obtain ⟨p, stack', rfl, rfl, hp⟩ := hop
    exact h.createTask _ priority stack'
  | schedule => exact h.schedule hinv
  | tick => exact h.tick hinv hr
  | yield => exact (yield_eq s).symm ▸ h.schedule hinv
  | block => exact blockCurrentTask_rule h fun p hp => hset p (hop p hp) hp
  | unblock taskId => exact unblockTask_rule h fun p _ => h.unblock p
  | sleep milliseconds memory =>
    exact sleep_rule h (h.schedule hinv) fun p _ hp =>
      (h.addSleepingTask p milliseconds memory).schedule (hinv.addSleepingTask
        (Running.notMem hinv hr hp) (hinv.env.current _ p hp) milliseconds memory)
  | wake taskId => exact h.wakeTask hinv taskId
  | waitpid taskId exitCode options memory =>
    change Held (s.waitpid taskId exitCode options memory).2
    rcases waitpid_cases s taskId exitCode options memory with
      heq | ⟨child, vars, hfind, hzombie, -⟩ | ⟨current, child, ws, hcur, hfind, hoption, heq⟩
    · rw [heq]
      exact h
    · exact absurd hzombie (placeOk_of_findOk hinv h hop child hfind)
    · rw [heq]
      have hsleeper : current ∈ s.sleepers := by
        rcases hop with hnone | hhang | hslp
        · cases hnone.symm.trans hfind
        · exact absurd hoption hhang
        · exact hslp current hcur
      have hwait : Inv { s with waitingParents := ws } idle :=
        hinv.inert { Keeps.refl s with } rfl rfl rfl
      have hheld : Held { s with waitingParents := ws } := { h with }
      have hnot : current ∉ s.queued := Running.notMem hinv hr hcur
      exact (hheld.setBlocked hsleeper).schedule (hwait.setBlocked hnot)
  | setPriority taskId priority =>
    change Held (s.setTaskPriority taskId priority).2
    rcases setTaskPriority_cases s taskId priority with heq | ⟨p, x, -, -, ⟨-, heq⟩ | ⟨-, heq⟩⟩
    · rw [heq]
      exact h
    · rw [heq]
      exact h.setTask rfl rfl
    · have hnote : Held (s.noteReady p) := { h with }
      rw [heq]
      exact hnote.setTask rfl rfl
  | migrate taskId cpuId =>
    change Held (s.migrateTask taskId cpuId).2
    rw [(migrateTask_of_none hop cpuId).1]
    exact h
  | terminate taskId exitCode =>
    change Held (s.terminateTask taskId exitCode).2
    rw [terminateTask_of_none hop]
    exact h
  | initSmp _ | registerIdle _ | setPreemption _ | setAlgorithm _ | setQuantum _ => exact hop.elim

theorem step_notLost {s t : Session} {idle : Ptr}
    (h : Inv s.sched idle ∧ s.sched.Running ∧ Held s.sched) {op : Op} (hop : FindOk s.sched op)
    (hstep : s.step op = some t) :
    (Inv t.sched idle ∧ t.sched.Running ∧ Held t.sched) ∧ NotLost t := by
  obtain ⟨hinv, hr, hheld⟩ := h
  obtain rfl := Option.some.inj hstep
  obtain ⟨hinv', hr'⟩ := step_placed hinv hr (placeOk_of_findOk hinv hheld hop) rfl
  have hheld' := step_held hinv hr hheld hop
  refine ⟨⟨hinv', hr', hheld'⟩, ⟨?_, ?_, ?_⟩⟩
  · intro p hp
    exact hinv'.find_of_mem (hheld'.mem_places hinv' hp)
  · rintro before taskId p ⟨⟩ hknown rfl hblk
    exact unblockTask_of_blocked hinv hheld hknown hblk
  · rintro before taskId cpuId p ⟨⟩ hmoved
    exact absurd hmoved (migrateTask_of_none hop cpuId).2

theorem held_start (tasks : Ptr → Task) (exitVars : Ptr → UInt32) (numCpus : ℤ) (idle : Ptr) :
    Held (start tasks exitVars numCpus idle) := by
  have hidle : ((start tasks exitVars numCpus idle).tasks idle).state = .ready :=
    congrArg Task.state (update_self idle _ tasks)
  refine held_of_inPlace ?_ (localTasks_start tasks exitVars numCpus idle)
  rintro p (hp | hp)
  · cases hp
    exact .inl hidle
  · cases hp

/-- No task is lost in any state of a run whose calls meet the condition. -/
theorem no_task_is_lost (tasks : Ptr → Task) (exitVars : Ptr → UInt32) (numCpus : ℤ) (idle : Ptr)
    (ops : List Op)
    (h : Meets Session.step (fun s op => FindOk s.sched op)
      ⟨start tasks exitVars numCpus idle, none⟩ ops) :
    Throughout Session.step NotLost ⟨start tasks exitVars numCpus idle, none⟩ ops := by
  have hinv := inv_start tasks exitVars numCpus idle
  have hheld := held_start tasks exitVars numCpus idle
  have hstart : NotLost ⟨start tasks exitVars numCpus idle, none⟩ := by
    refine ⟨?_, ?_, ?_⟩
    · intro p hp
      cases hp
    · rintro before taskId p ⟨⟩
    · rintro before taskId cpuId p ⟨⟩
  have hrun := throughout_of_meets Session.step
    (I := fun s => (Inv s.sched idle ∧ s.sched.Running ∧ Held s.sched) ∧ NotLost s)
    (fun _ _ _ hs hop hstep => step_notLost hs.1 hop hstep)
    ⟨⟨hinv, running_start tasks exitVars numCpus idle, hheld⟩, hstart⟩ h
  exact hrun.imp Session.step fun _ hs => hs.2

/-- A task is created, runs, sleeps, and is unblocked before its time. -/
theorem unblocked_sleeper_is_not_lost : Throughout Session.step NotLost ⟨startIdle 1, none⟩
      [.create 5 (some 10) (some 11), .schedule, .sleep 20 true, .unblock 1] := by
  apply no_task_is_lost
  refine ⟨⟨10, 11, rfl, rfl, creatable_of_list (by decide) (by decide)⟩, ?_⟩
  exact fun _ _ => ⟨trivial, fun _ _ => ⟨trivial, fun _ _ => ⟨trivial, fun _ _ => trivial⟩⟩⟩

/-- A task that blocks itself is in none of the places. -/
theorem blocked_task_is_lost : ∃ t, exec Session.step ⟨startIdle 1, none⟩
      [.create 5 (some 10) (some 11), .schedule, .block] = some t ∧ ¬ NotLost t := by
  refine ⟨_, rfl, ?_⟩
  intro h
  exact absurd (h.found 10 (by decide)) (by decide)

end UintOS.Scheduler
