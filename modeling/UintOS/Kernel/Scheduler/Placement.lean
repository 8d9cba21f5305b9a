import UintOS.Kernel.Scheduler.Queues
import UintOS.Library.Runs

/-!
# Each task is in one place

A task is in a queue exactly while it is ready: the functions that make it ready put it into its
queue, and those that make it something else take it out, as long as no task is migrated that is not
ready and none is terminated that was migrated.
-/

namespace UintOS.Scheduler.Sched

open Function List

variable {s t u : Sched} {p q idle : Ptr} {taskId : UInt32} {es : List Sleeper}
  {motive : Sched → Prop} {x : Task}

/-! ## What stays -/

/-- The idle task and the tasks created and not freed. -/
def Known (s : Sched) (p : Ptr) : Prop := s.idleTask = some p ∨ p ∈ s.history.live

/-- The tasks are the same, with the same ids, and no others have come into sight. -/
structure Keeps (s t : Sched) : Prop where
  idleTask : t.idleTask = s.idleTask
  enabled : t.preemptionEnabled = s.preemptionEnabled
  numCpus : t.numCpus = s.numCpus
  live : t.history.live = s.history.live
  ids : ∀ p, (t.tasks p).id = (s.tasks p).id
  current : ∀ i p, (t.cpuStates i).currentTask = some p →
    (s.cpuStates i).currentTask = some p ∨ s.Known p
  sleepers : ∀ p ∈ t.sleepingTasks.map Sleeper.task,
    p ∈ s.sleepingTasks.map Sleeper.task ∨ s.Known p

theorem Keeps.refl (s : Sched) : Keeps s s :=
  ⟨rfl, rfl, rfl, rfl, fun _ => rfl, fun _ _ h => .inl h, fun _ h => .inl h⟩

theorem Keeps.known (h : Keeps s t) : t.Known p ↔ s.Known p := by
  unfold Known
  rw [h.idleTask, h.live]

theorem Keeps.trans (h : Keeps s t) (h' : Keeps t u) : Keeps s u := by
  refine ⟨h'.idleTask.trans h.idleTask, h'.enabled.trans h.enabled,
    h'.numCpus.trans h.numCpus, h'.live.trans h.live, fun p => (h'.ids p).trans (h.ids p), ?_, ?_⟩
  · intro i p hp
    rcases h'.current i p hp with hp | hp
    · exact h.current i p hp
    · exact .inr (h.known.mp hp)
  · intro p hp
    rcases h'.sleepers p hp with hp | hp
    · exact h.sleepers p hp
    · exact .inr (h.known.mp hp)

theorem keeps_setTask (hid : x.id = (s.tasks p).id) : Keeps s (s.setTask p x) := by
  refine { Keeps.refl s with ids := ?_ }
  intro q
  change (update s.tasks p x q).id = _
  by_cases hq : q = p
  · rw [hq, update_self, hid]
  · rw [update_of_ne hq]

section

variable (s : Sched) (p : Ptr)

theorem keeps_setState (state : TaskState) : Keeps s (s.setState p state) :=
  keeps_setTask rfl

theorem keeps_endSleeps : Keeps s (s.endSleeps p) := by
  refine { Keeps.refl s with sleepers := ?_ }
  intro q hq
  left
  change q ∈ (s.sleepingTasks.map _).map Sleeper.task at hq
  rw [map_map] at hq
  obtain ⟨e, he, rfl⟩ := mem_map.mp hq
  apply mem_map.mpr
  refine ⟨e, he, ?_⟩
  dsimp only [comp]
  split_ifs <;> rfl

theorem keeps_makeReady : Keeps s (s.makeReady p) :=
  { keeps_setState (s.noteReady p) p .ready with }

theorem keeps_setBlocked : Keeps s (s.setBlocked p) :=
  { keeps_setState (s.noteBlocked p) p .blocked with }

end

/-- There is an idle task, ids are unique, and the places hold known tasks only. -/
structure Env (s : Sched) (idle : Ptr) : Prop where
  idleTask : s.idleTask = some idle
  notLive : idle ∉ s.history.live
  enabled : s.preemptionEnabled = true
  cpus : 0 < s.numCpus
  ids : ∀ p q, s.Known p → s.Known q → (s.tasks p).id = (s.tasks q).id → p = q
  current : ∀ i p, (s.cpuStates i).currentTask = some p → s.Known p
  sleepers : ∀ p ∈ s.sleepingTasks.map Sleeper.task, s.Known p
  room : s.history.live.length < maxTasks

theorem Env.keeps (h : Env s idle) (hk : Keeps s t) : Env t idle := by
  refine ⟨hk.idleTask.trans h.idleTask, hk.live ▸ h.notLive, hk.enabled.trans h.enabled,
    hk.numCpus ▸ h.cpus, ?_, ?_, ?_, hk.live ▸ h.room⟩
  · intro p q hp hq hid
    rw [hk.ids, hk.ids] at hid
    exact h.ids p q (hk.known.mp hp) (hk.known.mp hq) hid
  · intro i p hp
    apply hk.known.mpr
    rcases hk.current i p hp with hp | hp
    · exact h.current i p hp
    · exact hp
  · intro p hp
    apply hk.known.mpr
    rcases hk.sleepers p hp with hp | hp
    · exact h.sleepers p hp
    · exact hp

theorem Env.known_iff (h : Env s idle) : s.Known p ↔ p ∈ idle :: s.history.live := by
  unfold Known
  rw [h.idleTask, mem_cons, Option.some_inj, eq_comm]

/-! ## Ready tasks are in the queues -/

structure Placed (s : Sched) : Prop where
  nodup : s.queued.Nodup
  ready : ∀ p ∈ s.queued, (s.tasks p).state = .ready ∧ s.Known p
  queued : ∀ p ∈ s.history.live, (s.tasks p).state = .ready → p ∈ s.queued
  idle : ∀ p, s.idleTask = some p → p ∉ s.localTasks

theorem Placed.notMem (h : Placed s) (hp : (s.tasks p).state ≠ .ready) : p ∉ s.queued :=
  fun hmem => hp (h.ready p hmem).1

theorem length_queued_le (henv : Env s idle) (h : Placed s) : s.queued.length ≤ maxTasks := by
  have hsubset : s.queued ⊆ idle :: s.history.live := by
    intro q hq
    exact henv.known_iff.mp (h.ready q hq).2
  have hle := (h.nodup.subperm hsubset).length_le
  have := henv.room
  rw [length_cons] at hle
  omega

theorem length_queued_lt (henv : Env s idle) (h : Placed s) (hknown : s.Known p)
    (hp : p ∉ s.queued) : s.queued.length < maxTasks := by
  have hsubset : p :: s.queued ⊆ idle :: s.history.live := by
    intro q hq
    rcases mem_cons.mp hq with rfl | hq
    · exact henv.known_iff.mp hknown
    · exact henv.known_iff.mp (h.ready q hq).2
  have hle := ((nodup_cons.mpr ⟨hp, h.nodup⟩).subperm hsubset).length_le
  have := henv.room
  rw [length_cons, length_cons] at hle
  omega

theorem count_le_queued (s : Sched) (i : Fin maxPriority) :
    (s.readyQueues i).count ≤ s.queued.length := by
  unfold Sched.queued
  rw [length_append]
  exact (count_le_readyTasks i).trans (Nat.le_add_right _ _)

theorem Placed.same (h : Placed s) (hk : Keeps s t)
    (hst : ∀ q, (t.tasks q).state = (s.tasks q).state) (hperm : t.queued.Perm s.queued)
    (hidle : ∀ p, s.idleTask = some p → p ∉ t.localTasks) : Placed t := by
  refine ⟨hperm.nodup_iff.mpr h.nodup, ?_, ?_, ?_⟩
  · intro q hq
    rw [hst, hk.known]
    exact h.ready q (hperm.mem_iff.mp hq)
  · intro q hq hready
    rw [hst] at hready
    exact hperm.mem_iff.mpr (h.queued q (hk.live ▸ hq) hready)
  · intro q hq
    exact hidle q (hk.idleTask ▸ hq)

section

variable (h : Placed s) (hk : Keeps s t) (hst : ∀ q ≠ p, (t.tasks q).state = (s.tasks q).state)
include h hk hst

theorem Placed.enter (hp : (t.tasks p).state = .ready)
    (hknown : s.Known p) (hnot : p ∉ s.queued) (hperm : t.queued.Perm (p :: s.queued))
    (hlocal : t.localTasks = s.localTasks) : Placed t := by
  refine ⟨hperm.nodup_iff.mpr (nodup_cons.mpr ⟨hnot, h.nodup⟩), ?_, ?_, ?_⟩
  · intro q hq
    by_cases hqp : q = p
    · subst hqp
      exact ⟨hp, hk.known.mpr hknown⟩
    · rw [hst q hqp, hk.known]
      exact h.ready q ((mem_cons.mp (hperm.mem_iff.mp hq)).resolve_left hqp)
  · intro q hq hready
    apply hperm.mem_iff.mpr
    by_cases hqp : q = p
    · exact hqp ▸ mem_cons_self
    · rw [hst q hqp] at hready
      exact mem_cons_of_mem p (h.queued q (hk.live ▸ hq) hready)
  · intro q hq
    rw [hlocal]
    exact h.idle q (hk.idleTask ▸ hq)

theorem Placed.leave (hp : (t.tasks p).state ≠ .ready)
    (hnodup : t.queued.Nodup) (hmem : ∀ q, q ∈ t.queued ↔ q ∈ s.queued ∧ q ≠ p)
    (hlocal : ∀ q ∈ t.localTasks, q ∈ s.localTasks) : Placed t := by
  refine ⟨hnodup, ?_, ?_, ?_⟩
  · intro q hq
    obtain ⟨hqs, hqp⟩ := (hmem q).mp hq
    rw [hst q hqp, hk.known]
    exact h.ready q hqs
  · intro q hq hready
    by_cases hqp : q = p
    · exact absurd (hqp ▸ hready) hp
    · rw [hst q hqp] at hready
      exact (hmem q).mpr ⟨h.queued q (hk.live ▸ hq) hready, hqp⟩
  · intro q hq hqlocal
    exact h.idle q (hk.idleTask ▸ hq) (hlocal q hqlocal)

end

theorem state_setTask_of_ne (h : q ≠ p) : ((s.setTask p x).tasks q) = s.tasks q :=
  update_of_ne h _ _

theorem tasks_setTask_self (s : Sched) (p : Ptr) (x : Task) : (s.setTask p x).tasks p = x :=
  update_self _ _ _

theorem placed_setTask (h : Placed s) (hid : x.id = (s.tasks p).id)
    (hp : p ∉ s.queued) (hx : x.state ≠ .ready) : Placed (s.setTask p x) := by
  apply h.leave (p := p) (keeps_setTask hid)
  · intro q hq
    rw [state_setTask_of_ne hq]
  · rw [tasks_setTask_self]
    exact hx
  · exact h.nodup
  · intro q
    refine ⟨fun hq => ⟨hq, ?_⟩, fun hq => hq.1⟩
    rintro rfl
    exact hp hq
  · exact fun _ hq => hq

theorem placed_setTask_same (h : Placed s) (hid : x.id = (s.tasks p).id)
    (hx : x.state = (s.tasks p).state) : Placed (s.setTask p x) := by
  apply h.same (keeps_setTask hid) ?_ (List.Perm.refl _) h.idle
  intro q
  by_cases hq : q = p
  · rw [hq, tasks_setTask_self, hx]
  · rw [state_setTask_of_ne hq]

theorem tasks_makeReady_of_ne (h : q ≠ p) : (s.makeReady p).tasks q = s.tasks q :=
  update_of_ne h _ _

theorem tasks_makeReady_self (s : Sched) (p : Ptr) :
    (s.makeReady p).tasks p = { s.tasks p with state := .ready } :=
  update_self _ _ _

section

variable (henv : Env s idle) (h : Placed s) (hknown : s.Known p) (hp : (s.tasks p).state ≠ .ready)
include henv h hknown hp

theorem readyTasks_makeReady : (s.makeReady p).readyTasks.Perm (p :: s.readyTasks) := by
  have hroom : (s.readyQueues (queueOf ((s.makeReady p).tasks p).priority)).count < maxTasks :=
    (count_le_queued s _).trans_lt (length_queued_lt henv h hknown (h.notMem hp))
  exact readyTasks_addTask (s := (s.noteReady p).setState p .ready) hroom

theorem placed_makeReady : Placed (s.makeReady p) := by
  apply h.enter (keeps_makeReady s p) ?_ ?_ hknown (h.notMem hp) ?_ rfl
  · intro q hq
    rw [tasks_makeReady_of_ne hq]
  · rw [tasks_makeReady_self]
  · exact (readyTasks_makeReady henv h hknown hp).append_right _

end

/-! ## The functions -/

structure Inv (s : Sched) (idle : Ptr) : Prop where
  env : Env s idle
  placed : Placed s

theorem Inv.makeReady (h : Inv s idle) (hknown : s.Known p) (hp : (s.tasks p).state ≠ .ready) :
    Inv (s.makeReady p) idle :=
  ⟨h.env.keeps (keeps_makeReady s p), placed_makeReady h.env h.placed hknown hp⟩

theorem localTasks_congr (h : t.cpuStates = s.cpuStates) : t.localTasks = s.localTasks := by
  unfold localTasks
  rw [h]

theorem Inv.inert (h : Inv s idle) (hk : Keeps s t) (htasks : t.tasks = s.tasks)
    (hqueues : t.readyQueues = s.readyQueues) (hcpus : t.cpuStates = s.cpuStates) : Inv t idle := by
  have hready : t.readyTasks = s.readyTasks := by
    unfold readyTasks
    rw [hqueues]
  have hlocal := localTasks_congr hcpus
  refine ⟨h.env.keeps hk, h.placed.same hk ?_ ?_ ?_⟩
  · intro q
    rw [htasks]
  · unfold queued
    rw [hready, hlocal]
  · rw [hlocal]
    exact h.placed.idle

theorem Inv.endSleeps (h : Inv s idle) (p : Ptr) : Inv (s.endSleeps p) idle :=
  h.inert (keeps_endSleeps s p) rfl rfl rfl

theorem keeps_wakeSleeper (s : Sched) (e : Sleeper) (byTimer : Bool) :
    Keeps s (s.wakeSleeper e byTimer) := by
  unfold wakeSleeper
  split_ifs
  · refine Keeps.trans ?_ (keeps_makeReady _ e.task)
    exact { Keeps.refl s with }
  · exact Keeps.refl s

theorem Inv.wakeSleeper (h : Inv s idle) {e : Sleeper} (hknown : s.Known e.task)
    (byTimer : Bool) : Inv (s.wakeSleeper e byTimer) idle := by
  unfold Sched.wakeSleeper
  split_ifs with hblk
  · apply Inv.makeReady
    · exact h.inert { Keeps.refl s with } rfl rfl rfl
    · exact hknown
    · intro hready
      change (s.tasks e.task).state = .ready at hready
      rw [hblk] at hready
      cases hready
  · exact h

theorem sleepingTasks_wakeSleeper (s : Sched) (e : Sleeper) (byTimer : Bool) :
    (s.wakeSleeper e byTimer).sleepingTasks = s.sleepingTasks := by
  unfold wakeSleeper
  split_ifs <;> rfl

/-- What is kept when a task is woken is kept by the loop. -/
@[elab_as_elim]
theorem wakeDue_rule (h : motive s)
    (hwake : ∀ t, ∀ e ∈ es, motive t → motive (t.wakeSleeper e true)) :
      motive (s.wakeDue es).1 := by
  induction es generalizing s with
  | nil => exact h
  | cons e es ih =>
    have hrest := fun t x hx => hwake t x (mem_cons_of_mem e hx)
    rw [wakeDue]
    split_ifs
    · exact ih (hwake s e mem_cons_self h) hrest
    · exact ih h hrest

theorem wakeDue_sublist (s : Sched) (es : List Sleeper) : (s.wakeDue es).2.Sublist es := by
  induction es generalizing s with
  | nil => exact Sublist.refl _
  | cons e es ih =>
    rw [wakeDue]
    split_ifs
    · exact (ih _).cons e
    · exact (ih s).cons_cons e

theorem Inv.wakeDue (h : Inv s idle) (hknown : ∀ e ∈ es, s.Known e.task) :
    Inv (s.wakeDue es).1 idle ∧ Keeps s (s.wakeDue es).1 := by
  refine wakeDue_rule ⟨h, Keeps.refl s⟩ ?_
  intro t e he ht
  exact ⟨ht.1.wakeSleeper (ht.2.known.mpr (hknown e he)) true,
    ht.2.trans (keeps_wakeSleeper t e true)⟩

theorem keeps_dropSleeper (hes : es ⊆ s.sleepingTasks) :
    Keeps s { s with sleepingTasks := es } := by
  refine { Keeps.refl s with sleepers := ?_ }
  intro q hq
  obtain ⟨e, he, rfl⟩ := mem_map.mp hq
  exact .inl (mem_map_of_mem (hes he))

theorem Inv.dropSleeper (h : Inv s idle) (hes : es ⊆ s.sleepingTasks) :
    Inv { s with sleepingTasks := es } idle := h.inert (keeps_dropSleeper hes) rfl rfl rfl

theorem sleepingTasks_wakeDue (s : Sched) (es : List Sleeper) :
    (s.wakeDue es).1.sleepingTasks = s.sleepingTasks :=
  wakeDue_rule rfl fun t e _ ht => (sleepingTasks_wakeSleeper t e true).trans ht

theorem Inv.checkSleepingTasks (h : Inv s idle) :
    Inv s.checkSleepingTasks idle ∧ Keeps s s.checkSleepingTasks := by
  obtain ⟨hinv, hk⟩ :=
    h.wakeDue fun e he => h.env.sleepers e.task (mem_map_of_mem he)
  have hsub : (s.wakeDue s.sleepingTasks).2 ⊆ (s.wakeDue s.sleepingTasks).1.sleepingTasks :=
    (sleepingTasks_wakeDue s _).symm ▸ (wakeDue_sublist s _).subset
  exact ⟨hinv.dropSleeper hsub, hk.trans (keeps_dropSleeper hsub)⟩

theorem Inv.saveCurrentTask (h : Inv s idle) :
    Inv s.saveCurrentTask idle ∧ Keeps s s.saveCurrentTask := by
  unfold Sched.saveCurrentTask
  cases hcur : s.getCurrentTask with
  | none => exact ⟨h, Keeps.refl s⟩
  | some p =>
    dsimp only
    split_ifs with hrun
    · refine ⟨h.makeReady (h.env.current _ p hcur) ?_, keeps_makeReady s p⟩
      rw [hrun]
      exact TaskState.noConfusion
    · exact ⟨h, Keeps.refl s⟩

def Running (s : Sched) : Prop := ∀ p, s.getCurrentTask = some p → (s.tasks p).state = .running

section

variable (s : Sched)

theorem keeps_runTask (hknown : s.Known p) : Keeps s (s.runTask p) := by
  have hk : Keeps s (s.setTask p { s.tasks p with
      state := .running, timeSlice := s.timeSliceOf (s.tasks p).priority }) := keeps_setTask rfl
  refine { Keeps.refl s with ids := hk.ids, current := ?_ }
  intro i q hq
  change (update s.cpuStates currentCpu _ i).currentTask = some q at hq
  by_cases hi : i = currentCpu
  · rw [hi, update_self] at hq
    cases hq
    exact .inr hknown
  · rw [update_of_ne hi] at hq
    exact .inl hq

theorem localTasks_runTask (p : Ptr) : (s.runTask p).localTasks = s.localTasks := by
  unfold localTasks
  congr 1
  funext i
  change (update s.cpuStates currentCpu _ i).localQueue.contents = _
  by_cases hi : i = currentCpu
  · rw [hi, update_self]
    rfl
  · rw [update_of_ne hi]

theorem cpuStates_setCpu_self (i : Fin maxCpus) (c : Cpu) :
    (s.setCpu i c).cpuStates i = c := update_self _ _ _

theorem getCurrentTask_runTask (p : Ptr) : (s.runTask p).getCurrentTask = some p := by
  unfold runTask getCurrentTask
  rw [cpuStates_setCpu_self]

theorem running_runTask (p : Ptr) : (s.runTask p).Running := by
  intro q hq
  cases hq
  change (update s.tasks p _ p).state = .running
  rw [update_self]

end

theorem nodup_of_perm_cons {l l' : List Ptr} (h : l.Perm (p :: l')) (hl : l.Nodup) :
    l'.Nodup ∧ ∀ q, q ∈ l' ↔ q ∈ l ∧ q ≠ p := by
  obtain ⟨hp, hl'⟩ := nodup_cons.mp (h.nodup_iff.mp hl)
  refine ⟨hl', fun q => ?_⟩
  rw [h.mem_iff, mem_cons]
  constructor
  · intro hq
    exact ⟨.inr hq, fun hqp => hp (hqp ▸ hq)⟩
  · rintro ⟨hq, hqp⟩
    exact hq.resolve_left hqp

theorem Inv.run (h : Inv s idle) (queues : Fin maxPriority → TaskQueue) (hknown : s.Known p)
    (hnodup : ({ s with readyQueues := queues } : Sched).queued.Nodup)
    (hmem : ∀ q, q ∈ ({ s with readyQueues := queues } : Sched).queued ↔ q ∈ s.queued ∧ q ≠ p) :
    Inv (({ s with readyQueues := queues }.noteSelection p).runTask p) idle := by
  let t : Sched := { s with readyQueues := queues }.noteSelection p
  have hk : Keeps s (t.runTask p) := { keeps_runTask t hknown with }
  have heq : (t.runTask p).queued = ({ s with readyQueues := queues } : Sched).queued :=
    congrArg (t.readyTasks ++ ·) (localTasks_runTask t p)
  refine ⟨h.env.keeps hk, h.placed.leave (p := p) hk ?_ ?_ ?_ ?_ ?_⟩
  · intro q hq
    exact congrArg Task.state (update_of_ne hq _ _)
  · change (update s.tasks p _ p).state ≠ .ready
    rw [update_self]
    exact TaskState.noConfusion
  · rw [heq]
    exact hnodup
  · rw [heq]
    exact hmem
  · rw [localTasks_runTask]
    exact fun _ hq => hq

theorem Inv.runTask {i : Fin maxPriority} {r : TaskQueue} (h : Inv s idle)
    (hcont : (s.readyQueues i).contents = p :: r.contents) :
    Inv (((s.setQueue i r).noteSelection p).runTask p) idle := by
  have hqueued : s.queued.Perm (p :: (s.setQueue i r).queued) :=
    (readyTasks_perm_cons (by rw [hcont])).append_right _
  have hknown : s.Known p := (h.placed.ready p (hqueued.mem_iff.mpr mem_cons_self)).2
  obtain ⟨hnodup, hmem⟩ := nodup_of_perm_cons hqueued h.placed.nodup
  exact h.run _ hknown hnodup hmem

theorem Inv.runIdle (h : Inv s idle) (hempty : s.readyTasks = []) :
    Inv ((s.noteSelection idle).runTask idle) idle := by
  have hnot : idle ∉ s.queued := by
    rw [mem_queued, hempty]
    rintro (hmem | hmem)
    · cases hmem
    · exact h.placed.idle idle h.env.idleTask hmem
  apply h.run s.readyQueues (.inl h.env.idleTask) h.placed.nodup
  intro q
  exact ⟨fun hq => ⟨hq, fun hqi => hnot (hqi ▸ hq)⟩, fun hq => hq.1⟩

theorem keeps_of_balanced (h : Balanced s t) : Keeps s t := by
  refine ⟨by rw [h.eq], by rw [h.eq], by rw [h.eq], by rw [h.eq], ?_, ?_, ?_⟩
  · intro q
    rw [h.eq]
  · intro i q hq
    rw [h.current i] at hq
    exact .inl hq
  · rw [h.eq]
    exact fun _ hq => .inl hq

theorem Inv.balanced (h : Inv s idle) (hb : Balanced s t) : Inv t idle := by
  have hready : t.readyTasks = s.readyTasks := by rw [hb.eq]; rfl
  refine ⟨h.env.keeps (keeps_of_balanced hb), h.placed.same (keeps_of_balanced hb) ?_ ?_ ?_⟩
  · intro q
    rw [hb.eq]
  · unfold queued
    rw [hready]
    exact hb.localTasks.append_left _
  · intro q hq hmem
    exact h.placed.idle q hq (hb.localTasks.mem_iff.mp hmem)

theorem Running.balanced (h : s.Running) (hb : Balanced s t) : t.Running := by
  intro p hp
  have hcur : s.getCurrentTask = some p := (hb.current currentCpu).symm.trans hp
  have htasks : t.tasks = s.tasks := by rw [hb.eq]
  rw [htasks]
  exact h p hcur

/-- The state in which `scheduler_schedule` chooses a task. -/
def choice (s : Sched) : Sched := s.saveCurrentTask.checkSleepingTasks

theorem schedule_enabled (hen : s.preemptionEnabled = true) : s.schedule =
      match s.choice.getNextTask with
      | (none, s) => s
      | (some task, s) => ((s.noteSelection task).runTask task).countSchedule := by
  unfold schedule
  rw [if_neg (by rw [hen]; simp)]
  rfl

/-- `scheduler_schedule` does nothing, or it stops after the choice, or it runs a task, which it may
have taken from a queue. -/
theorem schedule_steps (s : Sched) : s.schedule = s ∨ s.schedule = s.choice ∨
    ∃ t p, (t = s.choice ∨ ∃ i r, t = s.choice.setQueue i r) ∧
      s.schedule = ((t.noteSelection p).runTask p).countSchedule := by
  cases hen : s.preemptionEnabled with
  | false =>
    simp [schedule, hen]
  | true =>
    right
    rw [schedule_enabled hen]
    rcases getNextTask_cases s.choice with ⟨i, p, r, -, -, hnext⟩ | ⟨-, hnext⟩
    · rw [hnext]
      exact .inr ⟨_, p, .inr ⟨i, r, rfl⟩, rfl⟩
    · rw [hnext]
      cases s.choice.idleTask with
      | none => exact .inl rfl
      | some p => exact .inr ⟨_, p, .inl rfl, rfl⟩

theorem schedule_cases (hen : s.preemptionEnabled = true) :
    (∃ i p r, (s.choice.readyQueues i).contents = p :: r.contents ∧
      (∀ j < i, (s.choice.readyQueues j).contents = []) ∧
      Balanced (((s.choice.setQueue i r).noteSelection p).runTask p) s.schedule) ∨
    (s.choice.readyTasks = [] ∧ (∀ p, s.choice.idleTask = some p →
        Balanced ((s.choice.noteSelection p).runTask p) s.schedule)) := by
  have hschedule := schedule_enabled hen
  rcases getNextTask_cases s.choice with ⟨i, p, r, hcont, hbef, hnext⟩ | ⟨hempty, hnext⟩
  · left
    rw [hnext] at hschedule
    refine ⟨i, p, r, hcont, hbef, ?_⟩
    rw [hschedule]
    exact balanced_countSchedule _
  · right
    refine ⟨hempty, ?_⟩
    intro p hp
    rw [hnext, hp] at hschedule
    rw [hschedule]
    exact balanced_countSchedule _

theorem Inv.choice (h : Inv s idle) : Inv s.choice idle ∧ Keeps s s.choice := by
  obtain ⟨hsave, hk⟩ := h.saveCurrentTask
  obtain ⟨hcheck, hk'⟩ := hsave.checkSleepingTasks
  exact ⟨hcheck, hk.trans hk'⟩

theorem Inv.schedule (h : Inv s idle) : Inv s.schedule idle ∧ s.schedule.Running := by
  obtain ⟨hchoice, -⟩ := h.choice
  rcases schedule_cases h.env.enabled with ⟨i, p, r, hcont, -, hb⟩ | ⟨hempty, hb⟩
  · exact ⟨(hchoice.runTask hcont).balanced hb, (running_runTask _ p).balanced hb⟩
  · have hb := hb idle hchoice.env.idleTask
    exact ⟨(hchoice.runIdle hempty).balanced hb, (running_runTask _ idle).balanced hb⟩

/-! ## Rules for calls -/

theorem yield_eq (s : Sched) : (Op.call s .yield).2 = s.schedule := by
  unfold Op.call yield schedule
  cases s.preemptionEnabled <;> rfl

/-- What holds after the clock and the slice have changed, and is kept by `scheduler_schedule`,
holds after a tick. -/
@[elab_as_elim]
theorem tick_rule (hticks : motive { s with schedulerTicks := s.schedulerTicks + 1 })
    (hslice : ∀ p n, motive ({ s with schedulerTicks := s.schedulerTicks + 1 }.setTask p
      { s.tasks p with timeSlice := n }))
    (hschedule : ∀ t, motive t → motive t.schedule) : motive s.tick := by
  unfold tick
  dsimp only
  split
  · exact hticks
  · split
    · exact hticks
    · split_ifs
      · exact hschedule _ (hslice _ _)
      · exact hslice _ _
      · exact hschedule _ hticks
      · exact hticks

section

variable {motive : Sched → Prop} (h : motive s)
include h

@[elab_as_elim]
theorem blockCurrentTask_rule
    (hblock : ∀ p, s.getCurrentTask = some p → motive (s.setBlocked p).schedule) :
    motive (Op.call s .block).2 := by
  change motive s.blockCurrentTask
  unfold blockCurrentTask
  cases hcur : s.getCurrentTask with
  | none => exact h
  | some p => exact hblock p hcur

@[elab_as_elim]
theorem unblockTask_rule (hunblock : ∀ p, s.findTaskById taskId = some p → motive (s.unblock p)) :
    motive (Op.call s (.unblock taskId)).2 := by
  change motive (s.unblockTask taskId)
  unfold unblockTask
  cases hfind : s.findTaskById taskId with
  | none => exact h
  | some p => exact hunblock p hfind

@[elab_as_elim]
theorem sleep_rule {milliseconds : UInt32} {memory : Bool} (hyield : motive s.schedule)
    (hsleep : ∀ p, milliseconds ≠ 0 → s.getCurrentTask = some p →
      motive (s.addSleepingTask p milliseconds memory).schedule) :
    motive (Op.call s (.sleep milliseconds memory)).2 := by
  change motive (s.sleep milliseconds memory).2
  unfold sleep
  split_ifs with hzero
  · exact (yield_eq s).symm ▸ hyield
  · cases hcur : s.getCurrentTask with
    | none => exact h
    | some p => exact hsleep p hzero hcur

end

/-! ## Waking -/

/-- Only blocked tasks are changed, to ready, and the current task is the same. -/
structure Unblocks (s t : Sched) : Prop where
  current : t.getCurrentTask = s.getCurrentTask
  change : ∀ q, t.tasks q = s.tasks q ∨
    (s.tasks q).state = .blocked ∧ t.tasks q = { s.tasks q with state := .ready }

theorem Unblocks.refl (s : Sched) : Unblocks s s := ⟨rfl, fun _ => .inl rfl⟩

theorem Unblocks.tasks (h : Unblocks s t) (hq : (s.tasks q).state ≠ .blocked) :
    t.tasks q = s.tasks q := by
  rcases h.change q with hsame | ⟨hblk, -⟩
  · exact hsame
  · exact absurd hblk hq

theorem Unblocks.trans (h : Unblocks s t) (h' : Unblocks t u) : Unblocks s u := by
  refine ⟨h'.current.trans h.current, ?_⟩
  intro q
  rcases h.change q with hsame | ⟨hblk, hready⟩
  · rw [← hsame]
    exact h'.change q
  · have hst : (t.tasks q).state ≠ .blocked := by
      rw [hready]
      exact TaskState.noConfusion
    rw [h'.tasks hst]
    exact .inr ⟨hblk, hready⟩

theorem Running.unblocks (h : s.Running) (hu : Unblocks s t) : t.Running := by
  intro p hp
  rw [hu.current] at hp
  have hrun := h p hp
  rw [hu.tasks (by rw [hrun]; exact TaskState.noConfusion), hrun]

theorem unblocks_makeReady (hp : (s.tasks p).state = .blocked) : Unblocks s (s.makeReady p) := by
  refine ⟨rfl, ?_⟩
  intro q
  by_cases hq : q = p
  · rw [hq]
    exact .inr ⟨hp, tasks_makeReady_self s p⟩
  · exact .inl (tasks_makeReady_of_ne hq)

theorem unblocks_wakeSleeper (s : Sched) (e : Sleeper) (byTimer : Bool) :
    Unblocks s (s.wakeSleeper e byTimer) := by
  unfold wakeSleeper
  by_cases hblk : (s.tasks e.task).state = .blocked
  · rw [if_pos hblk]
    refine Unblocks.trans ?_ (unblocks_makeReady hblk)
    exact { Unblocks.refl s with }
  · rw [if_neg hblk]
    exact Unblocks.refl s

theorem unblocks_unblock (s : Sched) (p : Ptr) : Unblocks s (s.unblock p) := by
  unfold unblock
  split_ifs with hblk
  · exact { @unblocks_makeReady (s.endSleeps p) p hblk with }
  · exact Unblocks.refl s

theorem Inv.unblock (h : Inv s idle) (hknown : s.Known p) : Inv (s.unblock p) idle := by
  unfold Sched.unblock
  by_cases hblk : (s.tasks p).state = .blocked
  · rw [if_pos hblk]
    apply (h.endSleeps p).makeReady hknown
    intro hready
    rw [show (s.endSleeps p).tasks = s.tasks from rfl, hblk] at hready
    cases hready
  · rw [if_neg hblk]
    exact h

theorem keeps_unblock (s : Sched) (p : Ptr) : Keeps s (s.unblock p) := by
  unfold unblock
  split_ifs
  · exact (keeps_endSleeps s p).trans (keeps_makeReady _ p)
  · exact Keeps.refl s

section

variable {taskId : UInt32} (h : Inv s idle)
include h

theorem Inv.known_of_mem (hp : p ∈ s.places) : s.Known p := by
  rcases mem_append.mp hp with hp | hp
  · rcases mem_append.mp hp with hp | hp
    · obtain ⟨i, -, hi⟩ := mem_filterMap.mp hp
      exact h.env.current i p hi
    · exact (h.placed.ready p (mem_queued.mpr (.inl hp))).2
  · exact h.env.sleepers p hp

theorem Inv.find (hfind : s.findTaskById taskId = some p) : s.Known p ∧ (s.tasks p).id = taskId :=
  ⟨h.known_of_mem (mem_of_find?_eq_some hfind), by simpa using find?_some hfind⟩

theorem Inv.storeExitCode (exitCodePtr : Option Ptr) (exitCode : UInt32) {t : Sched}
    (ht : t = match exitCodePtr with
      | none => s
      | some ptr => { s with exitVars := update s.exitVars ptr exitCode }) :
    Inv t idle ∧ Unblocks s t ∧ Keeps s t := by
  cases exitCodePtr with
  | none => exact ht ▸ ⟨h, Unblocks.refl s, Keeps.refl s⟩
  | some ptr =>
    have hk : Keeps s { s with exitVars := update s.exitVars ptr exitCode } := { Keeps.refl s with }
    exact ht ▸ ⟨h.inert hk rfl rfl rfl, ⟨rfl, fun _ => .inl rfl⟩, hk⟩

theorem Inv.deliver (w : Waiter) (exitCode : UInt32) :
    Inv (s.deliver w exitCode) idle ∧ Unblocks s (s.deliver w exitCode) := by
  unfold Sched.deliver
  dsimp only
  obtain ⟨hinv, hu, hk⟩ := h.storeExitCode w.exitCodePtr exitCode rfl
  cases hfind : s.findTaskById w.parentId with
  | none => exact ⟨hinv, hu⟩
  | some parent =>
    exact ⟨hinv.unblock (hk.known.mpr (h.find hfind).1), hu.trans (unblocks_unblock _ parent)⟩

omit h in
@[elab_as_elim]
theorem deliverAll_rule {exitCode : UInt32} {ws : List Waiter}
    (h : motive s) (hdeliver : ∀ t w, motive t → motive (t.deliver w exitCode)) :
    motive (s.deliverAll taskId exitCode ws).1 := by
  induction ws generalizing s with
  | nil => exact h
  | cons w ws ih =>
    rw [Sched.deliverAll]
    split_ifs
    · exact ih (hdeliver s w h)
    · exact ih h

theorem Inv.deliverAll (taskId exitCode : UInt32) (ws : List Waiter) :
    Inv (s.deliverAll taskId exitCode ws).1 idle ∧
      Unblocks s (s.deliverAll taskId exitCode ws).1 := by
  refine deliverAll_rule ⟨h, Unblocks.refl s⟩ ?_
  intro t w ht
  obtain ⟨hinv, hu⟩ := ht.1.deliver w exitCode
  exact ⟨hinv, ht.2.trans hu⟩

theorem Inv.checkWaitingParents (taskId exitCode : UInt32) :
    Inv (s.checkWaitingParents taskId exitCode) idle ∧
      Unblocks s (s.checkWaitingParents taskId exitCode) := by
  obtain ⟨hinv, hu⟩ := h.deliverAll taskId exitCode s.waitingParents
  exact ⟨hinv.inert { Keeps.refl _ with } rfl rfl rfl, { hu with }⟩

end

/-! ## Terminating and migrating -/

/-- Removing a known task by its id takes it, and nothing else, from the ready queues. -/
theorem Inv.removeTask (h : Inv s idle) (hknown : s.Known p) :
    s.readyTasks.Perm (p :: (s.removeTaskFromReadyQueue (s.tasks p).id).readyTasks) ∨
      p ∉ s.readyTasks ∧ s.removeTaskFromReadyQueue (s.tasks p).id = s := by
  rcases removeTaskFromReadyQueue_cases s (s.tasks p).id with
    ⟨i, q, l, l', hid, hcont, r, hr, heq⟩ | ⟨hnone, heq⟩
  · have hmem : q ∈ s.readyTasks := by
      apply mem_readyTasks.mpr
      refine ⟨i, ?_⟩
      rw [hcont]
      exact mem_append_right _ mem_cons_self
    have hqp : q = p :=
      h.env.ids q p (h.placed.ready q (mem_queued.mpr (.inl hmem))).2 hknown hid
    subst hqp
    rw [heq]
    left
    apply readyTasks_perm_cons
    rw [hcont, hr]
    exact perm_middle
  · exact .inr ⟨fun hmem => hnone p hmem rfl, heq⟩

theorem Inv.mem_removeTask (h : Inv s idle) (hknown : s.Known p) (hlocal : p ∉ s.localTasks) :
    ((s.removeTaskFromReadyQueue (s.tasks p).id).readyTasks ++ s.localTasks).Nodup ∧
      ∀ q, q ∈ (s.removeTaskFromReadyQueue (s.tasks p).id).readyTasks ++ s.localTasks ↔
        q ∈ s.queued ∧ q ≠ p := by
  rcases h.removeTask hknown with hperm | ⟨hnot, hsame⟩
  · exact nodup_of_perm_cons (hperm.append_right s.localTasks) h.placed.nodup
  · rw [hsame]
    refine ⟨h.placed.nodup, ?_⟩
    intro q
    refine ⟨fun hq => ⟨hq, ?_⟩, fun hq => hq.1⟩
    rintro rfl
    rcases mem_append.mp hq with hq | hq
    · exact hnot hq
    · exact hlocal hq

/-- A task that is a zombie and is removed from the ready queues. -/
def zombified (s : Sched) (p : Ptr) (exitCode : UInt32) : Sched :=
  ((s.endSleeps p).setTask p { s.tasks p with
    state := .zombie, exitCode := exitCode }).removeTaskFromReadyQueue (s.tasks p).id

section

variable (s : Sched) (p : Ptr) (exitCode : UInt32)

theorem keeps_makeZombie : Keeps s ((s.endSleeps p).setTask p { s.tasks p with
      state := .zombie, exitCode := exitCode }) := by
  apply (keeps_endSleeps s p).trans
  apply keeps_setTask
  rfl

theorem readyQueues_zombified : (s.zombified p exitCode).readyQueues =
      (s.removeTaskFromReadyQueue (s.tasks p).id).readyQueues := by
  have hids := (keeps_makeZombie s p exitCode).ids
  unfold zombified removeTaskFromReadyQueue
  simp only [hids]
  rfl

theorem keeps_zombified : Keeps s (s.zombified p exitCode) := { keeps_makeZombie s p exitCode with }

end

theorem tasks_zombified_of_ne (exitCode : UInt32) (h : q ≠ p) :
    (s.zombified p exitCode).tasks q = s.tasks q :=
  state_setTask_of_ne (s := s.endSleeps p) h

theorem state_zombified_self (s : Sched) (p : Ptr) (exitCode : UInt32) :
    ((s.zombified p exitCode).tasks p).state = .zombie :=
  congrArg Task.state (tasks_setTask_self (s.endSleeps p) p _)

theorem Inv.zombified (h : Inv s idle) (hknown : s.Known p) (hlocal : p ∉ s.localTasks)
    (exitCode : UInt32) : Inv (s.zombified p exitCode) idle := by
  have hqueued : (s.zombified p exitCode).queued =
      (s.removeTaskFromReadyQueue (s.tasks p).id).readyTasks ++ s.localTasks := by
    unfold queued readyTasks
    rw [readyQueues_zombified]
    rfl
  obtain ⟨hnodup, hmem⟩ := h.mem_removeTask hknown hlocal
  have hk := keeps_zombified s p exitCode
  refine ⟨h.env.keeps hk, h.placed.leave (p := p) hk ?_ ?_ ?_ ?_ ?_⟩
  · intro q hq
    rw [tasks_zombified_of_ne exitCode hq]
  · rw [state_zombified_self]
    exact TaskState.noConfusion
  · rw [hqueued]
    exact hnodup
  · intro q
    rw [hqueued]
    exact hmem q
  · exact fun _ hq => hq

theorem terminateTask_eq (hid : (s.tasks p).id = taskId) (hfind : s.findTaskById taskId = some p)
    (exitCode : UInt32) :
    (s.terminateTask taskId exitCode).2 =
      let t := (s.zombified p exitCode).checkWaitingParents taskId exitCode
      if t.getCurrentTask.any fun q => (t.tasks q).id = taskId then t.schedule else t := by
  subst hid
  unfold terminateTask zombified
  rw [hfind]
  dsimp only
  split_ifs <;> rfl

theorem terminateTask_of_none (hfind : s.findTaskById taskId = none) (exitCode : UInt32) :
    s.terminateTask taskId exitCode = (-1, s) := by
  unfold Sched.terminateTask
  rw [hfind]

theorem Inv.terminateTask (h : Inv s idle) (hr : s.Running)
    (hlocal : ∀ p, s.findTaskById taskId = some p → p ∉ s.localTasks) (exitCode : UInt32) :
    Inv (s.terminateTask taskId exitCode).2 idle ∧ (s.terminateTask taskId exitCode).2.Running := by
  cases hfind : s.findTaskById taskId with
  | none =>
    rw [terminateTask_of_none hfind]
    exact ⟨h, hr⟩
  | some p =>
    obtain ⟨hknown, hid⟩ := h.find hfind
    obtain ⟨hinv, hu⟩ := (h.zombified hknown (hlocal p hfind) exitCode).checkWaitingParents
      taskId exitCode
    have hk := keeps_zombified s p exitCode
    rw [terminateTask_eq hid hfind]
    dsimp only
    split_ifs with hcur
    · exact hinv.schedule
    · refine ⟨hinv, ?_⟩
      -- the current task is another one
      intro q hq
      have hq' : s.getCurrentTask = some q := hu.current.symm.trans hq
      have hqp : q ≠ p := by
        rintro rfl
        apply hcur
        rw [hq]
        have hsame := hu.tasks (by rw [state_zombified_self]; exact TaskState.noConfusion)
        simp only [Option.any_some, decide_eq_true_eq]
        rw [hsame, hk.ids, hid]
      have hst : ((s.zombified p exitCode).tasks q).state = .running := by
        rw [tasks_zombified_of_ne exitCode hqp]
        exact hr q hq'
      rw [hu.tasks (by rw [hst]; exact TaskState.noConfusion), hst]

theorem migrateTask_cases (s : Sched) (taskId : UInt32) (cpuId : ℤ) :
    (s.migrateTask taskId cpuId).2 = s ∨
    ∃ p i, s.findTaskById taskId = some p ∧ ((s.cpuStates i).localQueue.count < maxTasks ∧
        (s.migrateTask taskId cpuId).2 = (s.removeTaskFromReadyQueue taskId).setLocalQueue i
          ((s.cpuStates i).localQueue.add p) ∨
        (s.migrateTask taskId cpuId).2 = (s.removeTaskFromReadyQueue taskId).addTask p) := by
  unfold migrateTask
  by_cases hcpu : cpuId < 0 ∨ (s.numCpus : ℤ) ≤ cpuId ∨ (maxCpus : ℤ) ≤ cpuId
  · rw [dif_pos hcpu]
    exact .inl rfl
  dsimp only
  cases hfind : s.findTaskById taskId with
  | none =>
    left
    dsimp only
    split_ifs <;> rfl
  | some p =>
    dsimp only
    split_ifs with hactive hroom
    · exact .inr ⟨p, _, rfl, .inl ⟨hroom, rfl⟩⟩
    · exact .inr ⟨p, ⟨cpuId.toNat, by omega⟩, rfl, .inr rfl⟩
    · exact .inl rfl

/-- A task that may be migrated: ready, not the idle task, and in a ready queue. -/
def Movable (s : Sched) (p : Ptr) : Prop :=
  (s.tasks p).state = .ready ∧ s.idleTask ≠ some p ∧ p ∉ s.localTasks

theorem Inv.migrateTask (h : Inv s idle) (hr : s.Running) (cpuId : ℤ)
    (hmovable : ∀ p, s.findTaskById taskId = some p → s.Movable p) :
    Inv (s.migrateTask taskId cpuId).2 idle ∧ (s.migrateTask taskId cpuId).2.Running := by
  rcases migrateTask_cases s taskId cpuId with heq | ⟨p, i, hfind, hmoved⟩
  · rw [heq]
    exact ⟨h, hr⟩
  obtain ⟨hknown, rfl⟩ := h.find hfind
  obtain ⟨hready, hidle, hlocal⟩ := hmovable p hfind
  have hmem : p ∈ s.readyTasks := by
    have hqueued := h.placed.queued p (hknown.resolve_left hidle) hready
    exact (mem_queued.mp hqueued).resolve_right hlocal
  have hperm : s.readyTasks.Perm (p :: (s.removeTaskFromReadyQueue (s.tasks p).id).readyTasks) := by
    rcases h.removeTask hknown with hperm | ⟨hnot, -⟩
    · exact hperm
    · exact absurd hmem hnot
  rcases hmoved with ⟨hroom, heq⟩ | heq
  · rw [heq]
    have hadd := localTasks_add (s := s.removeTaskFromReadyQueue (s.tasks p).id) hroom p
    have hk : Keeps s ((s.removeTaskFromReadyQueue (s.tasks p).id).setLocalQueue i
        ((s.cpuStates i).localQueue.add p)) := by
      refine { Keeps.refl s with current := ?_ }
      intro j q hq
      rw [currentTask_setLocalQueue] at hq
      exact .inl hq
    refine ⟨⟨h.env.keeps hk, h.placed.same hk (fun _ => rfl) ?_ ?_⟩, ?_⟩
    · unfold queued
      exact ((hadd.append_left _).trans perm_middle).trans (hperm.append_right _).symm
    · intro q hq hmem'
      rcases mem_cons.mp (hadd.mem_iff.mp hmem') with rfl | hmem'
      · exact hidle hq
      · exact h.placed.idle q hq hmem'
    · intro q hq
      have hcur : s.getCurrentTask = some q :=
        (currentTask_setLocalQueue _ i currentCpu _).symm.trans hq
      exact hr q hcur
  · rw [heq]
    have hk : Keeps s ((s.removeTaskFromReadyQueue (s.tasks p).id).addTask p) :=
      { Keeps.refl s with }
    have hlen : ((s.removeTaskFromReadyQueue (s.tasks p).id).readyTasks).length < maxTasks := by
      have hle := length_queued_le h.env h.placed
      have hlength := hperm.length_eq
      unfold queued at hle
      rw [length_append] at hle
      rw [length_cons] at hlength
      omega
    have hadd := readyTasks_addTask (s := s.removeTaskFromReadyQueue (s.tasks p).id) (p := p)
      ((count_le_readyTasks _).trans_lt hlen)
    refine ⟨⟨h.env.keeps hk, h.placed.same hk (fun _ => rfl) ?_ h.placed.idle⟩, hr⟩
    exact (hadd.trans hperm.symm).append_right _

end UintOS.Scheduler.Sched
