import UintOS.Kernel.Scheduler.NotLost

/-!
# Sleeping and waking

Every `scheduler_sleep` has an entry on the sleeping list, which is dropped when it wakes its task.
A task made ready by other means keeps its entries; they do no harm as long as it does not block
again before their time has come.
-/

namespace UintOS.Scheduler

open List Runs

namespace Sched

variable {s t u : Sched} {p idle : Ptr} {taskId : UInt32} {es : List Sleeper} {e : Sleeper}

/-! ## The sleeping list -/

theorem insertSleeper_perm (e : Sleeper) (es : List Sleeper) :
    (insertSleeper e es).Perm (e :: es) := by
  have hsplit := takeWhile_append_dropWhile (p := fun x : Sleeper => x.wakeTime ≤ e.wakeTime)
    (l := es)
  nth_rewrite 2 [← hsplit]
  exact perm_middle

section

variable (h : es.Pairwise fun a b => a.wakeTime ≤ b.wakeTime)
include h

theorem le_of_mem_dropWhile {x : Sleeper}
    (hx : x ∈ es.dropWhile fun y => y.wakeTime ≤ e.wakeTime) : e.wakeTime ≤ x.wakeTime := by
  induction es with
  | nil => cases hx
  | cons y es ih =>
    obtain ⟨hy, hes⟩ := pairwise_cons.mp h
    by_cases hle : y.wakeTime ≤ e.wakeTime
    · rw [dropWhile_cons, if_pos (decide_eq_true hle)] at hx
      exact ih hes hx
    · rw [dropWhile_cons, if_neg (by simpa using hle)] at hx
      have hey : e.wakeTime ≤ y.wakeTime := UInt64.le_of_lt (UInt64.not_le.mp hle)
      rcases mem_cons.mp hx with rfl | hx
      · exact hey
      · exact UInt64.le_trans hey (hy x hx)

theorem pairwise_insertSleeper :
    (insertSleeper e es).Pairwise fun a b => a.wakeTime ≤ b.wakeTime := by
  have hbef : ∀ x ∈ es.takeWhile (fun y => y.wakeTime ≤ e.wakeTime),
      x.wakeTime ≤ e.wakeTime := by
    intro x hx
    exact of_decide_eq_true (all_eq_true.mp all_takeWhile x hx)
  refine pairwise_append.mpr ⟨h.sublist (takeWhile_sublist _),
    pairwise_cons.mpr ⟨fun x hx => le_of_mem_dropWhile h hx, h.sublist (dropWhile_sublist _)⟩, ?_⟩
  intro x hx y hy
  rcases mem_cons.mp hy with rfl | hy
  · exact hbef x hx
  · exact UInt64.le_trans (hbef x hx) (le_of_mem_dropWhile h hy)

end

/-- The numbers of the sleeps that have woken a task, and of those listed. -/
def sleepNumbers (s : Sched) (es : List Sleeper) : List ℕ :=
  s.history.wakes.map (fun w => w.entry.sleep) ++ es.map Sleeper.sleep

/-- An entry that has ended does not belong to a blocked task, and its other fields are those
`scheduler_sleep` gave it. -/
structure EntryOk (s : Sched) (e : Sleeper) : Prop where
  ended : e.endedAt ≠ none → (s.tasks e.task).state ≠ .blocked
  start : e.start.toNat ≤ s.schedulerTicks.toNat
  wakeTime : e.wakeTime.toNat = e.start.toNat + e.milliseconds.toNat / millisecondsPerTick
  whole : millisecondsPerTick ∣ e.milliseconds.toNat

/-- A sleep has woken its task before it ended otherwise, and not too early. -/
structure WakeOk (w : Wake) : Prop where
  ended : w.entry.endedAt = none
  late : w.byTimer = true →
    w.entry.milliseconds.toNat ≤ millisecondsPerTick * (w.tick.toNat - w.entry.start.toNat)

structure Slept (s : Sched) : Prop where
  sorted : s.sleepingTasks.Pairwise fun a b => a.wakeTime ≤ b.wakeTime
  entries : ∀ e ∈ s.sleepingTasks, s.EntryOk e
  nodup : (s.sleepNumbers s.sleepingTasks).Nodup
  past : ∀ n ∈ s.sleepNumbers s.sleepingTasks, n < s.history.sleeps
  wakes : ∀ w ∈ s.history.wakes, WakeOk w

/-- No task has become blocked, and nothing has happened on the sleeping list. -/
structure Calm (s t : Sched) : Prop where
  sleepingTasks : t.sleepingTasks = s.sleepingTasks
  ticks : t.schedulerTicks = s.schedulerTicks
  sleeps : t.history.sleeps = s.history.sleeps
  wakes : t.history.wakes = s.history.wakes
  blocked : ∀ q, (t.tasks q).state = .blocked → (s.tasks q).state = .blocked

theorem Calm.refl (s : Sched) : Calm s s := ⟨rfl, rfl, rfl, rfl, fun _ h => h⟩

theorem Calm.trans (h : Calm s t) (h' : Calm t u) : Calm s u :=
  ⟨h'.sleepingTasks.trans h.sleepingTasks, h'.ticks.trans h.ticks, h'.sleeps.trans h.sleeps,
    h'.wakes.trans h.wakes, fun q hq => h.blocked q (h'.blocked q hq)⟩

theorem Calm.entryOk (h : Calm s t) (he : s.EntryOk e) : t.EntryOk e :=
  ⟨fun hended hblk => he.ended hended (h.blocked _ hblk), h.ticks ▸ he.start, he.wakeTime,
    he.whole⟩

theorem Slept.calm (h : Slept s) (hc : Calm s t) : Slept t := by
  have hnum : t.sleepNumbers t.sleepingTasks = s.sleepNumbers s.sleepingTasks := by
    unfold sleepNumbers
    rw [hc.wakes, hc.sleepingTasks]
  refine ⟨hc.sleepingTasks ▸ h.sorted, ?_, hnum ▸ h.nodup, ?_, hc.wakes ▸ h.wakes⟩
  · intro e he
    exact hc.entryOk (h.entries e (hc.sleepingTasks ▸ he))
  · rw [hnum, hc.sleeps]
    exact h.past

theorem calm_setTask {x : Task} (hx : x.state ≠ .blocked ∨ x.state = (s.tasks p).state) :
    Calm s (s.setTask p x) := by
  refine ⟨rfl, rfl, rfl, rfl, ?_⟩
  intro q hq
  by_cases hqp : q = p
  · subst hqp
    rw [tasks_setTask_self] at hq
    rcases hx with hx | hx
    · exact absurd hq hx
    · rw [← hx, hq]
  · rwa [state_setTask_of_ne hqp] at hq

section

variable (s : Sched)

theorem calm_makeReady (p : Ptr) : Calm s (s.makeReady p) := by
  have h : Calm (s.noteReady p) ((s.noteReady p).setState p .ready) :=
    calm_setTask (.inl TaskState.noConfusion)
  exact ⟨rfl, rfl, rfl, rfl, h.blocked⟩

theorem calm_saveCurrentTask : Calm s s.saveCurrentTask := by
  unfold saveCurrentTask
  cases s.getCurrentTask with
  | none => exact Calm.refl s
  | some p =>
    dsimp only
    split_ifs
    · exact calm_makeReady s p
    · exact Calm.refl s

theorem calm_runTask (p : Ptr) : Calm s (s.runTask p) := by
  have h : Calm s (s.setTask p { s.tasks p with
      state := .running, timeSlice := s.timeSliceOf (s.tasks p).priority }) :=
    calm_setTask (.inl TaskState.noConfusion)
  exact ⟨rfl, rfl, rfl, rfl, h.blocked⟩

theorem calm_countSchedule : Calm s s.countSchedule := by
  have h := (balanced_countSchedule s).eq
  refine ⟨by rw [h], by rw [h], by rw [h], by rw [h], ?_⟩
  intro q hq
  rw [h] at hq
  exact hq

/-! ## The timer -/

/-- The loop over the sleeping list keeps the entries that are not due, and wakes tasks by those due
that have not ended. -/
theorem wakeDue_spec (es : List Sleeper) (hes : ∀ e ∈ es, s.EntryOk e) :
    (s.wakeDue es).1.schedulerTicks = s.schedulerTicks ∧
      (s.wakeDue es).1.history.sleeps = s.history.sleeps ∧
      ((s.wakeDue es).1.sleepNumbers (s.wakeDue es).2).Subperm (s.sleepNumbers es) ∧
      ∀ w ∈ (s.wakeDue es).1.history.wakes, w ∈ s.history.wakes ∨ WakeOk w := by
  induction es generalizing s with
  | nil => exact ⟨rfl, rfl, Subperm.refl _, fun _ hw => .inl hw⟩
  | cons e es ih =>
    have he := hes e mem_cons_self
    have hrest : ∀ x ∈ es, s.EntryOk x := fun x hx => hes x (mem_cons_of_mem e hx)
    rw [wakeDue]
    split_ifs with hdue
    · by_cases hblk : (s.tasks e.task).state = .blocked
      · let w : Wake := ⟨e, true, s.schedulerTicks, s.history.blockedSince e.task⟩
        let t : Sched := { s with history := { s.history with wakes := w :: s.history.wakes } }
        have hwake : s.wakeSleeper e true = t.makeReady e.task := by
          unfold wakeSleeper
          rw [if_pos hblk]
        have hw : WakeOk w := by
          refine ⟨by_contra fun hended => he.ended hended hblk, fun _ => ?_⟩
          have hticks : e.wakeTime.toNat ≤ s.schedulerTicks.toNat := UInt64.le_iff_toNat_le.mp hdue
          have hdiv := Nat.mul_div_cancel' he.whole
          rw [he.wakeTime] at hticks
          calc e.milliseconds.toNat
              = millisecondsPerTick * (e.milliseconds.toNat / millisecondsPerTick) := hdiv.symm
            _ ≤ millisecondsPerTick * (s.schedulerTicks.toNat - e.start.toNat) :=
              Nat.mul_le_mul_left _ (by omega)
        have hc := calm_makeReady t e.task
        obtain ⟨hticks, hsleeps, hnum, hwakes⟩ := ih (t.makeReady e.task)
          (fun x hx => hc.entryOk ⟨(hrest x hx).ended, (hrest x hx).start, (hrest x hx).wakeTime,
            (hrest x hx).whole⟩)
        rw [hwake]
        refine ⟨hticks, hsleeps, hnum.trans ?_, ?_⟩
        · exact perm_middle.symm.subperm
        · intro w' hw'
          rcases hwakes w' hw' with hw' | hw'
          · rcases mem_cons.mp hw' with rfl | hw'
            · exact .inr hw
            · exact .inl hw'
          · exact .inr hw'
      · have hwake : s.wakeSleeper e true = s := by
          unfold wakeSleeper
          rw [if_neg hblk]
        rw [hwake]
        obtain ⟨hticks, hsleeps, hnum, hwakes⟩ := ih s hrest
        refine ⟨hticks, hsleeps, hnum.trans ?_, hwakes⟩
        exact ((sublist_cons_self _ _).append_left _).subperm
    · obtain ⟨hticks, hsleeps, hnum, hwakes⟩ := ih s hrest
      refine ⟨hticks, hsleeps, ?_, hwakes⟩
      exact perm_middle.subperm.trans
        (((subperm_cons e.sleep).mpr hnum).trans perm_middle.symm.subperm)

end

section

variable (h : Slept s)
include h

theorem Slept.checkSleepingTasks : Slept s.checkSleepingTasks := by
  obtain ⟨hticks, hsleeps, hnum, hwakes⟩ := wakeDue_spec s s.sleepingTasks h.entries
  have hsub := wakeDue_sublist s s.sleepingTasks
  have hu := (wakeDue_unblocks s s.sleepingTasks).1
  refine ⟨h.sorted.sublist hsub, ?_, ?_, ?_, ?_⟩
  · intro e he
    have hentry := h.entries e (hsub.subset he)
    refine ⟨?_, hticks ▸ hentry.start, hentry.wakeTime, hentry.whole⟩
    intro hended hblk
    have hsame := hu.tasks (hentry.ended hended)
    rw [show s.checkSleepingTasks.tasks = (s.wakeDue s.sleepingTasks).1.tasks from rfl, hsame]
      at hblk
    exact hentry.ended hended hblk
  · obtain ⟨l, hperm, hsub'⟩ := hnum
    exact hperm.nodup_iff.mp (h.nodup.sublist hsub')
  · intro n hn
    rw [show s.checkSleepingTasks.history.sleeps = s.history.sleeps from hsleeps]
    exact h.past n (hnum.subset hn)
  · intro w hw
    rcases hwakes w hw with hw | hw
    · exact h.wakes w hw
    · exact hw

theorem Slept.schedule : Slept s.schedule := by
  have hchoice : Slept s.choice := (h.calm (calm_saveCurrentTask s)).checkSleepingTasks
  rcases schedule_steps s with heq | heq | ⟨t, p, ht, heq⟩
  · rw [heq]
    exact h
  · rw [heq]
    exact hchoice
  · rw [heq]
    have hnote : Calm s.choice (t.noteSelection p) := by
      rcases ht with rfl | ⟨i, r, rfl⟩
      · exact ⟨rfl, rfl, rfl, rfl, fun _ hq => hq⟩
      · exact ⟨rfl, rfl, rfl, rfl, fun _ hq => hq⟩
    exact hchoice.calm ((hnote.trans (calm_runTask _ p)).trans (calm_countSchedule _))

/-! ## The other calls -/

section

variable (hended : ∀ e ∈ s.sleepingTasks, e.task = p → e.endedAt = none)
include hended

theorem Slept.setBlocked : Slept (s.setBlocked p) := by
  refine ⟨h.sorted, ?_, h.nodup, h.past, h.wakes⟩
  intro e he
  have hentry := h.entries e he
  refine ⟨?_, hentry.start, hentry.wakeTime, hentry.whole⟩
  intro hne
  rw [tasks_setBlocked_of_ne]
  · exact hentry.ended hne
  · intro htask
    exact hne (hended e he htask)

theorem Slept.addSleepingTask {milliseconds : UInt32}
    (hwhole : millisecondsPerTick ∣ milliseconds.toNat)
    (hwrap : s.schedulerTicks.toNat + milliseconds.toNat / millisecondsPerTick < 2 ^ 64)
    (memory : Bool) : Slept (s.addSleepingTask p milliseconds memory) := by
  unfold Sched.addSleepingTask
  split_ifs
  · dsimp only
    -- the new entry has a new number
    let e : Sleeper := ⟨p, s.schedulerTicks + milliseconds.toUInt64 / 10, s.history.sleeps,
      s.schedulerTicks, milliseconds, none⟩
    have hperm : (s.sleepNumbers (insertSleeper e s.sleepingTasks)).Perm
        (s.history.sleeps :: s.sleepNumbers s.sleepingTasks) :=
      (((insertSleeper_perm e s.sleepingTasks).map Sleeper.sleep).append_left _).trans perm_middle
    apply Slept.setBlocked
    · refine ⟨pairwise_insertSleeper h.sorted, ?_, ?_, ?_, h.wakes⟩
      · intro x hx
        rcases mem_insertSleeper.mp hx with rfl | hx
        · refine ⟨fun hne => absurd rfl hne, le_rfl, ?_, hwhole⟩
          have hlt := milliseconds.toNat_lt
          unfold millisecondsPerTick at hwrap ⊢
          rw [UInt64.toNat_add, UInt64.toNat_div, UInt32.toNat_toUInt64]
          exact Nat.mod_eq_of_lt hwrap
        · have hentry := h.entries x hx
          exact { hentry with }
      · apply hperm.nodup_iff.mpr
        exact nodup_cons.mpr ⟨fun hmem => lt_irrefl _ (h.past _ hmem), h.nodup⟩
      · intro n hn
        rcases mem_cons.mp (hperm.mem_iff.mp hn) with rfl | hn
        · exact Nat.lt_succ_self _
        · exact (h.past n hn).trans (Nat.lt_succ_self _)
    · intro x hx htask
      rcases mem_insertSleeper.mp hx with rfl | hx
      · rfl
      · exact hended x hx htask
  · exact h

end

theorem Slept.ended (hslp : t.sleepingTasks = (s.endSleeps p).sleepingTasks)
    (hticks : t.schedulerTicks = s.schedulerTicks) (hsleeps : t.history.sleeps = s.history.sleeps)
    (hwakes : t.history.wakes = s.history.wakes) (hp : (t.tasks p).state ≠ .blocked)
    (hblk : ∀ q, (t.tasks q).state = .blocked → (s.tasks q).state = .blocked) : Slept t := by
  let f (e : Sleeper) : Sleeper :=
    if e.task = p ∧ e.endedAt = none then { e with endedAt := some s.history.clock } else e
  have hlist : t.sleepingTasks = s.sleepingTasks.map f := hslp
  have hf : ∀ e, (f e).task = e.task ∧ (f e).wakeTime = e.wakeTime ∧ (f e).sleep = e.sleep ∧
      (f e).start = e.start ∧ (f e).milliseconds = e.milliseconds ∧
      ((f e).endedAt ≠ none → e.task = p ∨ e.endedAt ≠ none) := by
    intro e
    dsimp only [f]
    split_ifs with hcases
    · exact ⟨rfl, rfl, rfl, rfl, rfl, fun _ => .inl hcases.1⟩
    · exact ⟨rfl, rfl, rfl, rfl, rfl, .inr⟩
  have hnum : t.sleepNumbers t.sleepingTasks = s.sleepNumbers s.sleepingTasks := by
    unfold sleepNumbers
    rw [hwakes, hlist, map_map]
    congr 1
    apply map_congr_left
    intro e _
    exact (hf e).2.2.1
  refine ⟨?_, ?_, hnum ▸ h.nodup, ?_, hwakes ▸ h.wakes⟩
  · rw [hlist, pairwise_map]
    apply h.sorted.imp
    intro a b hab
    rwa [(hf a).2.1, (hf b).2.1]
  · intro x hx
    rw [hlist] at hx
    obtain ⟨e, he, rfl⟩ := mem_map.mp hx
    obtain ⟨htask, hwake, -, hstart, hms, hend⟩ := hf e
    have hentry := h.entries e he
    refine ⟨?_, ?_, ?_, ?_⟩
    · intro hne hst
      rw [htask] at hst
      rcases hend hne with rfl | hne
      · exact hp hst
      · exact hentry.ended hne (hblk _ hst)
    · rw [hstart, hticks]
      exact hentry.start
    · rw [hwake, hstart, hms]
      exact hentry.wakeTime
    · rw [hms]
      exact hentry.whole
  · rw [hnum, hsleeps]
    exact h.past

theorem Slept.makeReady (p : Ptr) : Slept ((s.endSleeps p).makeReady p) := by
  apply h.ended (t := (s.endSleeps p).makeReady p) rfl rfl rfl rfl
  · rw [tasks_makeReady_self]
    exact TaskState.noConfusion
  · exact (calm_makeReady (s.endSleeps p) p).blocked

theorem Slept.unblock (p : Ptr) : Slept (s.unblock p) := by
  unfold Sched.unblock
  split_ifs
  · exact h.makeReady p
  · exact h

theorem Slept.deliver (w : Waiter) (exitCode : UInt32) : Slept (s.deliver w exitCode) := by
  unfold Sched.deliver
  have hstore : ∀ vars, Slept { s with exitVars := vars } :=
    fun _ => h.calm ⟨rfl, rfl, rfl, rfl, fun _ hq => hq⟩
  cases w.exitCodePtr <;> cases s.findTaskById w.parentId
  · exact h
  · exact h.unblock _
  · exact hstore _
  · exact (hstore _).unblock _

theorem Slept.terminateTask (taskId exitCode : UInt32) :
    Slept (s.terminateTask taskId exitCode).2 := by
  unfold Sched.terminateTask
  cases s.findTaskById taskId with
  | none => exact h
  | some p =>
    dsimp only
    let x : Task := { s.tasks p with state := .zombie, exitCode := exitCode }
    let z : Sched := ((s.endSleeps p).setTask p x).removeTaskFromReadyQueue taskId
    have hz : Slept z := by
      apply h.ended (t := z) (p := p) rfl rfl rfl rfl
      · change (Function.update s.tasks p x p).state ≠ .blocked
        rw [Function.update_self]
        exact TaskState.noConfusion
      · exact (calm_setTask (s := s.endSleeps p) (p := p) (x := x)
          (.inl TaskState.noConfusion)).blocked
    have hall : Slept (z.checkWaitingParents taskId exitCode) :=
      (deliverAll_rule hz fun _ w ht => ht.deliver w exitCode : Slept
        (z.deliverAll taskId exitCode z.waitingParents).1).calm { Calm.refl _ with }
    split_ifs
    · exact hall.schedule
    · exact hall

end

theorem perm_eraseP_of_find? {α : Type*} {f : α → Bool} {a : α} {l : List α}
    (h : l.find? f = some a) : l.Perm (a :: l.eraseP f) := by
  obtain ⟨ha, l₁, l₂, rfl, hl₁⟩ := find?_eq_some_iff_append.mp h
  rw [eraseP_append_right _ (by simpa using hl₁), eraseP_cons_of_pos ha]
  exact perm_middle

theorem Slept.wakeTask (h : Slept s) (taskId : UInt32) : Slept (s.wakeTask taskId).2 := by
  rcases wakeTask_cases s taskId with heq | ⟨e, es, he, hes, hfind, hcases⟩
  · rw [heq]
    exact h
  have hperm : s.sleepingTasks.Perm (e :: es) := hes ▸ perm_eraseP_of_find? hfind
  have hsub : es.Sublist s.sleepingTasks := hes ▸ eraseP_sublist
  have hnum : (s.sleepNumbers s.sleepingTasks).Perm (e.sleep :: s.sleepNumbers es) :=
    ((hperm.map Sleeper.sleep).append_left _).trans perm_middle
  have hentries : ∀ x ∈ es, s.EntryOk x := fun x hx => h.entries x (hsub.subset hx)
  rcases hcases with ⟨hblk, heq⟩ | ⟨-, heq⟩
  · -- the sleep has woken the task
    let w : Wake := ⟨e, false, s.schedulerTicks, s.history.blockedSince e.task⟩
    let u : Sched := { s with
      sleepingTasks := es, history := { s.history with wakes := w :: s.history.wakes } }
    have hended : e.endedAt = none := by_contra fun hne => (h.entries e he).ended hne hblk
    have hu : Slept u := by
      refine ⟨h.sorted.sublist hsub, ?_, hnum.nodup_iff.mp h.nodup, ?_, ?_⟩
      · intro x hx
        have hentry := hentries x hx
        exact { hentry with }
      · intro n hn
        exact h.past n (hnum.mem_iff.mpr hn)
      · intro w' hw'
        rcases mem_cons.mp hw' with rfl | hw'
        · exact ⟨hended, fun hfalse => Bool.noConfusion hfalse⟩
        · exact h.wakes w' hw'
    have hwake : (s.wakeTask taskId).2 = (u.endSleeps e.task).makeReady e.task := by
      rw [heq]
      unfold wakeSleeper
      exact if_pos hblk
    rw [hwake]
    exact hu.makeReady e.task
  · rw [heq]
    refine ⟨h.sorted.sublist hsub, ?_, ?_, ?_, h.wakes⟩
    · intro x hx
      have hentry := hentries x hx
      exact { hentry with }
    · exact (nodup_cons.mp (hnum.nodup_iff.mp h.nodup)).2
    · intro n hn
      exact h.past n (hnum.mem_iff.mpr (mem_cons_of_mem _ hn))

theorem Slept.tick (h : Slept s) (hwrap : s.schedulerTicks.toNat + 1 < 2 ^ 64) : Slept s.tick := by
  let t : Sched := { s with schedulerTicks := s.schedulerTicks + 1 }
  have ht : Slept t := by
    refine ⟨h.sorted, ?_, h.nodup, h.past, h.wakes⟩
    intro e he
    have hentry := h.entries e he
    refine ⟨hentry.ended, ?_, hentry.wakeTime, hentry.whole⟩
    change _ ≤ (s.schedulerTicks + 1).toNat
    rw [UInt64.toNat_add]
    have hone : (1 : UInt64).toNat = 1 := rfl
    rw [hone, Nat.mod_eq_of_lt hwrap]
    exact hentry.start.trans (Nat.le_succ _)
  exact tick_rule ht (fun _ _ => ht.calm (calm_setTask (.inr rfl))) fun _ hu => hu.schedule

end Sched

open Sched

/-! ## Runs -/

end UintOS.Scheduler
