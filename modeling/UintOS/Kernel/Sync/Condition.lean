import UintOS.Library.Runs

/-!
# Condition variables

`condition_wait`, `condition_signal` and `condition_broadcast` of `sync.c`. Each section under the
spinlock is one step, and so is each poll of a waiting task. The mutex only delays a task, between
its registration and its first poll and after its last one.

All waiters share one counter: a signal decrements it, and a waiter leaves when it is below one. So
a signal wakes somebody only when it is the last one needed, and a task that registers takes the
wake-up of those that have not polled yet. Wake-ups are kept when both are avoided.
-/

namespace UintOS.Condition

open Function Option Runs

inductive Place
  | outside
  | unlocking
  | polling
  | relocking
deriving DecidableEq, Repr

/-- `condition_t`, the places of the tasks, and what has happened: the tasks registered that have
not left the loop, how often each task and any task has left it, and the numbers of signals and
broadcasts. -/
structure System where
  waitersCount : Int32
  place : ℕ → Place
  registered : Finset ℕ
  leaves : ℕ → ℕ
  departures : ℕ
  signals : ℕ
  broadcasts : ℕ

/-- `condition_init`. -/
def System.init : System := ⟨0, fun _ => .outside, ∅, fun _ => 0, 0, 0, 0⟩

/-- A task begins `condition_wait`, a waiting task goes on, or somebody signals or broadcasts. -/
inductive Action
  | wait (task : ℕ)
  | run (task : ℕ)
  | signal
  | broadcast
deriving DecidableEq, Repr

variable (s : System)

def System.goto (task : ℕ) (place : Place) : System :=
  { s with place := update s.place task place }

/-- The first section of `condition_wait`. -/
def register (task : ℕ) : System :=
  { s.goto task .unlocking with
    waitersCount := s.waitersCount + 1
    registered := insert task s.registered }

/-- One round of the loop of `condition_wait`. -/
def poll (task : ℕ) : System :=
  if s.waitersCount < 1 then
    { s.goto task .relocking with
      registered := s.registered.erase task
      leaves := update s.leaves task (s.leaves task + 1)
      departures := s.departures + 1 }
  else s

def conditionSignal : System :=
  { s with
    waitersCount := if s.waitersCount > 0 then s.waitersCount - 1 else s.waitersCount
    signals := s.signals + 1 }

def conditionBroadcast : System :=
  { s with waitersCount := 0, broadcasts := s.broadcasts + 1 }

def step : Action → Option System
  | .wait task => if s.place task = .outside then some (register s task) else none
  | .run task =>
    match s.place task with
    | .outside => none
    | .unlocking => some (s.goto task .polling)
    | .polling => some (poll s task)
    | .relocking => some (s.goto task .outside)
  | .signal => some (conditionSignal s)
  | .broadcast => some (conditionBroadcast s)

/-- The task has left the loop since `s`, or would leave at a poll in `u`. -/
def Woken (s u : System) (task : ℕ) : Prop := s.leaves task < u.leaves task ∨ u.waitersCount < 1

instance (s u : System) (task : ℕ) : Decidable (Woken s u task) :=
  inferInstanceAs (Decidable (_ ∨ _))

/-- From `s` to `u`: without broadcasts no more tasks leave than there were signals, every signal
wakes one of the waiting tasks, and a broadcast wakes all of them. -/
structure Wakes (s : System) (actions : List Action) (u : System) : Prop where
  bounded : u.broadcasts = 0 → u.departures ≤ u.signals
  signalled : min (actions.count .signal) s.registered.card ≤ (s.registered.filter (Woken s u)).card
  broadcast : actions.head? = some .broadcast → ∀ t ∈ s.registered, Woken s u t

/-- A task registers only when no other one waits, or none of those has been woken; a signal is sent
only when at most one task waits, or all have been woken. The counter has room for the task that
registers. -/
def Ready : Action → Prop
  | .wait _ => (s.registered = ∅ ∨ 1 ≤ s.waitersCount) ∧ s.waitersCount < Int32.maxValue
  | .signal => s.registered.card ≤ 1 ∨ s.waitersCount < 1
  | _ => True

instance : (a : Action) → Decidable (Ready s a)
  | .wait _ => inferInstanceAs (Decidable ((_ ∨ _) ∧ _))
  | .signal => inferInstanceAs (Decidable (_ ∨ _))
  | .run _ => isTrue trivial
  | .broadcast => isTrue trivial

/-! ## The counter -/

def Place.Waits : Place → Prop
  | .unlocking | .polling => True
  | _ => False

structure Inv (s : System) : Prop where
  waits : ∀ t, t ∈ s.registered ↔ (s.place t).Waits
  count : s.waitersCount.toInt = 0 ∨ s.waitersCount.toInt = s.registered.card
  bounded : s.broadcasts = 0 → (s.departures + s.registered.card : ℤ) ≤
    s.waitersCount.toInt + s.signals

theorem inv_init : Inv System.init := by
  constructor
  · intro t
    simp [System.init, Place.Waits]
  · exact .inl rfl
  · intro _
    simp [System.init]

theorem waits_goto {s : System} (h : ∀ t, t ∈ s.registered ↔ (s.place t).Waits) {task : ℕ}
    {place : Place} (hplace : place.Waits ↔ (s.place task).Waits) (t : ℕ) :
    t ∈ s.registered ↔ ((s.goto task place).place t).Waits := by
  by_cases ht : t = task
  · subst ht
    simp only [System.goto, update_self]
    exact (h t).trans hplace.symm
  · simp only [System.goto, update_of_ne ht]
    exact h t

theorem toInt_succ {x : Int32} (h : x < Int32.maxValue) : (x + 1).toInt = x.toInt + 1 := by
  rw [Int32.lt_iff_toInt_lt, Int32.toInt_maxValue] at h
  have hlow := x.le_toInt
  rw [Int32.toInt_add, Int32.toInt_one]
  apply Int.bmod_eq_of_le <;> omega

theorem toInt_pred {x : Int32} (h : 0 < x) : (x - 1).toInt = x.toInt - 1 := by
  rw [Int32.lt_iff_toInt_lt, Int32.toInt_zero] at h
  have hhigh := x.toInt_lt
  rw [Int32.toInt_sub, Int32.toInt_one]
  apply Int.bmod_eq_of_le <;> omega

theorem zero_lt_one_count : (0 : Int32) < 1 := by decide

theorem lt_one_iff {x : Int32} : x < 1 ↔ x.toInt < 1 := Int32.lt_iff_toInt_lt

section Operations

variable {s : System} {task : ℕ}

section

variable (h : Inv s)
include h

theorem Inv.goto {place : Place} (hplace : place.Waits ↔ (s.place task).Waits) :
    Inv (s.goto task place) :=
  ⟨waits_goto h.waits hplace, h.count, h.bounded⟩

theorem Inv.register (hout : s.place task = .outside)
    (hready : Ready s (.wait task)) : Inv (register s task) := by
  obtain ⟨hnone, hroom⟩ := hready
  have hnew : task ∉ s.registered := by
    rw [h.waits, hout]
    exact id
  have hcard : ((insert task s.registered).card : ℤ) = s.registered.card + 1 := by
    rw [Finset.card_insert_of_notMem hnew]
    rfl
  -- Nobody has been woken, so the counter is the number of waiters.
  have hcount : s.waitersCount.toInt = s.registered.card := by
    rcases hnone with hempty | hone
    · rcases h.count with hzero | hcard
      · rw [hzero, hempty]
        rfl
      · exact hcard
    · rw [Int32.le_iff_toInt_le, Int32.toInt_one] at hone
      exact h.count.resolve_left (by omega)
  constructor
  · intro t
    by_cases ht : t = task
    · subst ht
      simp [Condition.register, System.goto, Place.Waits]
    · simp only [Condition.register, System.goto, Finset.mem_insert, ht, false_or, update_of_ne ht]
      exact h.waits t
  · right
    simp only [Condition.register]
    rw [toInt_succ hroom, hcard, hcount]
  · intro hnobroadcast
    have hbounded := h.bounded hnobroadcast
    simp only [Condition.register, System.goto]
    rw [toInt_succ hroom, hcard]
    omega

theorem Inv.poll (hpolling : s.place task = .polling) : Inv (poll s task) := by
  unfold Condition.poll
  split
  · rename_i hwoken
    have hin : task ∈ s.registered := by
      rw [h.waits, hpolling]
      trivial
    have hcard := Finset.card_erase_add_one hin
    rw [lt_one_iff] at hwoken
    have hzero : s.waitersCount.toInt = 0 := by
      rcases h.count with hzero | hcount
      · exact hzero
      · omega
    constructor
    · intro t
      by_cases ht : t = task
      · subst ht
        simp [System.goto, Place.Waits]
      · simp only [System.goto, Finset.mem_erase, ne_eq, ht, not_false_eq_true, true_and,
          update_of_ne ht]
        exact h.waits t
    · exact .inl hzero
    · intro hnobroadcast
      have hbounded := h.bounded hnobroadcast
      simp only [System.goto]
      push_cast
      omega
  · exact h

theorem Inv.conditionSignal (hready : Ready s .signal) : Inv (conditionSignal s) := by
  refine ⟨h.waits, ?_, fun hnobroadcast => ?_⟩
  · simp only [Condition.conditionSignal]
    split
    · rename_i hpos
      rw [gt_iff_lt, Int32.lt_iff_toInt_lt, Int32.toInt_zero] at hpos
      have hcount := h.count.resolve_left (by omega)
      rcases hready with hone | hwoken
      · left
        rw [toInt_pred (Int32.lt_iff_toInt_lt.mpr hpos)]
        omega
      · rw [lt_one_iff] at hwoken
        omega
    · exact h.count
  · have hbounded := h.bounded hnobroadcast
    simp only [Condition.conditionSignal]
    split
    · rename_i hpos
      rw [toInt_pred hpos]
      push_cast
      omega
    · push_cast
      omega

theorem Inv.conditionBroadcast : Inv (conditionBroadcast s) :=
  ⟨h.waits, .inl rfl, fun hnone => absurd hnone (Nat.succ_ne_zero s.broadcasts)⟩

end

end Operations

section Step

variable {s u v : System} {a : Action} {t : ℕ}

/-- What a step is: `run` brings a task to another place, or it polls. -/
inductive Stepped (u : System) : Action → System → Prop
  | wait {task} (hout : u.place task = .outside) : Stepped u (.wait task) (register u task)
  | goto {task place} (hplace : place.Waits ↔ (u.place task).Waits) :
      Stepped u (.run task) (u.goto task place)
  | poll {task} (hpolling : u.place task = .polling) : Stepped u (.run task) (poll u task)
  | signal : Stepped u .signal (conditionSignal u)
  | broadcast : Stepped u .broadcast (conditionBroadcast u)

theorem step_cases (h : step u a = some v) : Stepped u a v := by
  cases a with
  | wait task =>
    simp only [step] at h
    split at h <;> cases h
    exact .wait ‹_›
  | run task =>
    simp only [step] at h
    split at h <;> cases h
    · rename_i hplace
      exact .goto (by rw [hplace]; exact Iff.rfl)
    · exact .poll ‹_›
    · rename_i hplace
      exact .goto (by rw [hplace]; exact Iff.rfl)
  | signal => exact some.inj h ▸ .signal
  | broadcast => exact some.inj h ▸ .broadcast

theorem inv_step (h : Inv u) (hready : Ready u a) (hstep : step u a = some v) : Inv v := by
  cases step_cases hstep with
  | wait hout => exact h.register hout hready
  | goto hplace => exact h.goto hplace
  | poll hpolling => exact h.poll hpolling
  | signal => exact h.conditionSignal hready
  | broadcast => exact h.conditionBroadcast

/-- A task that waited in `s` has left the loop since, or is still in it. -/
def Here (s u : System) (t : ℕ) : Prop := s.leaves t < u.leaves t ∨ t ∈ u.registered

/-- It has left, or is in the loop and would leave at a poll. -/
def Free (s u : System) (t : ℕ) : Prop :=
  s.leaves t < u.leaves t ∨ t ∈ u.registered ∧ u.waitersCount < 1

theorem Free.woken (h : Free s u t) : Woken s u t := h.imp_right And.right

theorem poll_cases (u : System) (task : ℕ) :
    poll u task = u ∨ (u.waitersCount < 1 ∧ (poll u task).waitersCount = u.waitersCount ∧
      (poll u task).leaves = update u.leaves task (u.leaves task + 1) ∧
      (poll u task).registered = u.registered.erase task) := by
  unfold poll
  split
  · exact .inr ⟨‹_›, rfl, rfl, rfl⟩
  · exact .inl rfl

theorem leaves_le (hstep : step u a = some v) : u.leaves t ≤ v.leaves t := by
  cases step_cases hstep with
  | @poll task _ =>
    rcases poll_cases u task with heq | ⟨-, -, hleaves, -⟩
    · rw [heq]
    · rw [hleaves, update_apply]
      split
      · subst t
        exact Nat.le_succ _
      · exact Nat.le_refl _
  | _ => exact Nat.le_refl _

theorem registered_step (ht : t ∈ u.registered) (hstep : step u a = some v) :
    u.leaves t < v.leaves t ∨ t ∈ v.registered := by
  cases step_cases hstep with
  | wait hout => exact .inr (Finset.mem_insert_of_mem ht)
  | @poll task _ =>
    rcases poll_cases u task with heq | ⟨-, -, hleaves, hreg⟩
    · rw [heq]
      exact .inr ht
    · by_cases htask : t = task
      · left
        rw [hleaves, htask, update_self]
        exact Nat.lt_succ_self _
      · right
        rw [hreg]
        exact Finset.mem_erase_of_ne_of_mem htask ht
  | _ => exact .inr ht

theorem Here.next (h : Here s u t) (hle : s.leaves t ≤ u.leaves t)
    (hstep : step u a = some v) : Here s v t := by
  rcases h with hleft | hreg
  · exact .inl (hleft.trans_le (leaves_le hstep))
  · exact (registered_step hreg hstep).imp_left hle.trans_lt

/-- While a woken task has not polled, no step that is ready brings the counter back to one. -/
theorem waitersCount_step (ht : t ∈ u.registered) (hwoken : u.waitersCount < 1)
    (hready : Ready u a) (hstep : step u a = some v) : v.waitersCount < 1 := by
  cases step_cases hstep with
  | wait hout =>
    rcases hready.1 with hempty | hone
    · rw [hempty] at ht
      exact absurd ht (Finset.notMem_empty t)
    · rw [lt_one_iff] at hwoken
      rw [Int32.le_iff_toInt_le, Int32.toInt_one] at hone
      omega
  | goto hplace => exact hwoken
  | @poll task _ =>
    rcases poll_cases u task with heq | ⟨-, hsame, -⟩
    · rwa [heq]
    · rwa [hsame]
  | signal =>
    simp only [conditionSignal]
    split
    · rename_i hpos
      rw [lt_one_iff] at hwoken
      rw [gt_iff_lt, Int32.lt_iff_toInt_lt, Int32.toInt_zero] at hpos
      omega
    · exact hwoken
  | broadcast => exact zero_lt_one_count

theorem Free.next (h : Free s u t) (hle : s.leaves t ≤ u.leaves t) (hready : Ready u a)
    (hstep : step u a = some v) : Free s v t := by
  rcases h with hleft | ⟨hreg, hwoken⟩
  · exact .inl (hleft.trans_le (leaves_le hstep))
  · rcases registered_step hreg hstep with hleft | hstays
    · exact .inl (hle.trans_lt hleft)
    · exact .inr ⟨hstays, waitersCount_step hreg hwoken hready hstep⟩

theorem Here.signal (h : Here s u t) (hinv : Inv u) (hready : Ready u .signal) :
    Free s (conditionSignal u) t := by
  refine h.imp_right fun hreg => ⟨hreg, ?_⟩
  have hafter := (hinv.conditionSignal hready).count
  have hcount := hinv.count
  rw [lt_one_iff]
  simp only [conditionSignal] at hafter ⊢
  split at hafter
  · rename_i hgt
    rw [if_pos hgt, toInt_pred hgt]
    rcases hready with hone | hwoken
    · omega
    · rw [lt_one_iff] at hwoken
      omega
  · rename_i hgt
    rw [if_neg hgt]
    rw [gt_iff_lt, Int32.lt_iff_toInt_lt, Int32.toInt_zero] at hgt
    omega

theorem Here.broadcast (h : Here s u t) : Free s (conditionBroadcast u) t :=
  h.imp_right fun hreg => ⟨hreg, zero_lt_one_count⟩

end Step

/-! ## Runs -/

section Run

variable {s u v : System} {t : ℕ} {actions : List Action}

theorem exec_inv (hinv : Inv u) (hmeets : Meets step Ready u actions)
    (hexec : exec step u actions = some v) : Inv v := by
  induction actions generalizing u with
  | nil => exact some.inj hexec ▸ hinv
  | cons a actions ih =>
    obtain ⟨w, hw, hrest⟩ := bind_eq_some_iff.mp hexec
    exact ih (inv_step hinv hmeets.1 hw) (hmeets.2 w hw) hrest

theorem Free.run (h : Free s u t) (hle : s.leaves t ≤ u.leaves t)
    (hmeets : Meets step Ready u actions) (hexec : exec step u actions = some v) : Free s v t := by
  induction actions generalizing u with
  | nil => exact some.inj hexec ▸ h
  | cons a actions ih =>
    obtain ⟨w, hw, hrest⟩ := bind_eq_some_iff.mp hexec
    exact ih (h.next hle hmeets.1 hw) (hle.trans (leaves_le hw)) (hmeets.2 w hw) hrest

/-- After the first signal, all that waited have left or are free to leave. -/
theorem Here.run (h : Here s u t) (hle : s.leaves t ≤ u.leaves t) (hinv : Inv u)
    (hmeets : Meets step Ready u actions) (hexec : exec step u actions = some v)
    (hsignal : .signal ∈ actions) : Free s v t := by
  induction actions generalizing u with
  | nil => cases hsignal
  | cons a actions ih =>
    obtain ⟨w, hw, hrest⟩ := bind_eq_some_iff.mp hexec
    have hle' := hle.trans (leaves_le hw)
    rcases List.mem_cons.mp hsignal with rfl | hlater
    · obtain rfl := some.inj hw
      exact (h.signal hinv hmeets.1).run hle' (hmeets.2 _ hw) hrest
    · exact ih (h.next hle hw) hle' (inv_step hinv hmeets.1 hw) (hmeets.2 w hw) hrest hlater

end Run

theorem Inv.departures_le {s : System} (h : Inv s) (hnone : s.broadcasts = 0) :
    s.departures ≤ s.signals := by
  have hbounded := h.bounded hnone
  rcases h.count with hzero | hcount <;> omega

/-- In a run whose steps are ready, no wake-up is lost or duplicated between any two states. -/
theorem wake_ups_kept (before after : List Action) (s u : System)
    (hmeets : Meets step Ready System.init (before ++ after))
    (hs : exec step System.init before = some s) (hu : exec step s after = some u) :
    Wakes s after u := by
  obtain ⟨hbef, hafter⟩ := meets_append step hmeets hs
  have hinv := exec_inv inv_init hbef hs
  have hhere : ∀ t ∈ s.registered, Here s s t := fun t ht => .inr ht
  refine ⟨(exec_inv hinv hafter hu).departures_le, ?_, ?_⟩
  · by_cases hsignal : .signal ∈ after
    · have hall : s.registered.filter (Woken s u) = s.registered := by
        apply Finset.filter_true_of_mem
        intro t ht
        exact ((hhere t ht).run (Nat.le_refl _) hinv hafter hu hsignal).woken
      rw [hall]
      exact Nat.min_le_right _ _
    · rw [List.count_eq_zero_of_not_mem hsignal, Nat.zero_min]
      exact Nat.zero_le _
  · intro hhead t ht
    obtain ⟨rest, rfl⟩ := List.head?_eq_some_iff.mp hhead
    exact ((hhere t ht).broadcast.run (Nat.le_refl _) (hafter.2 _ rfl) hu).woken

/-- Two tasks wait, a broadcast wakes both, and one of them has polled. -/
theorem broadcast_wakes_both : ∃ s u, exec step System.init [.wait 0, .wait 1] = some s ∧
      exec step s [.broadcast, .run 0, .run 0] = some u ∧ Wakes s [.broadcast, .run 0, .run 0] u :=
  ⟨_, _, rfl, rfl, wake_ups_kept [.wait 0, .wait 1] [.broadcast, .run 0, .run 0] _ _
    (by decide) rfl rfl⟩

/-- Two tasks wait, and a signal wakes neither. -/
theorem signal_wakes_nobody : ∃ s u, exec step System.init [.wait 0, .wait 1] = some s ∧
      exec step s [.signal] = some u ∧ ¬ Wakes s [.signal] u := by
  refine ⟨_, _, rfl, rfl, fun h => ?_⟩
  have hsignalled := h.signalled
  revert hsignalled
  decide

end UintOS.Condition
