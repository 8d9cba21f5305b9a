import UintOS.Library.Runs
import UintOS.Library.Spinlock

/-!
# Mutexes

`mutex_lock`, `mutex_try_lock` and `mutex_unlock` of `sync.c`, called on one mutex by any number of
tasks at once. Every read or write of a field is one step. Task ids are natural numbers; an `int`
that counts is kept as its 32 bits.

Only the owner changes `owner_task` and `lock_count` outside of the spinlock, and no other task
becomes the owner meanwhile. The counter limits this: the owner may not lock the mutex again when it
has locked it 2^32 times.
-/

namespace UintOS.Mutexes

open Function Option Runs Spinlock

/-- `mutex_t`. The word of the spinlock is 0 or 1. -/
structure Mutex where
  spinlock : Bool
  ownerTask : ℤ
  lockCount : UInt32
deriving DecidableEq, Repr

def mutexInit : Mutex := ⟨false, -1, 0⟩

inductive Taking
  | lock
  | tryLock
deriving DecidableEq, Repr

inductive Call
  | take (taking : Taking)
  | unlock
deriving DecidableEq, Repr

/-- What a task does next. In `mutex_lock` and `mutex_try_lock`: comparing the owner with the task,
the two halves of `lock_count++`, and then, around the spinlock, testing that there is no owner, and
setting the two fields. The others are those of `mutex_unlock`. -/
inductive Place
  | idle
  | enter (taking : Taking)
  | reenter (taking : Taking)
  | recount (taking : Taking) (lockCount : UInt32)
  | acquire (taking : Taking)
  | test (taking : Taking)
  | giveUp (taking : Taking)
  | own (taking : Taking)
  | count (taking : Taking)
  | leave (taking : Taking)
  | check
  | unlockAcquire
  | load
  | store (lockCount : UInt32)
  | zero
  | disown
  | release
deriving DecidableEq, Repr

/-- What a step means for its task: a lock or unlock that took effect has returned. -/
inductive Outcome
  | none
  | locked
  | unlocked
deriving DecidableEq, Repr

def Call.entry : Call → Place
  | .take taking => .enter taking
  | .unlock => .check

def advance (m : Mutex) (task : ℕ) : Place → Option (Mutex × Place × Outcome)
  | .idle => Option.none
  | .enter taking =>
    some (m, if m.ownerTask = task then .reenter taking else .acquire taking, .none)
  | .reenter taking => some (m, .recount taking m.lockCount, .none)
  | .recount _ lockCount => some ({ m with lockCount := lockCount + 1 }, .idle, .locked)
  | .acquire taking =>
    if m.spinlock then
      match taking with
      | .lock => some (m, .acquire .lock, .none)
      | .tryLock => some (m, .idle, .none)
    else some ({ m with spinlock := true }, .test taking, .none)
  | .test taking => some (m, if m.ownerTask = -1 then .own taking else .giveUp taking, .none)
  | .giveUp taking =>
    match taking with
    | .lock => some ({ m with spinlock := false }, .acquire .lock, .none)
    | .tryLock => some ({ m with spinlock := false }, .idle, .none)
  | .own taking => some ({ m with ownerTask := task }, .count taking, .none)
  | .count taking => some ({ m with lockCount := 1 }, .leave taking, .none)
  | .leave _ => some ({ m with spinlock := false }, .idle, .locked)
  | .check => some (m, if m.ownerTask = task then .unlockAcquire else .idle, .none)
  | .unlockAcquire =>
    if m.spinlock then some (m, .unlockAcquire, .none)
    else some ({ m with spinlock := true }, .load, .none)
  | .load => some (m, .store m.lockCount, .none)
  | .store lockCount => some ({ m with lockCount := lockCount - 1 }, .zero, .none)
  | .zero => some (m, if m.lockCount = 0 then .disown else .release, .none)
  | .disown => some ({ m with ownerTask := -1 }, .release, .none)
  | .release => some ({ m with spinlock := false }, .idle, .unlocked)

/-- The mutex, where the tasks are, and how often each has locked and unlocked it. Only unlocks by
the owner count. -/
structure System where
  mutex : Mutex
  place : ℕ → Place
  locks : ℕ → ℕ
  unlocks : ℕ → ℕ

inductive Action
  | call (task : ℕ) (call : Call)
  | run (task : ℕ)
deriving DecidableEq, Repr

def System.init : System := ⟨mutexInit, fun _ => .idle, fun _ => 0, fun _ => 0⟩

variable (s : System) (task : ℕ)

def System.goto (place : Place) : System :=
  { s with place := update s.place task place }

def System.note : Outcome → System
  | .none => s
  | .locked => { s with locks := update s.locks task (s.locks task + 1) }
  | .unlocked => { s with unlocks := update s.unlocks task (s.unlocks task + 1) }

def step : Action → Option System
  | .call task call => if s.place task = .idle then some (s.goto task call.entry) else none
  | .run task =>
    match advance s.mutex task (s.place task) with
    | Option.none => Option.none
    | some (mutex, place, outcome) => some (({ s with mutex }.goto task place).note task outcome)

/-- The task has locked the mutex more often than unlocked it. -/
def System.Holds : Prop := s.unlocks task < s.locks task

def System.depth : ℕ := s.locks task - s.unlocks task

/-! ## The invariant -/

/-- The places between the acquisition and the release of the spinlock. -/
def Place.Inside : Place → Prop
  | .test _ | .giveUp _ | .own _ | .count _ | .leave _ => True
  | .load | .store _ | .zero | .disown | .release => True
  | _ => False

/-- What is true of a task at a place, `depth` locks deep. -/
def Local (m : Mutex) (task depth : ℕ) : Place → Prop
  | .idle | .check => (m.ownerTask = task ↔ 0 < depth) ∧
    (0 < depth → m.lockCount.toNat = depth % 2 ^ 32) ∧ depth ≤ 2 ^ 32
  | .enter _ => (m.ownerTask = task ↔ 0 < depth) ∧
    (0 < depth → m.lockCount.toNat = depth % 2 ^ 32) ∧ depth < 2 ^ 32
  | .reenter _ => m.ownerTask = task ∧ 0 < depth ∧ m.lockCount.toNat = depth % 2 ^ 32 ∧
    depth < 2 ^ 32
  | .recount _ lockCount => m.ownerTask = task ∧ 0 < depth ∧ lockCount.toNat = depth % 2 ^ 32 ∧
    depth < 2 ^ 32
  | .acquire _ | .test _ | .giveUp _ => m.ownerTask ≠ task ∧ depth = 0
  | .own _ => m.ownerTask = -1 ∧ depth = 0
  | .count _ => m.ownerTask = task ∧ depth = 0
  | .leave _ => m.ownerTask = task ∧ depth = 0 ∧ m.lockCount = 1
  | .unlockAcquire | .load => m.ownerTask = task ∧ 0 < depth ∧
    m.lockCount.toNat = depth % 2 ^ 32 ∧ depth ≤ 2 ^ 32
  | .store lockCount => m.ownerTask = task ∧ 0 < depth ∧ lockCount.toNat = depth % 2 ^ 32 ∧
    depth ≤ 2 ^ 32
  | .zero => m.ownerTask = task ∧ 0 < depth ∧ m.lockCount.toNat = depth - 1 ∧ depth ≤ 2 ^ 32
  | .disown => m.ownerTask = task ∧ depth = 1
  | .release => depth = 1 ∧ m.ownerTask = -1 ∨
    1 < depth ∧ m.ownerTask = task ∧ m.lockCount.toNat = depth - 1 ∧ depth ≤ 2 ^ 32

theorem Local.frame {m m' : Mutex} {task depth : ℕ} {place : Place} (h : Local m task depth place)
    (howner : m'.ownerTask = task ↔ m.ownerTask = task)
    (hcount : m.ownerTask = task → m'.lockCount = m.lockCount)
    (hins : place.Inside → m'.ownerTask = m.ownerTask) : Local m' task depth place := by
  cases place with
  | own taking =>
    have heq := hins trivial
    simp only [Local, heq] at h ⊢
    exact h
  | release =>
    have heq := hins trivial
    simp only [Local, heq] at h ⊢
    rcases h with h | ⟨hdepth, hown, hlock, hle⟩
    · exact .inl h
    · right
      rw [hcount hown]
      exact ⟨hdepth, hown, hlock, hle⟩
  | idle | check | enter =>
    simp only [Local, howner] at h ⊢
    refine ⟨h.1, fun hdepth => ?_, h.2.2⟩
    rw [hcount (h.1.mpr hdepth)]
    exact h.2.1 hdepth
  | reenter | unlockAcquire | load | zero | leave =>
    simp only [Local, howner] at h ⊢
    rw [hcount h.1]
    exact h
  | recount | acquire | test | giveUp | count | store | disown =>
    simp only [Local, ne_eq, howner] at h ⊢
    exact h

def Outcome.depth (depth : ℕ) : Outcome → ℕ
  | .none => depth
  | .locked => depth + 1
  | .unlocked => depth - 1

inductive SpinChange (m m' : Mutex) (place place' : Place) : Prop
  | stay : m'.spinlock = m.spinlock → (place'.Inside ↔ place.Inside) → SpinChange m m' place place'
  | enter : m.spinlock = false → m'.spinlock = true → SpinChange m m' place place'
  | leave : place.Inside → ¬ place'.Inside → SpinChange m m' place place'

section Advance

variable {m m' : Mutex} {task depth : ℕ} {place place' : Place} {outcome : Outcome}

theorem advance_spinChange (h : advance m task place = some (m', place', outcome)) :
    SpinChange m m' place place' := by
  cases place with
  | idle => cases h
  | acquire taking =>
    simp only [advance] at h
    split at h
    · cases taking <;> cases h <;> exact .stay rfl Iff.rfl
    · cases h
      exact .enter (by simpa using ‹¬ m.spinlock = true›) rfl
  | unlockAcquire =>
    simp only [advance] at h
    split at h
    · cases h
      exact .stay rfl Iff.rfl
    · cases h
      exact .enter (by simpa using ‹¬ m.spinlock = true›) rfl
  | giveUp taking => cases taking <;> cases h <;> exact .leave trivial id
  | leave taking | release =>
    cases h
    exact .leave trivial id
  | enter | test | check | zero =>
    cases h
    apply SpinChange.stay rfl
    split <;> exact Iff.rfl
  | reenter | recount | own | count | load | store | disown =>
    cases h
    exact .stay rfl Iff.rfl

section

variable (hlocal : Local m task depth place) (h : advance m task place = some (m', place', outcome))
include hlocal h

/-- A step keeps what is true of its task. The bound on the number of locks is used where the
decremented counter is compared with zero. -/
theorem advance_local : Local m' task (outcome.depth depth) place' := by
  cases place with
  | idle => cases h
  | enter taking =>
    cases h
    obtain ⟨howner, hcount, hlt⟩ := hlocal
    by_cases hown : m.ownerTask = task
    · have hdepth := howner.mp hown
      simp only [if_pos hown, Local, Outcome.depth]
      exact ⟨hown, hdepth, hcount hdepth, hlt⟩
    · have hdepth : depth = 0 := by
        by_contra hne
        exact hown (howner.mpr (Nat.pos_of_ne_zero hne))
      simp only [if_neg hown, Local, Outcome.depth]
      exact ⟨hown, hdepth⟩
  | reenter taking =>
    cases h
    exact hlocal
  | recount taking lockCount =>
    cases h
    obtain ⟨hown, hdepth, hcount, hlt⟩ := hlocal
    have hnext : (lockCount + 1).toNat = (depth + 1) % 2 ^ 32 := by
      rw [UInt32.toNat_add, hcount]
      simp only [UInt32.toNat_one]
      omega
    refine ⟨iff_of_true hown (Nat.succ_pos depth), fun _ => hnext, ?_⟩
    simp only [Outcome.depth]
    omega
  | acquire taking =>
    simp only [advance] at h
    obtain ⟨hown, hdepth⟩ := hlocal
    split at h
    · cases taking with
      | lock =>
        cases h
        exact ⟨hown, hdepth⟩
      | tryLock =>
        cases h
        simp [Local, Outcome.depth, hown, hdepth]
    · cases h
      exact ⟨hown, hdepth⟩
  | test taking =>
    cases h
    obtain ⟨hown, hdepth⟩ := hlocal
    split
    · exact ⟨‹_›, hdepth⟩
    · exact ⟨hown, hdepth⟩
  | giveUp taking =>
    obtain ⟨hown, hdepth⟩ := hlocal
    cases taking with
    | lock =>
      cases h
      exact ⟨hown, hdepth⟩
    | tryLock =>
      cases h
      simp [Local, Outcome.depth, hown, hdepth]
  | own taking =>
    cases h
    exact ⟨rfl, hlocal.2⟩
  | count taking =>
    cases h
    exact ⟨hlocal.1, hlocal.2, rfl⟩
  | leave taking =>
    cases h
    obtain ⟨hown, hdepth, hcount⟩ := hlocal
    subst hdepth
    simp [Local, Outcome.depth, hown, hcount]
  | check =>
    cases h
    obtain ⟨howner, hcount, hle⟩ := hlocal
    by_cases hown : m.ownerTask = task
    · have hdepth := howner.mp hown
      simp only [if_pos hown, Local, Outcome.depth]
      exact ⟨hown, hdepth, hcount hdepth, hle⟩
    · simp only [if_neg hown]
      exact ⟨howner, hcount, hle⟩
  | unlockAcquire =>
    simp only [advance] at h
    split at h
    · cases h
      exact hlocal
    · cases h
      exact hlocal
  | load =>
    cases h
    exact hlocal
  | store lockCount =>
    cases h
    obtain ⟨hown, hdepth, hcount, hle⟩ := hlocal
    have hprev : (lockCount - 1).toNat = depth - 1 := by
      rw [UInt32.toNat_sub, hcount]
      simp only [UInt32.toNat_one]
      omega
    exact ⟨hown, hdepth, hprev, hle⟩
  | zero =>
    cases h
    obtain ⟨hown, hdepth, hcount, hle⟩ := hlocal
    by_cases hzero : m.lockCount = 0
    · have hone : depth = 1 := by
        rw [hzero, UInt32.toNat_zero] at hcount
        omega
      simp only [if_pos hzero]
      exact ⟨hown, hone⟩
    · have hmany : 1 < depth := by
        by_contra hle
        have hcount' : m.lockCount.toNat = 0 := by omega
        exact hzero (UInt32.toNat_inj.mp hcount')
      simp only [if_neg hzero]
      exact .inr ⟨hmany, hown, hcount, hle⟩
  | disown =>
    cases h
    exact .inl ⟨hlocal.2, rfl⟩
  | release =>
    cases h
    rcases hlocal with ⟨hdepth, hown⟩ | ⟨hdepth, hown, hcount, hle⟩
    · simp only [Local, Outcome.depth, hdepth, hown]
      omega
    · simp only [Local, Outcome.depth]
      refine ⟨iff_of_true hown (by omega), fun _ => ?_, by omega⟩
      rw [hcount]
      omega

/-- What a step leaves of the fields, for the other tasks: only the owner changes the counter, and
the owner changes inside the spinlock only, from and to nobody. -/
theorem advance_frame {other : ℕ} (hne : other ≠ task) :
    (m'.ownerTask = other ↔ m.ownerTask = other) ∧
      (m.ownerTask = other → m'.lockCount = m.lockCount) ∧
      (m'.ownerTask = m.ownerTask ∨ place.Inside ∧ (m'.ownerTask = -1 ∨ m'.ownerTask = task)) := by
  have hcast : (task : ℤ) ≠ other := by
    intro heq
    exact hne (by exact_mod_cast heq.symm)
  cases place with
  | idle => cases h
  | own taking =>
    cases h
    obtain ⟨hown, -⟩ := hlocal
    refine ⟨iff_of_false hcast ?_, fun _ => rfl, .inr ⟨trivial, .inr rfl⟩⟩
    omega
  | disown =>
    cases h
    obtain ⟨hown, -⟩ := hlocal
    refine ⟨iff_of_false ?_ (hown ▸ hcast), fun _ => rfl, .inr ⟨trivial, .inl rfl⟩⟩
    change (-1 : ℤ) ≠ other
    omega
  | recount | count | store =>
    cases h
    have hother : m.ownerTask ≠ other := hlocal.1 ▸ hcast
    exact ⟨Iff.rfl, fun heq => absurd heq hother, .inl rfl⟩
  | acquire taking =>
    simp only [advance] at h
    split at h
    · cases taking <;> cases h <;> exact ⟨Iff.rfl, fun _ => rfl, .inl rfl⟩
    · cases h
      exact ⟨Iff.rfl, fun _ => rfl, .inl rfl⟩
  | unlockAcquire =>
    simp only [advance] at h
    split at h <;> cases h <;> exact ⟨Iff.rfl, fun _ => rfl, .inl rfl⟩
  | giveUp taking => cases taking <;> cases h <;> exact ⟨Iff.rfl, fun _ => rfl, .inl rfl⟩
  | enter | reenter | test | leave | check | load | zero | release =>
    cases h
    exact ⟨Iff.rfl, fun _ => rfl, .inl rfl⟩

end

/-- Only a task that has locked the mutex gets to the end of `mutex_unlock`. -/
theorem unlocked_pos (hlocal : Local m task depth place)
    (h : advance m task place = some (m', place', .unlocked)) : 0 < depth := by
  cases place with
  | release =>
    rcases hlocal with ⟨hdepth, -⟩ | ⟨hdepth, -⟩ <;> omega
  | acquire taking =>
    simp only [advance] at h
    split at h
    · cases taking <;> cases h
    · cases h
  | unlockAcquire =>
    simp only [advance] at h
    split at h <;> cases h
  | giveUp taking => cases taking <;> cases h
  | _ => cases h

end Advance

/-! ## Runs -/

section Step

variable {s u : System} {a : Action}

theorem step_cases (h : step s a = some u) :
    (∃ task call, a = .call task call ∧ s.place task = .idle ∧ u = s.goto task call.entry) ∨
      ∃ task m place outcome, a = .run task ∧
        advance s.mutex task (s.place task) = some (m, place, outcome) ∧
        u = ({ s with mutex := m }.goto task place).note task outcome := by
  cases a with
  | call task call =>
    simp only [step] at h
    split at h
    · exact .inl ⟨task, call, rfl, ‹_›, (some.inj h).symm⟩
    · cases h
  | run task =>
    simp only [step] at h
    split at h
    · cases h
    · exact .inr ⟨task, _, _, _, rfl, ‹_›, (some.inj h).symm⟩

end Step

@[simp] theorem note_mutex (o : Outcome) : (s.note task o).mutex = s.mutex := by
  cases o <;> rfl

@[simp] theorem note_place (o : Outcome) : (s.note task o).place = s.place := by
  cases o <;> rfl

theorem note_counts_of_ne (o : Outcome) {task other : ℕ} (hne : other ≠ task) :
    (s.note task o).locks other = s.locks other ∧
      (s.note task o).unlocks other = s.unlocks other := by
  cases o <;> simp [System.note, update_of_ne hne]

theorem note_counts {o : Outcome} (hle : s.unlocks task ≤ s.locks task)
    (hpos : o = .unlocked → 0 < s.depth task) :
    (s.note task o).unlocks task ≤ (s.note task o).locks task ∧
      (s.note task o).depth task = o.depth (s.depth task) := by
  cases o with
  | none => exact ⟨hle, rfl⟩
  | locked =>
    simp only [System.note, System.depth, Outcome.depth, update_self]
    omega
  | unlocked =>
    have hdepth := hpos rfl
    simp only [System.depth] at hdepth
    simp only [System.note, System.depth, Outcome.depth, update_self]
    omega

/-- The spinlock protects its sections, and what should be true of tasks is. -/
structure Inv (s : System) : Prop where
  guarded : Guarded s.mutex.spinlock fun t => (s.place t).Inside
  ordered : ∀ t, s.unlocks t ≤ s.locks t
  locals : ∀ t, Local s.mutex t (s.depth t) (s.place t)
  owner : s.mutex.ownerTask = -1 ∨ ∃ t : ℕ, s.mutex.ownerTask = t

theorem inv_init : Inv System.init := by
  constructor
  · exact guarded_init fun _ => id
  · exact fun _ => Nat.le_refl 0
  · intro t
    simp [Local, System.init, System.depth, mutexInit]
  · exact .inl rfl

/-- No task that has locked the mutex 2^32 times calls for it again. -/
def Shallow : Action → Prop
  | .call task (.take _) => s.depth task < 2 ^ 32
  | _ => True

instance : (a : Action) → Decidable (Shallow s a)
  | .call task (.take _) => inferInstanceAs (Decidable (s.depth task < 2 ^ 32))
  | .call _ .unlock => isTrue trivial
  | .run _ => isTrue trivial

theorem Inv.call {s : System} (h : Inv s) {task : ℕ} {call : Call} (hidle : s.place task = .idle)
    (hshallow : Shallow s (.call task call)) : Inv (s.goto task call.entry) := by
  have hself : Local s.mutex task (s.depth task) call.entry := by
    have hlocal := h.locals task
    rw [hidle] at hlocal
    cases call with
    | take taking => exact ⟨hlocal.1, hlocal.2.1, hshallow⟩
    | unlock => exact hlocal
  have houtside : ¬ call.entry.Inside := by cases call <;> exact id
  refine ⟨h.guarded.stay fun t => ?_, h.ordered, fun t => ?_, h.owner⟩
  · by_cases ht : t = task
    · subst ht
      simp only [System.goto, update_self, hidle]
      exact iff_of_false houtside id
    · simp only [System.goto, update_of_ne ht]
  · by_cases ht : t = task
    · subst ht
      simp only [System.goto, update_self]
      exact hself
    · simp only [System.goto, update_of_ne ht]
      exact h.locals t

theorem Inv.run {s : System} (h : Inv s) {task : ℕ} {m : Mutex} {place : Place} {o : Outcome}
    (hadv : advance s.mutex task (s.place task) = some (m, place, o)) :
    Inv (({ s with mutex := m }.goto task place).note task o) := by
  have hlocal := h.locals task
  have hpos : o = .unlocked → 0 < s.depth task := by
    rintro rfl
    exact unlocked_pos hlocal hadv
  obtain ⟨hle, hdepth⟩ :=
    note_counts ({ s with mutex := m }.goto task place) task (h.ordered task) hpos
  refine ⟨?_, fun t => ?_, fun t => ?_, ?_⟩
  · simp only [note_mutex, note_place, System.goto]
    have hother : ∀ t, t ≠ task → ((update s.place task place t).Inside ↔ (s.place t).Inside) := by
      intro t ht
      rw [update_of_ne ht]
    cases advance_spinChange hadv with
    | stay hspin hins =>
      rw [hspin]
      apply h.guarded.stay
      intro t
      by_cases ht : t = task
      · subst ht
        rwa [update_self]
      · exact hother t ht
    | enter hfree hset =>
      rw [hset]
      have hgrd := h.guarded
      rw [hfree] at hgrd
      exact hgrd.enter hother
    | leave hin hout => exact h.guarded.leave hin (by rwa [update_self]) hother
  · by_cases ht : t = task
    · exact ht ▸ hle
    · obtain ⟨hlocks, hunlocks⟩ :=
        note_counts_of_ne ({ s with mutex := m }.goto task place) o ht
      rw [hlocks, hunlocks]
      exact h.ordered t
  · by_cases ht : t = task
    · subst ht
      rw [hdepth]
      simp only [note_mutex, note_place, System.goto, update_self]
      exact advance_local hlocal hadv
    · obtain ⟨hlocks, hunlocks⟩ :=
        note_counts_of_ne ({ s with mutex := m }.goto task place) o ht
      have hsame : (({ s with mutex := m }.goto task place).note task o).depth t = s.depth t := by
        simp only [System.depth, hlocks, hunlocks]
        rfl
      rw [hsame]
      simp only [note_mutex, note_place, System.goto, update_of_ne ht]
      obtain ⟨howner, hcount, hsame⟩ := advance_frame hlocal hadv ht
      refine (h.locals t).frame howner hcount fun hin => ?_
      -- The owner changes inside the spinlock only, where the other task is.
      exact hsame.resolve_right fun hself => ht (h.guarded.unique t task hin hself.1)
  · rw [note_mutex]
    obtain ⟨-, -, hsame | ⟨-, hnone | hself⟩⟩ := advance_frame hlocal hadv (Nat.succ_ne_self task)
    · simp only [System.goto, hsame]
      exact h.owner
    · exact .inl hnone
    · exact .inr ⟨task, hself⟩

theorem inv_step {s u : System} {a : Action} (h : Inv s) (hshallow : Shallow s a)
    (hstep : step s a = some u) : Inv u := by
  obtain ⟨task, call, rfl, hidle, rfl⟩ | ⟨task, m, place, o, rfl, hadv, rfl⟩ := step_cases hstep
  · exact h.call hidle hshallow
  · exact h.run hadv

/-! ## Mutual exclusion -/

def Place.InUnlock : Place → Prop
  | .check | .unlockAcquire | .load | .store _ | .zero | .disown | .release => True
  | _ => False

/-- A holder that is in no call is the owner, so it keeps the mutex until it has unlocked it as
often as locked, and nobody is the owner by mistake. -/
structure Excludes (s : System) : Prop where
  exclusive : ∀ t u, s.Holds t → s.Holds u → t = u
  kept : ∀ t, s.place t = .idle → (s.mutex.ownerTask = t ↔ s.Holds t)
  stranger : ∀ t, ¬ s.Holds t → (s.place t).InUnlock → ∀ u, step s (.run t) = some u →
    u.mutex = s.mutex ∧ u.place t = .idle
  owner : (∀ t, s.place t = .idle) →
    (∃ t, s.Holds t ∧ s.mutex.ownerTask = t) ∨ (∀ t, ¬ s.Holds t) ∧ s.mutex.ownerTask = -1

section Excludes

variable {s : System} {t : ℕ}

theorem Inv.holds_iff (t : ℕ) : s.Holds t ↔ 0 < s.depth t := Nat.sub_pos_iff_lt.symm

section

variable (h : Inv s)
include h

/-- A holder is the owner, except at the end of its last unlock. -/
theorem Inv.holder (ht : s.Holds t) :
    s.mutex.ownerTask = t ∨ s.place t = .release ∧ s.mutex.ownerTask = -1 := by
  have hlocal := h.locals t
  have hpos := (Inv.holds_iff t).mp ht
  cases hplace : s.place t with
  | release =>
    rw [hplace] at hlocal
    rcases hlocal with ⟨-, hown⟩ | ⟨-, hown, -⟩
    · exact .inr ⟨rfl, hown⟩
    · exact .inl hown
  | idle | check | enter =>
    rw [hplace] at hlocal
    exact .inl (hlocal.1.mpr hpos)
  | acquire | test | giveUp | own | count =>
    rw [hplace] at hlocal
    exact absurd hlocal.2 hpos.ne'
  | leave =>
    rw [hplace] at hlocal
    exact absurd hlocal.2.1 hpos.ne'
  | reenter | recount | unlockAcquire | load | store | zero | disown =>
    rw [hplace] at hlocal
    exact .inl hlocal.1

theorem Inv.exclusive {u : ℕ} (ht : s.Holds t) (hu : s.Holds u) : t = u := by
  rcases h.holder ht with hown | ⟨hrel, hown⟩
  · rcases h.holder hu with hown' | ⟨-, hown'⟩
    · exact_mod_cast hown.symm.trans hown'
    · omega
  · rcases h.holder hu with hown' | ⟨hrel', -⟩
    · omega
    · exact h.guarded.unique t u (by rw [hrel]; trivial) (by rw [hrel']; trivial)

theorem Inv.kept (hidle : s.place t = .idle) : s.mutex.ownerTask = t ↔ s.Holds t := by
  have hlocal := h.locals t
  rw [hidle] at hlocal
  exact hlocal.1.trans (Inv.holds_iff t).symm

/-- A task that has not locked the mutex stops at the first test of `mutex_unlock`. -/
theorem Inv.at_check (ht : ¬ s.Holds t) (hin : (s.place t).InUnlock) :
    s.place t = .check ∧ s.mutex.ownerTask ≠ t := by
  have hlocal := h.locals t
  rw [Inv.holds_iff] at ht
  cases hplace : s.place t with
  | check =>
    rw [hplace] at hlocal
    exact ⟨rfl, fun hown => ht (hlocal.1.mp hown)⟩
  | unlockAcquire | load | store | zero =>
    rw [hplace] at hlocal
    exact absurd hlocal.2.1 ht
  | disown =>
    rw [hplace] at hlocal
    obtain ⟨-, hone⟩ := hlocal
    omega
  | release =>
    rw [hplace] at hlocal
    rcases hlocal with ⟨hdepth, -⟩ | ⟨hdepth, -⟩ <;> omega
  | _ =>
    rw [hplace] at hin
    exact hin.elim

theorem Inv.stranger (ht : ¬ s.Holds t) (hin : (s.place t).InUnlock) {u : System}
    (hstep : step s (.run t) = some u) : u.mutex = s.mutex ∧ u.place t = .idle := by
  obtain ⟨hplace, hown⟩ := h.at_check ht hin
  simp only [step, hplace, advance, if_neg hown, some.injEq] at hstep
  subst hstep
  simp [System.note, System.goto]

theorem Inv.excludes : Excludes s := by
  refine ⟨fun t u => h.exclusive, fun t => h.kept, fun t ht hin u => h.stranger ht hin, ?_⟩
  intro hidle
  rcases h.owner with hnone | ⟨t, hown⟩
  · refine .inr ⟨fun t ht => ?_, hnone⟩
    have hown := (h.kept (hidle t)).mpr ht
    omega
  · exact .inl ⟨t, (h.kept (hidle t)).mp hown, hown⟩

end

end Excludes

/-- If no task that has locked the mutex 2^32 times calls for it again, the mutex excludes. -/
theorem mutex_excludes (actions : List Action) (h : Meets step Shallow System.init actions) :
    Throughout step Excludes System.init actions := by
  have hinv : Throughout step Inv System.init actions :=
    throughout_of_meets step (fun _ _ _ => inv_step) inv_init h
  exact hinv.imp step fun _ => Inv.excludes

/-- A task that locks the mutex twice and unlocks it once holds it; another one tries in between. -/
theorem twice_locked_mutex_excludes :
    let actions : List Action :=
      .call 0 (.take .lock) :: List.replicate 6 (.run 0) ++
        (.call 1 (.take .tryLock) :: List.replicate 4 (.run 1) ++
          .call 0 (.take .tryLock) :: List.replicate 3 (.run 0) ++
          .call 0 .unlock :: List.replicate 6 (.run 0))
    Meets step Shallow System.init actions ∧ Throughout step Excludes System.init actions := by
  intro actions
  have hmeets : Meets step Shallow System.init actions := by decide
  exact ⟨hmeets, mutex_excludes actions hmeets⟩

/-! ## The limit of the counter -/

def resting (mutex : Mutex) (locks unlocks : ℕ → ℕ) : System :=
  ⟨mutex, fun _ => .idle, locks, unlocks⟩

/-- `mutex_lock` on a free mutex, `mutex_lock` by the owner, and an unlock that releases the mutex.
-/
def lockFree : List Action := .call task (.take .lock) :: List.replicate 6 (.run task)
def relock : List Action := .call task (.take .lock) :: List.replicate 3 (.run task)
def unlockLast : List Action := .call task .unlock :: List.replicate 7 (.run task)

section Calls

variable (task : ℕ) (lockCount : UInt32) (locks unlocks : ℕ → ℕ)

theorem exec_lockFree : exec step (resting ⟨false, -1, lockCount⟩ locks unlocks) (lockFree task) =
    some (resting ⟨false, task, 1⟩ (update locks task (locks task + 1)) unlocks) := by
  have hne : (-1 : ℤ) ≠ task := by omega
  simp [lockFree, resting, exec, step, advance, System.goto, System.note, Call.entry,
    List.replicate, hne]

theorem exec_relock : exec step (resting ⟨false, task, lockCount⟩ locks unlocks) (relock task) =
    some (resting ⟨false, task, lockCount + 1⟩ (update locks task (locks task + 1)) unlocks) := by
  simp [relock, resting, exec, step, advance, System.goto, System.note, Call.entry, List.replicate]

theorem exec_unlockLast : exec step (resting ⟨false, task, 1⟩ locks unlocks) (unlockLast task) =
    some (resting ⟨false, -1, 0⟩ locks (update unlocks task (unlocks task + 1))) := by
  simp [unlockLast, resting, exec, step, advance, System.goto, System.note, Call.entry,
    List.replicate]

/-- Nesting is not limited: the counter goes on modulo 2^32. -/
theorem exec_relocks (n : ℕ) : exec step (resting ⟨false, task, lockCount⟩ locks unlocks)
        (List.replicate n (relock task)).flatten =
      some (resting ⟨false, task, lockCount + UInt32.ofNat n⟩
        (update locks task (locks task + n)) unlocks) := by
  induction n generalizing lockCount locks with
  | zero => simp
  | succ n ih =>
    have hcount : lockCount + 1 + UInt32.ofNat n = lockCount + UInt32.ofNat (n + 1) := by
      rw [UInt32.ofNat_add, UInt32.add_assoc, UInt32.add_comm 1]
      rfl
    rw [List.replicate_succ, List.flatten_cons, exec_append, exec_relock, bind_some, ih,
      hcount, update_idem, update_self, Nat.add_assoc, Nat.add_comm 1]

end Calls

/-- After 2^32 + 1 nested locks, one unlock releases the mutex, and two tasks hold it. -/
theorem counter_wraps : ∃ u,
    exec step System.init (lockFree 0 ++ ((List.replicate (2 ^ 32) (relock 0)).flatten ++
      (unlockLast 0 ++ lockFree 1))) = some u ∧ u.Holds 0 ∧ u.Holds 1 ∧ ¬ Excludes u := by
  have hinit : System.init = resting ⟨false, -1, 0⟩ (fun _ => 0) (fun _ => 0) := rfl
  have hcount : (1 : UInt32) + UInt32.ofNat (2 ^ 32) = 1 := by decide
  obtain ⟨u, hu⟩ : ∃ u, u = resting ⟨false, (1 : ℕ), 1⟩
      (update (update (fun _ => 0) 0 (1 + 2 ^ 32)) 1 1)
      (update (fun _ => 0) 0 1) := ⟨_, rfl⟩
  have hzero : u.Holds 0 := by simp [hu, System.Holds, resting]
  have hone : u.Holds 1 := by simp [hu, System.Holds, resting]
  refine ⟨u, ?_, hzero, hone, fun h => Nat.zero_ne_one (h.exclusive 0 1 hzero hone)⟩
  rw [hinit, exec_append, exec_lockFree, bind_some, exec_append, exec_relocks,
    bind_some, hcount, exec_append, exec_unlockLast, bind_some, exec_lockFree, hu]
  simp

end UintOS.Mutexes
