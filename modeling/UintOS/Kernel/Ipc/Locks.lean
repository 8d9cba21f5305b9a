import UintOS.Kernel.Ipc.Mailbox
import UintOS.Library.Spinlock

/-!
# The locks of the message queues

The functions of `ipc.c` once more, with every access to a queue as a step: the test-and-set and the
release of its lock, and each read or write of `head`, `tail`, `count` or a pointer of `messages`.
Any tasks call them at once.

The lock does not know its holder. `ipc_receive_message` releases it twice when its queue is empty
and it has to wait, and the second release frees a lock that another task may have taken.
-/

namespace UintOS.Ipc.Locks

open Function Runs Spinlock

abbrev Index := Fin maxMessagesPerQueue

/-- `message_queue_t`; a pointer is a number. -/
structure Queue where
  lock : Bool
  head : Index
  tail : Index
  count : ℤ
  messages : Index → Option ℕ

def Queue.init : Queue := ⟨false, 0, 0, 0, fun _ => none⟩

/-- The functions, with what their steps depend on: whose queue it is, the pointer to the new
message, and whether `IPC_FLAG_NOWAIT` is set. -/
inductive Call
  | send (receiver : Task) (message : ℕ)
  | receive (nowait : Bool)
  | peek
  | flush (owner : Task)
deriving DecidableEq, Repr

def Call.queue (task : Task) : Call → Task
  | .send receiver _ => receiver
  | .receive _ => task
  | .peek => task
  | .flush owner => owner

inductive Point
  -- all functions: take the lock, and let it go at the end
  | acquire (call : Call)
  | release
  -- `ipc_send_message`
  | sendTest (message : ℕ)
  | sendTail (message : ℕ)
  | sendStore (message : ℕ) (tail : Index)
  | sendAdvance (tail : Index)
  | sendLoad
  | sendCount (count : ℤ)
  -- `ipc_receive_message`: the first test, the two releases, and the loop
  | receiveTest (nowait : Bool)
  | receiveEmpty (nowait : Bool)
  | receiveAgain
  | receiveWait
  | receivePoll
  | receiveRetry
  | receiveHead
  | receiveFetch (head : Index)
  | receiveClear (head : Index)
  | receiveAdvance (head : Index)
  | receiveLoad
  | receiveCount (count : ℤ)
  -- `ipc_peek_message`
  | peekTest
  | peekHead
  | peekFetch (head : Index)
  -- `ipc_flush_messages`: the loop, and the reset
  | flushTest (i : ℕ)
  | flushHead (i : ℕ)
  | flushFetch (i : ℕ) (index : Index)
  | flushFree (i : ℕ) (index : Index)
  | flushClear (i : ℕ) (index : Index)
  | resetHead
  | resetTail
  | resetCount
deriving DecidableEq, Repr

def Call.enter : Call → Point
  | .send _ message => .sendTest message
  | .receive nowait => .receiveTest nowait
  | .peek => .peekTest
  | .flush _ => .flushTest 0

/-- One step, and the next; none when the call is over or done with the queue. -/
def advance (q : Queue) : Point → Queue × Option Point
  | .acquire call =>
    if q.lock then (q, some (.acquire call)) else ({ q with lock := true }, some call.enter)
  | .release => ({ q with lock := false }, none)
  | .sendTest message =>
    (q, if q.count ≥ maxMessagesPerQueue then some .release else some (.sendTail message))
  | .sendTail message => (q, some (.sendStore message q.tail))
  | .sendStore message tail =>
    ({ q with messages := update q.messages tail (some message) }, some (.sendAdvance tail))
  | .sendAdvance tail => ({ q with tail := tail + 1 }, some .sendLoad)
  | .sendLoad => (q, some (.sendCount q.count))
  | .sendCount count => ({ q with count := count + 1 }, some .release)
  | .receiveTest nowait =>
    (q, if q.count = 0 then some (.receiveEmpty nowait) else some .receiveHead)
  | .receiveEmpty nowait => ({ q with lock := false }, if nowait then none else some .receiveAgain)
  | .receiveAgain => ({ q with lock := false }, some .receiveWait)
  | .receiveWait =>
    if q.lock then (q, some .receiveWait) else ({ q with lock := true }, some .receivePoll)
  | .receivePoll => (q, if q.count > 0 then some .receiveHead else some .receiveRetry)
  | .receiveRetry => ({ q with lock := false }, some .receiveWait)
  | .receiveHead => (q, some (.receiveFetch q.head))
  | .receiveFetch head => (q, some (.receiveClear head))
  | .receiveClear head =>
    ({ q with messages := update q.messages head none }, some (.receiveAdvance head))
  | .receiveAdvance head => ({ q with head := head + 1 }, some .receiveLoad)
  | .receiveLoad => (q, some (.receiveCount q.count))
  | .receiveCount count => ({ q with count := count - 1 }, some .release)
  | .peekTest => (q, if q.count = 0 then some .release else some .peekHead)
  | .peekHead => (q, some (.peekFetch q.head))
  | .peekFetch _ => (q, some .release)
  | .flushTest i => (q, if i < q.count then some (.flushHead i) else some .resetHead)
  | .flushHead i => (q, some (.flushFetch i (q.head + Fin.ofNat maxMessagesPerQueue i)))
  | .flushFetch i index =>
    (q, match q.messages index with
      | some _ => some (.flushFree i index)
      | none => some (.flushTest (i + 1)))
  | .flushFree i index => (q, some (.flushClear i index))
  | .flushClear i index =>
    ({ q with messages := update q.messages index none }, some (.flushTest (i + 1)))
  | .resetHead => ({ q with head := 0 }, some .resetTail)
  | .resetTail => ({ q with tail := 0 }, some .resetCount)
  | .resetCount => ({ q with count := 0 }, some .release)

/-- The queues, and for each task in a call its queue and what it does next. -/
structure System where
  queues : Task → Queue
  place : Task → Option (Task × Point)

/-- `ipc_init`. -/
def System.init : System := ⟨fun _ => Queue.init, fun _ => none⟩

variable (s : System)

def System.move (task queue : Task) (q : Queue) (next : Option Point) : System where
  queues := update s.queues queue q
  place := update s.place task (next.map fun point => (queue, point))

inductive Action
  | call (task : Task) (call : Call)
  | run (task : Task)
deriving DecidableEq, Repr

def step : Action → Option System
  | .call task call =>
    if s.place task = none then
      some (s.move task (call.queue task) (s.queues (call.queue task)) (some (.acquire call)))
    else none
  | .run task =>
    match s.place task with
    | none => none
    | some (queue, point) =>
      let (q, next) := advance (s.queues queue) point
      some (s.move task queue q next)

/-! ## Who holds a lock -/

/-- The steps from the acquisition of the lock to its next release. -/
def Point.Inside : Point → Prop
  | .acquire _ | .receiveAgain | .receiveWait => False
  | _ => True

def Point.Releases : Point → Prop
  | .release | .receiveEmpty _ | .receiveAgain | .receiveRetry => True
  | _ => False

/-- The task is between acquiring and releasing the lock of the queue. -/
def System.Holds (queue task : Task) : Prop :=
  ∃ point, s.place task = some (queue, point) ∧ point.Inside

/-- The locks protect the queues. -/
structure Protected (s : System) : Prop where
  exclusive : ∀ queue t u, s.Holds queue t → s.Holds queue u → t = u
  holder : ∀ queue t point, s.place t = some (queue, point) → point.Releases → s.Holds queue t

/-- A call of `ipc_receive_message` that would wait does not find its queue empty at its first test.
-/
def Served : Action → Prop
  | .run task =>
    ∀ queue, s.place task = some (queue, .receiveTest false) → (s.queues queue).count ≠ 0
  | _ => True

instance : (a : Action) → Decidable (Served s a)
  | .run _ => inferInstanceAs (Decidable (∀ _, _ → _))
  | .call _ _ => isTrue trivial

/-- The second release of `ipc_receive_message`, and the first one when the call will wait. -/
def Point.Doubled : Point → Prop
  | .receiveEmpty false | .receiveAgain => True
  | _ => False

def Keeps : Option Point → Prop
  | none => False
  | some point => point.Inside

inductive LockChange (q q' : Queue) (point : Point) (next : Option Point) : Prop
  | stay : q'.lock = q.lock → (Keeps next ↔ point.Inside) → LockChange q q' point next
  | enter : q.lock = false → q'.lock = true → LockChange q q' point next
  | leave : point.Inside → ¬ Keeps next → LockChange q q' point next

section Advance

variable (q : Queue) {point : Point}

/-- All steps but the second release go with the holder of the lock. -/
theorem advance_lockChange (hdoubled : ¬ point.Doubled) :
    LockChange q (advance q point).1 point (advance q point).2 := by
  cases point with
  | acquire call | receiveWait =>
    simp only [advance]
    split
    · exact .stay rfl Iff.rfl
    · exact .enter (by simpa using ‹¬ q.lock = true›) rfl
  | receiveEmpty nowait =>
    cases nowait with
    | false => exact absurd trivial hdoubled
    | true => exact .leave trivial id
  | receiveAgain => exact absurd trivial hdoubled
  | release | receiveRetry => exact .leave trivial id
  | sendTest | receiveTest | receivePoll | peekTest | flushTest | flushFetch =>
    apply LockChange.stay rfl
    simp only [advance]
    split <;> exact Iff.rfl
  | _ => exact .stay rfl Iff.rfl

/-- Only a call that finds its queue empty and waits releases the lock twice. -/
theorem advance_not_doubled (hdoubled : ¬ point.Doubled)
    (hserved : point = .receiveTest false → q.count ≠ 0) {next : Point}
    (hnext : (advance q point).2 = some next) : ¬ next.Doubled := by
  cases point with
  | acquire call =>
    simp only [advance] at hnext
    split at hnext
    · cases hnext
      exact id
    · cases hnext
      cases call <;> exact id
  | receiveWait =>
    simp only [advance] at hnext
    split at hnext <;> cases hnext <;> exact id
  | receiveTest nowait =>
    simp only [advance] at hnext
    split at hnext
    · rename_i hempty
      cases hnext
      cases nowait with
      | false => exact absurd hempty (hserved rfl)
      | true => exact id
    · cases hnext
      exact id
  | receiveEmpty nowait =>
    cases nowait with
    | false => exact absurd trivial hdoubled
    | true => cases hnext
  | receiveAgain => exact absurd trivial hdoubled
  | sendTest | receivePoll | peekTest | flushTest | flushFetch =>
    simp only [advance] at hnext
    split at hnext <;> cases hnext <;> exact id
  | release => cases hnext
  | _ =>
    cases hnext
    exact id

end Advance

/-- A lock is taken while a task is in its section, and no task is about to release one twice. -/
structure Inv (s : System) : Prop where
  guarded : ∀ queue, Guarded (s.queues queue).lock (s.Holds queue)
  single : ∀ t queue point, s.place t = some (queue, point) → ¬ point.Doubled

theorem inv_init : Inv System.init := by
  constructor
  · intro queue
    apply guarded_init
    rintro t ⟨point, hplace, -⟩
    cases hplace
  · intro t queue point hplace
    cases hplace

section Move

variable {s : System} {task queue other : Task} {q : Queue} {next : Option Point}

theorem holds_iff {point : Point} (hplace : s.place task = some (queue, point)) :
    s.Holds other task ↔ other = queue ∧ point.Inside := by
  simp only [System.Holds, hplace, Option.some.injEq, Prod.mk.injEq]
  constructor
  · rintro ⟨point, ⟨rfl, rfl⟩, hins⟩
    exact ⟨rfl, hins⟩
  · rintro ⟨rfl, hins⟩
    exact ⟨point, ⟨rfl, rfl⟩, hins⟩

theorem move_holds_self :
    (s.move task queue q next).Holds other task ↔ other = queue ∧ Keeps next := by
  cases next with
  | none => simp [System.Holds, System.move, Keeps]
  | some point => exact holds_iff (update_self ..)

theorem move_holds_of_ne {t : Task} (ht : t ≠ task) :
    (s.move task queue q next).Holds other t ↔ s.Holds other t := by
  simp only [System.Holds, System.move, update_of_ne ht]

/-- What has to be shown of a step: where it leaves the lock of its queue, and that it does not lead
to a second release. -/
theorem Inv.move (h : Inv s) (hself : ∀ other, s.Holds other task → other = queue)
    (hqueue : Guarded q.lock ((s.move task queue q next).Holds queue))
    (hnext : ∀ point, next = some point → ¬ point.Doubled) : Inv (s.move task queue q next) := by
  constructor
  · intro other
    by_cases hother : other = queue
    · subst hother
      simp only [System.move, update_self]
      exact hqueue
    · have hlock : (s.move task queue q next).queues other = s.queues other :=
        update_of_ne hother ..
      rw [hlock]
      apply (h.guarded other).stay
      intro t
      by_cases ht : t = task
      · subst ht
        rw [move_holds_self]
        exact iff_of_false (fun hin => hother hin.1) fun hin => hother (hself other hin)
      · exact move_holds_of_ne ht
  · intro t other point hplace
    by_cases ht : t = task
    · subst ht
      simp only [System.move, update_self] at hplace
      obtain ⟨point', hpoint, heq⟩ := Option.map_eq_some_iff.mp hplace
      cases heq
      exact hnext point hpoint
    · simp only [System.move, update_of_ne ht] at hplace
      exact h.single t other point hplace

end Move

section Step

variable {s : System} {task queue : Task}

theorem Inv.call (h : Inv s) (call : Call) (hnone : s.place task = none) :
    Inv (s.move task queue (s.queues queue) (some (.acquire call))) := by
  have hout : ∀ other, ¬ s.Holds other task := by
    rintro other ⟨point, hplace, -⟩
    rw [hnone] at hplace
    cases hplace
  apply h.move
  · intro other hin
    exact absurd hin (hout other)
  · apply (h.guarded queue).stay
    intro t
    by_cases ht : t = task
    · subst ht
      rw [move_holds_self]
      exact iff_of_false And.right (hout queue)
    · exact move_holds_of_ne ht
  · intro point hpoint
    cases hpoint
    exact id

theorem Inv.run (h : Inv s) {point : Point} (hplace : s.place task = some (queue, point))
    (hserved : point = .receiveTest false → (s.queues queue).count ≠ 0) :
    Inv (s.move task queue (advance (s.queues queue) point).1
      (advance (s.queues queue) point).2) := by
  have hdoubled := h.single task queue point hplace
  have hself : ∀ other, s.Holds other task ↔ other = queue ∧ point.Inside :=
    fun _ => holds_iff hplace
  apply h.move
  · intro other hin
    exact ((hself other).mp hin).1
  · have hother : ∀ t, t ≠ task → ((s.move task queue (advance (s.queues queue) point).1
        (advance (s.queues queue) point).2).Holds queue t ↔ s.Holds queue t) :=
      fun t ht => move_holds_of_ne ht
    cases advance_lockChange (s.queues queue) hdoubled with
    | stay hlock hins =>
      rw [hlock]
      apply (h.guarded queue).stay
      intro t
      by_cases ht : t = task
      · subst ht
        rw [move_holds_self, hself]
        exact and_congr_right fun _ => hins
      · exact hother t ht
    | enter hfree hset =>
      have hgrd := h.guarded queue
      rw [hfree] at hgrd
      rw [hset]
      exact hgrd.enter hother
    | leave hins hout =>
      apply (h.guarded queue).leave ((hself queue).mpr ⟨rfl, hins⟩) _ hother
      rw [move_holds_self]
      exact fun hin => hout hin.2
  · intro next hnext
    exact advance_not_doubled (s.queues queue) hdoubled hserved hnext

end Step

theorem inv_step (a : Action) (u : System) (h : Inv s) (hserved : Served s a)
    (hstep : step s a = some u) : Inv u := by
  cases a with
  | call task call =>
    simp only [step] at hstep
    split at hstep
    · obtain rfl := Option.some.inj hstep
      exact h.call call ‹_›
    · cases hstep
  | run task =>
    simp only [step] at hstep
    split at hstep
    · cases hstep
    · rename_i queue point hplace
      obtain rfl := Option.some.inj hstep
      apply h.run hplace
      rintro rfl
      exact hserved queue hplace

/-- A release that is not the second of a call is made by the holder. -/
theorem inside_of_releases {point : Point} (hreleases : point.Releases)
    (hdoubled : ¬ point.Doubled) : point.Inside := by
  cases point with
  | receiveAgain => exact absurd trivial hdoubled
  | acquire | receiveWait => exact hreleases.elim
  | _ => trivial

theorem Inv.locks {s : System} (h : Inv s) : Protected s := by
  constructor
  · intro queue t u ht hu
    exact (h.guarded queue).unique t u ht hu
  · intro queue t point hplace hreleases
    exact ⟨point, hplace, inside_of_releases hreleases (h.single t queue point hplace)⟩

/-- In every run in which no call that would wait finds its queue empty at the first test, the locks
protect the queues. -/
theorem locks_protect (actions : List Action) (h : Meets step Served System.init actions) :
    Throughout step Protected System.init actions := by
  have hinv : Throughout step Inv System.init actions :=
    throughout_of_meets step inv_step inv_init h
  exact hinv.imp step fun _ => Inv.locks

/-- Task 0 sends to task 1, which waits, and task 2 begins to flush that queue. -/
theorem sent_before_received_protects :
    let actions : List Action :=
      .call 0 (.send 1 7) :: List.replicate 8 (.run 0) ++
        (.call 1 (.receive false) :: .call 2 (.flush 1) :: List.replicate 3 (.run 1) ++
          List.replicate 2 (.run 2))
    Meets step Served System.init actions ∧ Throughout step Protected System.init actions := by
  intro actions
  have hmeets : Meets step Served System.init actions := by decide +kernel
  exact ⟨hmeets, locks_protect actions hmeets⟩

/-- Task 0 finds its queue empty and releases the lock. Task 1 takes it to send, the second release
of task 0 frees it, and task 2 takes it too. -/
theorem second_release_frees_lock : ∃ u, exec step System.init
      [.call 0 (.receive false), .run 0, .run 0, .run 0, .call 1 (.send 0 7), .run 1, .run 0,
        .call 2 (.send 0 8), .run 2] = some u ∧
      u.Holds 0 1 ∧ u.Holds 0 2 ∧ ¬ Protected u := by
  refine ⟨_, rfl, ⟨.sendTest 7, rfl, trivial⟩, ⟨.sendTest 8, rfl, trivial⟩, fun h => ?_⟩
  have heq := h.exclusive 0 1 2 ⟨.sendTest 7, rfl, trivial⟩ ⟨.sendTest 8, rfl, trivial⟩
  exact absurd heq (by decide)

end UintOS.Ipc.Locks
