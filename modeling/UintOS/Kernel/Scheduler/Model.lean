import UintOS.Library.RingBuffer
import UintOS.Library.Pool

/-!
# The scheduler

A model of `scheduler.c`. Tasks are in memory at their addresses, which the queues and lists hold.
The functions run with the lock held, one after the other. `task_switch_to` finds the new task to be
the current one already and does nothing, so `scheduler_schedule` returns to its caller. The heap
answers with the addresses, or NULL, that a call is given. Names, flags and contexts of tasks and
the counters of switches and times are left out.
-/

namespace UintOS.Scheduler

open Function

abbrev Ptr := ℕ

inductive TaskState
  | unused
  | ready
  | running
  | blocked
  | suspended
  | zombie
deriving DecidableEq, Repr

/-- `task_t`. An `int` is kept as its 32 bits. -/
structure Task where
  id : UInt32
  state : TaskState
  priority : UInt32
  timeSlice : Int32
  stack : Ptr
  exitCode : UInt32
  parentId : UInt32
deriving DecidableEq, Repr

def maxTasks : ℕ := 256

def maxPriority : ℕ := 32

def maxCpus : ℕ := 16

def millisecondsPerTick : ℕ := 10

/-! ## Queues -/

structure TaskQueue where
  ring : RingBuffer Ptr
  wellFormed : ring.WellFormed
  size_eq : ring.size = maxTasks

namespace TaskQueue

def empty : TaskQueue where
  ring := ⟨fun _ => 0, maxTasks, 0, 0, 0⟩
  wellFormed := RingBuffer.wellFormed_empty (by decide) rfl rfl rfl
  size_eq := rfl

instance : Inhabited TaskQueue := ⟨empty⟩

def count (q : TaskQueue) : ℕ := q.ring.count

def contents (q : TaskQueue) : List Ptr := q.ring.contents

variable (q : TaskQueue)

def add (task : Ptr) : TaskQueue :=
  if h : q.count < maxTasks then
    ⟨q.ring.push task, q.wellFormed.push (by rw [q.size_eq]; exact h) task, q.size_eq⟩
  else q

def take : Option (Ptr × TaskQueue) :=
  if h : 0 < q.count then
    some (q.ring.cells q.ring.start, ⟨q.ring.pop, q.wellFormed.pop h, q.size_eq⟩)
  else none

/-- Take the task at a place out, and move those behind it. -/
def removeAt (q : TaskQueue) (i : ℕ) : TaskQueue :=
  if h : i < q.count then
    ⟨q.ring.removeAt i, q.wellFormed.removeAt h,
      (RingBuffer.pulls_fields q.ring i _).1.trans q.size_eq⟩
  else q

theorem count_eq : q.count = q.contents.length :=
  (RingBuffer.length_contents q.ring).symm

theorem contents_add {q : TaskQueue} (h : q.count < maxTasks) (task : Ptr) :
    (q.add task).contents = q.contents ++ [task] := by
  unfold add
  rw [dif_pos h]
  exact q.wellFormed.contents_push (by rw [q.size_eq]; exact h) task

theorem take_eq_none {q : TaskQueue} : q.take = none ↔ q.contents = [] := by
  unfold take
  rw [← List.length_eq_zero_iff, ← count_eq]
  by_cases h : 0 < q.count
  · simp [h]
    omega
  · simp [h]
    omega

theorem contents_of_take {q q' : TaskQueue} {task : Ptr} (h : q.take = some (task, q')) :
    q.contents = task :: q'.contents := by
  unfold take at h
  by_cases hcount : 0 < q.count
  · rw [dif_pos hcount] at h
    cases h
    exact q.wellFormed.contents_pop hcount
  · rw [dif_neg hcount] at h
    cases h

theorem contents_removeAt (i : ℕ) : (q.removeAt i).contents = q.contents.eraseIdx i := by
  unfold removeAt
  split_ifs with h
  · exact q.wellFormed.contents_removeAt h
  · rw [List.eraseIdx_of_length_le]
    rw [← count_eq]
    omega

end TaskQueue

/-! ## The state -/

/-- `sleeping_task_t`, with its history: which call of `scheduler_sleep` it is, when that was and
for how long, and when the sleep was ended by other means. -/
structure Sleeper where
  task : Ptr
  wakeTime : UInt64
  sleep : ℕ
  start : UInt64
  milliseconds : UInt32
  endedAt : Option ℕ
deriving DecidableEq, Repr

/-- `waiting_parent_t`. -/
structure Waiter where
  parentId : UInt32
  childId : UInt32
  exitCodePtr : Option Ptr
  options : UInt32
deriving DecidableEq, Repr

/-- `cpu_state_t`. -/
structure Cpu where
  currentTask : Option Ptr
  isActive : Bool
  localQueue : TaskQueue

/-- A sleeping task was made ready, by the timer or by `scheduler_wake_task`. -/
structure Wake where
  entry : Sleeper
  byTimer : Bool
  tick : UInt64
  blockedSince : ℕ
deriving DecidableEq, Repr

/-- A ready task, its priority, and since when it has been ready at it. -/
structure Candidate where
  task : Ptr
  priority : ℕ
  since : ℕ
deriving DecidableEq, Repr

/-- A choice of `scheduler_schedule`, and the tasks that were ready. -/
structure Selection where
  chosen : Ptr
  ready : List Candidate
deriving DecidableEq, Repr

/-- What has happened, which is not in the source: the allocated tasks, the addresses freed, since
when tasks are ready or blocked, and the sleeps, wakes and choices. -/
structure History where
  live : List Ptr
  freed : List Ptr
  clock : ℕ
  readySince : Ptr → ℕ
  blockedSince : Ptr → ℕ
  sleeps : ℕ
  wakes : List Wake
  selections : List Selection

inductive Algorithm
  | roundRobin
  | priority
  | fairShare
  | edf
deriving DecidableEq, Repr

/-- The memory of tasks and of exit codes, and the variable `scheduler`. -/
structure Sched where
  tasks : Ptr → Task
  exitVars : Ptr → UInt32
  readyQueues : Fin maxPriority → TaskQueue
  sleepingTasks : List Sleeper
  waitingParents : List Waiter
  idleTask : Option Ptr
  preemptionEnabled : Bool
  schedulerTicks : UInt64
  nextTaskId : UInt32
  algorithm : Algorithm
  quantumMs : UInt32
  numCpus : ℕ
  cpuStates : Fin maxCpus → Cpu
  loadBalanceCounter : Int32
  history : History

namespace Sched

/-! ## Tasks -/

def currentCpu : Fin maxCpus := ⟨0, by decide⟩

variable (s : Sched)

def getCurrentTask : Option Ptr := (s.cpuStates currentCpu).currentTask

variable (task : Ptr)

def setTask (t : Task) : Sched :=
  { s with tasks := update s.tasks task t }

def setQueue (i : Fin maxPriority) (q : TaskQueue) : Sched :=
  { s with readyQueues := update s.readyQueues i q }

def setCpu (i : Fin maxCpus) (c : Cpu) : Sched :=
  { s with cpuStates := update s.cpuStates i c }

/-- The history notes a task that is ready, or at another priority, from now on. -/
def noteReady : Sched :=
  { s with history := { s.history with
      readySince := update s.history.readySince task s.history.clock
      clock := s.history.clock + 1 } }

def noteBlocked : Sched :=
  { s with history := { s.history with
      blockedSince :=
        if (s.tasks task).state = .blocked then s.history.blockedSince
        else update s.history.blockedSince task s.history.clock
      clock := s.history.clock + 1 } }

/-- The history notes that the sleeps of a task are over. -/
def endSleeps : Sched :=
  { s with
    sleepingTasks := s.sleepingTasks.map fun e =>
      if e.task = task ∧ e.endedAt = none then { e with endedAt := some s.history.clock } else e
    history := { s.history with clock := s.history.clock + 1 } }

def setState (state : TaskState) : Sched :=
  s.setTask task { s.tasks task with state := state }

/-- The assignment of `TASK_STATE_BLOCKED`. -/
def setBlocked : Sched := (s.noteBlocked task).setState task .blocked

/-- The queue for a priority, which is converted to an `int`. -/
def queueOf (priority : UInt32) : Fin maxPriority :=
  if 2 ^ 31 ≤ priority.toNat then ⟨0, by decide⟩
  else if h : priority.toNat < maxPriority then ⟨priority.toNat, h⟩
  else ⟨maxPriority - 1, by decide⟩

def addTask : Sched :=
  let i := queueOf (s.tasks task).priority
  s.setQueue i ((s.readyQueues i).add task)

/-- The assignment of `TASK_STATE_READY`, and `scheduler_add_task` after it. -/
def makeReady : Sched :=
  ((s.noteReady task).setState task .ready).addTask task

def readyTasks : List Ptr :=
  Pool.elements (List.finRange maxPriority) fun i => (s.readyQueues i).contents

def localTasks : List Ptr :=
  Pool.elements (List.finRange maxCpus) fun i => (s.cpuStates i).localQueue.contents

def cpus : List (Fin maxCpus) := (List.finRange maxCpus).filter fun i => i.val < s.numCpus

/-- Where `scheduler_find_task_by_id` looks: the current tasks of the CPUs, the ready queues, and
the sleeping tasks. -/
def places : List Ptr :=
  s.cpus.filterMap (fun i => (s.cpuStates i).currentTask) ++ s.readyTasks ++
    s.sleepingTasks.map Sleeper.task

variable (taskId : UInt32)

def findTaskById : Option Ptr :=
  s.places.find? fun task => (s.tasks task).id = taskId

/-- The first task looked for, in the first queue that has one, is taken out. -/
def removeFirst (queues : Fin maxPriority → TaskQueue) (hit : Ptr → Bool) :
    Fin maxPriority → TaskQueue :=
  match (List.finRange maxPriority).find? fun i => (queues i).contents.any hit with
  | none => queues
  | some i => update queues i ((queues i).removeAt ((queues i).contents.findIdx hit))

def removeTaskFromReadyQueue : Sched :=
  { s with readyQueues := removeFirst s.readyQueues fun task => (s.tasks task).id = taskId }

def getNextTask : Option Ptr × Sched :=
  match (List.finRange maxPriority).findSome? fun i =>
      ((s.readyQueues i).take).map fun (task, q) => (i, task, q) with
  | some (i, task, q) => (some task, s.setQueue i q)
  | none => (s.idleTask, s)

/-! ## Sleeping tasks -/

def wakeSleeper (e : Sleeper) (byTimer : Bool) : Sched :=
  if (s.tasks e.task).state = .blocked then
    { s with history := { s.history with
        wakes := ⟨e, byTimer, s.schedulerTicks, s.history.blockedSince e.task⟩ ::
          s.history.wakes } }.makeReady e.task
  else s

/-- The loop of `scheduler_check_sleeping_tasks`, and the entries it keeps. -/
def wakeDue (s : Sched) : List Sleeper → Sched × List Sleeper
  | [] => (s, [])
  | e :: es =>
    if e.wakeTime ≤ s.schedulerTicks then (s.wakeSleeper e true).wakeDue es
    else
      let (s, es) := s.wakeDue es
      (s, e :: es)

def checkSleepingTasks : Sched :=
  let (s, es) := s.wakeDue s.sleepingTasks
  { s with sleepingTasks := es }

/-- The place of an entry in the list, which is ordered by wake times. -/
def insertSleeper (e : Sleeper) (es : List Sleeper) : List Sleeper :=
  es.takeWhile (fun x => x.wakeTime ≤ e.wakeTime) ++
    e :: es.dropWhile fun x => x.wakeTime ≤ e.wakeTime

/-- `scheduler_add_sleeping_task`; `memory` is whether the entry can be allocated. -/
def addSleepingTask (milliseconds : UInt32) (memory : Bool) : Sched :=
  if memory then
    let wakeTime := s.schedulerTicks + milliseconds.toUInt64 / 10
    let e : Sleeper :=
      ⟨task, wakeTime, s.history.sleeps, s.schedulerTicks, milliseconds, none⟩
    let s := { s with
      sleepingTasks := insertSleeper e s.sleepingTasks
      history := { s.history with sleeps := s.history.sleeps + 1 } }
    s.setBlocked task
  else s

/-! ## Scheduling -/

/-- The loop of `scheduler_load_balance` over the CPUs: the CPUs with most and with fewest tasks,
and how many they have. -/
def findLoads : Fin maxCpus × Fin maxCpus × ℕ × ℕ :=
  (s.cpus.filter fun i => (s.cpuStates i).isActive).foldl
    (fun (maxCpu, minCpu, maxTasks, minTasks) i =>
      let cpuTasks := (s.cpuStates i).localQueue.count
      let (maxTasks, maxCpu) := if maxTasks < cpuTasks then (cpuTasks, i) else (maxTasks, maxCpu)
      let (minTasks, minCpu) := if cpuTasks < minTasks then (cpuTasks, i) else (minTasks, minCpu)
      (maxCpu, minCpu, maxTasks, minTasks))
    (currentCpu, currentCpu, 0, 2 ^ 31 - 1)

def setLocalQueue (i : Fin maxCpus) (q : TaskQueue) : Sched :=
  s.setCpu i { s.cpuStates i with localQueue := q }

def loadBalance : Sched :=
  if s.numCpus ≤ 1 then s
  else
    let (maxCpu, minCpu, mostTasks, fewestTasks) := s.findLoads
    if fewestTasks + 2 < mostTasks ∧ maxCpu ≠ minCpu then
      match (s.cpuStates maxCpu).localQueue.take with
      | none => s
      | some (task, q) =>
        let s := s.setLocalQueue maxCpu q
        if (s.cpuStates minCpu).localQueue.count < maxTasks then
          s.setLocalQueue minCpu ((s.cpuStates minCpu).localQueue.add task)
        else s.setLocalQueue maxCpu ((s.cpuStates maxCpu).localQueue.add task)
    else s

/-- The current task is put back into its queue if it runs. -/
def saveCurrentTask : Sched :=
  match s.getCurrentTask with
  | none => s
  | some task => if (s.tasks task).state = .running then s.makeReady task else s

def candidates : List Candidate :=
  ((s.idleTask.toList ++ s.history.live).filter fun p => (s.tasks p).state = .ready).map fun p =>
    ⟨p, min (s.tasks p).priority.toNat (maxPriority - 1), s.history.readySince p⟩

def noteSelection (chosen : Ptr) : Sched :=
  { s with history := { s.history with
      selections := ⟨chosen, s.candidates⟩ :: s.history.selections } }

def timeSliceOf (priority : UInt32) : Int32 :=
  match s.algorithm with
  | .roundRobin => (s.quantumMs / 10).toInt32
  | _ => (s.quantumMs / 10 + (31 - priority) * 2).toInt32

def runTask : Sched :=
  let t := s.tasks task
  let s := s.setTask task { t with state := .running, timeSlice := s.timeSliceOf t.priority }
  s.setCpu currentCpu { s.cpuStates currentCpu with currentTask := some task }

/-- The end of `scheduler_schedule`: the counter, and load balancing. -/
def countSchedule : Sched :=
  let s := { s with loadBalanceCounter := s.loadBalanceCounter + 1 }
  if 1 < s.numCpus ∧ 100 ≤ s.loadBalanceCounter then
    { s with loadBalanceCounter := 0 }.loadBalance
  else s

def schedule : Sched :=
  if ¬ s.preemptionEnabled then s
  else
    let s := s.saveCurrentTask.checkSleepingTasks
    match s.getNextTask with
    | (none, s) => s
    | (some task, s) => ((s.noteSelection task).runTask task).countSchedule

def tick : Sched :=
  let s := { s with schedulerTicks := s.schedulerTicks + 1 }
  if ¬ s.preemptionEnabled then s
  else
    match s.getCurrentTask with
    | none => s
    | some task =>
      let t := s.tasks task
      let s :=
        if 0 < t.timeSlice then s.setTask task { t with timeSlice := t.timeSlice - 1 } else s
      if (s.tasks task).timeSlice = 0 then s.schedule else s

def yield : Sched := if s.preemptionEnabled then s.schedule else s

/-! ## Blocking and waking -/

def blockCurrentTask : Sched :=
  match s.getCurrentTask with
  | none => s
  | some task => (s.setBlocked task).schedule

def unblock : Sched :=
  if (s.tasks task).state = .blocked then (s.endSleeps task).makeReady task else s

def unblockTask : Sched :=
  match s.findTaskById taskId with
  | none => s
  | some task => s.unblock task

def sleep (milliseconds : UInt32) (memory : Bool) : ℤ × Sched :=
  if milliseconds = 0 then (0, s.yield)
  else
    match s.getCurrentTask with
    | none => (-1, s)
    | some task => (0, (s.addSleepingTask task milliseconds memory).schedule)

/-- `scheduler_wake_task`. The other sleeps of a woken task are over as well. -/
def wakeTask : ℤ × Sched :=
  match s.sleepingTasks.find? fun e => (s.tasks e.task).id = taskId with
  | none => (-1, s)
  | some e =>
    let rest := s.sleepingTasks.eraseP fun e => (s.tasks e.task).id = taskId
    let t := { s with sleepingTasks := rest }
    let t := if (s.tasks e.task).state = .blocked then t.endSleeps e.task else t
    (0, t.wakeSleeper e false)

/-! ## Creating, waiting and terminating -/

/-- `scheduler_create_task`; `task` and `stack` are the answers of the heap. -/
def createTask (priority : UInt32) (task stack : Option Ptr) : ℤ × Sched :=
  match task with
  | none => (-1, s)
  | some task =>
    let id := s.nextTaskId
    let parentId := (s.getCurrentTask.map fun p => (s.tasks p).id).getD 0
    let s := { s with nextTaskId := id + 1 }
    match stack with
    | none => (-1, s.setTask task ⟨id, .ready, priority, 0, 0, 0, parentId⟩)
    | some stack =>
      let s := (s.noteReady task).setTask task ⟨id, .ready, priority, 0, stack, 0, parentId⟩
      let s := { s with history := { s.history with live := task :: s.history.live } }
      (id.toInt32.toInt, s.addTask task)

/-- `scheduler_add_waiting_parent`; `memory` is whether the entry can be allocated. -/
def addWaitingParent (w : Waiter) (memory : Bool) : Sched :=
  if memory then { s with waitingParents := w :: s.waitingParents } else s

/-- What a waiting parent is given: the exit code, and a place in a ready queue. -/
def deliver (w : Waiter) (exitCode : UInt32) : Sched :=
  let parent := s.findTaskById w.parentId
  let s :=
    match w.exitCodePtr with
    | none => s
    | some ptr => { s with exitVars := update s.exitVars ptr exitCode }
  match parent with
  | none => s
  | some task => s.unblock task

/-- The loop of `scheduler_check_waiting_parents`, and the entries it keeps. -/
def deliverAll (s : Sched) (taskId exitCode : UInt32) : List Waiter → Sched × List Waiter
  | [] => (s, [])
  | w :: ws =>
    if w.childId = taskId then (s.deliver w exitCode).deliverAll taskId exitCode ws
    else
      let (s, ws) := s.deliverAll taskId exitCode ws
      (s, w :: ws)

def checkWaitingParents (taskId exitCode : UInt32) : Sched :=
  let (s, ws) := s.deliverAll taskId exitCode s.waitingParents
  { s with waitingParents := ws }

def freeTask : Sched :=
  let stack := (s.tasks task).stack
  { s with history := { s.history with
      live := s.history.live.erase task
      freed := task :: (if stack ≠ 0 then [stack] else []) ++ s.history.freed } }

/-- `scheduler_waitpid`. The option `WNOHANG` is the bit 0. -/
def waitpid (exitCode : Option Ptr) (options : UInt32) (memory : Bool) : ℤ × Sched :=
  match s.getCurrentTask with
  | none => (-1, s)
  | some current =>
    match s.findTaskById taskId with
    | none => (-1, s)
    | some child =>
      if (s.tasks child).parentId ≠ (s.tasks current).id then (-2, s)
      else if (s.tasks child).state = .zombie then
        let s :=
          match exitCode with
          | none => s
          | some ptr =>
            { s with exitVars := update s.exitVars ptr (s.tasks child).exitCode }
        (taskId.toInt32.toInt, s.freeTask child)
      else if options &&& 1 ≠ 0 then (0, s)
      else
        let s := s.addWaitingParent ⟨(s.tasks current).id, taskId, exitCode, options⟩ memory
        (taskId.toInt32.toInt, (s.setBlocked current).schedule)

def setTaskPriority (taskId priority : UInt32) : ℤ × Sched :=
  let priority := if maxPriority ≤ priority.toNat then 31 else priority
  match s.findTaskById taskId with
  | none => (-1, s)
  | some task =>
    let t := s.tasks task
    let s :=
      if min t.priority.toNat (maxPriority - 1) = priority.toNat then s else s.noteReady task
    (0, s.setTask task { t with priority := priority })

def terminateTask (taskId exitCode : UInt32) : ℤ × Sched :=
  match s.findTaskById taskId with
  | none => (-1, s)
  | some task =>
    let s := (s.endSleeps task).setTask task
      { s.tasks task with state := .zombie, exitCode := exitCode }
    let s := (s.removeTaskFromReadyQueue taskId).checkWaitingParents taskId exitCode
    if s.getCurrentTask.any fun p => (s.tasks p).id = taskId then (0, s.schedule) else (0, s)

def migrateTask (cpuId : ℤ) : ℤ × Sched :=
  if h : cpuId < 0 ∨ s.numCpus ≤ cpuId ∨ maxCpus ≤ cpuId then (-1, s)
  else
    let cpu : Fin maxCpus := ⟨cpuId.toNat, by omega⟩
    if ¬ (s.cpuStates cpu).isActive then (-1, s)
    else
      match s.findTaskById taskId with
      | none => (-2, s)
      | some task =>
        let s := s.removeTaskFromReadyQueue taskId
        if (s.cpuStates cpu).localQueue.count < maxTasks then
          (0, s.setLocalQueue cpu ((s.cpuStates cpu).localQueue.add task))
        else (-3, s.addTask task)

/-! ## Initialisation and settings -/

/-- `scheduler_init`; `tasks` and `exitVars` are what is in memory. -/
def init (tasks : Ptr → Task) (exitVars : Ptr → UInt32) : Sched where
  tasks := tasks
  exitVars := exitVars
  readyQueues := fun _ => .empty
  sleepingTasks := []
  waitingParents := []
  idleTask := none
  preemptionEnabled := false
  schedulerTicks := 0
  nextTaskId := 1
  algorithm := .priority
  quantumMs := 10
  numCpus := 1
  cpuStates := fun i => ⟨none, i = currentCpu, .empty⟩
  loadBalanceCounter := 0
  history := ⟨[], [], 0, fun _ => 0, fun _ => 0, 0, [], []⟩

def initSmp (numCpus : ℤ) : Sched :=
  let n := if numCpus ≤ 0 then 1 else if (maxCpus : ℤ) < numCpus then maxCpus else numCpus.toNat
  { s with
    numCpus := n
    cpuStates := fun i => if i.val < n then ⟨none, true, .empty⟩ else s.cpuStates i }

def registerIdleTask (idleTask : Ptr) : Sched :=
  ({ s with idleTask := some idleTask }.noteReady idleTask).setTask idleTask
    { s.tasks idleTask with state := .ready, priority := 31 }

/-- `scheduler_enable_preemption` and `scheduler_disable_preemption`. -/
def setPreemption (enabled : Bool) : Sched := { s with preemptionEnabled := enabled }

/-- `scheduler_set_algorithm`, with a number that it accepts. -/
def setAlgorithm (algorithm : Algorithm) : Sched := { s with algorithm := algorithm }

def setQuantum (quantumMs : UInt32) : Sched := { s with quantumMs := quantumMs }

end Sched

/-! ## Runs -/

inductive Op
  | create (priority : UInt32) (task stack : Option Ptr)
  | schedule
  | tick
  | yield
  | block
  | unblock (taskId : UInt32)
  | sleep (milliseconds : UInt32) (memory : Bool)
  | wake (taskId : UInt32)
  | waitpid (taskId : UInt32) (exitCode : Option Ptr) (options : UInt32) (memory : Bool)
  | setPriority (taskId priority : UInt32)
  | migrate (taskId : UInt32) (cpuId : ℤ)
  | terminate (taskId exitCode : UInt32)
  | initSmp (numCpus : ℤ)
  | registerIdle (task : Ptr)
  | setPreemption (enabled : Bool)
  | setAlgorithm (algorithm : Algorithm)
  | setQuantum (quantumMs : UInt32)
deriving DecidableEq, Repr

def Op.call (s : Sched) : Op → ℤ × Sched
  | .create priority task stack => s.createTask priority task stack
  | .schedule => (0, s.schedule)
  | .tick => (0, s.tick)
  | .yield => (0, s.yield)
  | .block => (0, s.blockCurrentTask)
  | .unblock taskId => (0, s.unblockTask taskId)
  | .sleep milliseconds memory => s.sleep milliseconds memory
  | .wake taskId => s.wakeTask taskId
  | .waitpid taskId exitCode options memory => s.waitpid taskId exitCode options memory
  | .setPriority taskId priority => s.setTaskPriority taskId priority
  | .migrate taskId cpuId => s.migrateTask taskId cpuId
  | .terminate taskId exitCode => s.terminateTask taskId exitCode
  | .initSmp numCpus => (0, s.initSmp numCpus)
  | .registerIdle task => (0, s.registerIdleTask task)
  | .setPreemption enabled => (0, s.setPreemption enabled)
  | .setAlgorithm algorithm => (0, s.setAlgorithm algorithm)
  | .setQuantum quantumMs => (0, s.setQuantum quantumMs)

def step (s : Sched) (op : Op) : Option Sched := some (op.call s).2

/-- The calls tasks make once the scheduler is set up. -/
def Op.IsTaskCall : Op → Prop
  | .initSmp _ | .registerIdle _ | .setPreemption _ | .setAlgorithm _ | .setQuantum _ => False
  | _ => True

/-- The state after `scheduler_init`, `scheduler_init_smp`, the registration of an idle task and
`scheduler_enable_preemption`. -/
def start (tasks : Ptr → Task) (exitVars : Ptr → UInt32) (numCpus : ℤ) (idleTask : Ptr) : Sched :=
  (((Sched.init tasks exitVars).initSmp numCpus).registerIdleTask idleTask).setPreemption true

end UintOS.Scheduler
