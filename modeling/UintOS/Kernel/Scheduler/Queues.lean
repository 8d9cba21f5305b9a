import UintOS.Kernel.Scheduler.Model

/-!
# What is in the queues

The effect of the functions on the ready queues and on the queues of the CPUs, up to the order
of the tasks in them.
-/

namespace UintOS.Scheduler.Sched

open Function List

variable {s : Sched} {p : Ptr} {q : TaskQueue} {i : Fin maxCpus}

def queued (s : Sched) : List Ptr := s.readyTasks ++ s.localTasks

theorem mem_readyTasks : p ∈ s.readyTasks ↔ ∃ i, p ∈ (s.readyQueues i).contents := by
  unfold readyTasks
  rw [Pool.mem_elements]
  simp

theorem mem_localTasks : p ∈ s.localTasks ↔ ∃ i, p ∈ (s.cpuStates i).localQueue.contents := by
  unfold localTasks
  rw [Pool.mem_elements]
  simp

theorem mem_queued : p ∈ s.queued ↔ p ∈ s.readyTasks ∨ p ∈ s.localTasks := mem_append

/-! ## Ready queues -/

theorem readyTasks_setQueue (s : Sched) (i : Fin maxPriority) (q : TaskQueue) :
    (s.setQueue i q).readyTasks = Pool.elements (List.finRange maxPriority)
      (update (fun j => (s.readyQueues j).contents) i q.contents) := by
  unfold readyTasks setQueue
  congr 1
  exact comp_update TaskQueue.contents s.readyQueues i q

theorem readyTasks_perm_cons {i : Fin maxPriority}
    (h : (s.readyQueues i).contents.Perm (p :: q.contents)) :
    s.readyTasks.Perm (p :: (s.setQueue i q).readyTasks) := by
  rw [readyTasks_setQueue]
  exact Pool.elements_perm_cons (nodup_finRange _) (mem_finRange i) h

theorem readyTasks_addTask (h : (s.readyQueues (queueOf (s.tasks p).priority)).count < maxTasks) :
    (s.addTask p).readyTasks.Perm (p :: s.readyTasks) := by
  let i := queueOf (s.tasks p).priority
  let q := (s.readyQueues i).add p
  have hq : q.contents.Perm (p :: (s.readyQueues i).contents) := by
    rw [TaskQueue.contents_add h]
    exact perm_append_singleton p _
  have hback : (s.setQueue i q).setQueue i (s.readyQueues i) = s := by
    unfold setQueue
    rw [update_idem, update_eq_self]
  have hperm : (s.setQueue i q).readyTasks.Perm
      (p :: ((s.setQueue i q).setQueue i (s.readyQueues i)).readyTasks) := by
    apply readyTasks_perm_cons
    change (update s.readyQueues i q i).contents.Perm _
    rw [update_self]
    exact hq
  rw [hback] at hperm
  exact hperm

theorem count_le_readyTasks (i : Fin maxPriority) :
    (s.readyQueues i).count ≤ s.readyTasks.length := by
  rw [TaskQueue.count_eq]
  exact @Pool.length_le_elements _ _ _ (fun j => (s.readyQueues j).contents) i (mem_finRange i)

theorem getNextTask_cases (s : Sched) : (∃ i p q, (s.readyQueues i).contents = p :: q.contents ∧
      (∀ j < i, (s.readyQueues j).contents = []) ∧ s.getNextTask = (some p, s.setQueue i q)) ∨
    (s.readyTasks = [] ∧ s.getNextTask = (s.idleTask, s)) := by
  unfold getNextTask
  generalize hfind : List.findSome? _ (List.finRange maxPriority) = found
  cases found with
  | none =>
    right
    refine ⟨?_, rfl⟩
    rw [findSome?_eq_none_iff] at hfind
    apply eq_nil_iff_forall_not_mem.mpr
    intro p hp
    obtain ⟨i, hi⟩ := mem_readyTasks.mp hp
    have hnone := hfind i (mem_finRange i)
    rw [Option.map_eq_none_iff, TaskQueue.take_eq_none] at hnone
    rw [hnone] at hi
    cases hi
  | some x =>
    obtain ⟨i, p, q⟩ := x
    left
    obtain ⟨before, j, after, hsplit, hj, hbef⟩ := findSome?_eq_some_iff.mp hfind
    obtain ⟨⟨p', q'⟩, htake, heq⟩ := Option.map_eq_some_iff.mp hj
    cases heq
    refine ⟨i, p, q, TaskQueue.contents_of_take htake, ?_, rfl⟩
    intro k hk
    have hsorted : (before ++ i :: after).Pairwise (· < ·) := hsplit ▸ pairwise_lt_finRange _
    have hmem : k ∈ before ++ i :: after := hsplit ▸ mem_finRange k
    have hkbefore : k ∈ before := by
      rcases mem_append.mp hmem with hmem | hmem
      · exact hmem
      · rcases mem_cons.mp hmem with rfl | hmem
        · exact absurd hk (lt_irrefl _)
        · have hlt := (pairwise_cons.mp (pairwise_append.mp hsorted).2.1).1 k hmem
          exact absurd hk (lt_asymm hlt)
    have hnone := hbef k hkbefore
    rwa [Option.map_eq_none_iff, TaskQueue.take_eq_none] at hnone

theorem removeTaskFromReadyQueue_cases (s : Sched) (taskId : UInt32) :
    (∃ i p l l', (s.tasks p).id = taskId ∧ (s.readyQueues i).contents = l ++ p :: l' ∧
      ∃ q : TaskQueue, q.contents = l ++ l' ∧ s.removeTaskFromReadyQueue taskId = s.setQueue i q) ∨
    ((∀ p ∈ s.readyTasks, (s.tasks p).id ≠ taskId) ∧ s.removeTaskFromReadyQueue taskId = s) := by
  unfold removeTaskFromReadyQueue removeFirst
  cases hfind : (List.finRange maxPriority).find? fun i =>
      (s.readyQueues i).contents.any fun task => (s.tasks task).id = taskId with
  | none =>
    right
    refine ⟨?_, rfl⟩
    intro p hp hid
    obtain ⟨i, hi⟩ := mem_readyTasks.mp hp
    have hnone := find?_eq_none.mp hfind i (mem_finRange i)
    simp only [any_eq_true, not_exists, not_and, decide_eq_true_eq] at hnone
    exact hnone p hi hid
  | some i =>
    left
    have hany := find?_some hfind
    obtain ⟨p, hp, hid⟩ := any_eq_true.mp hany
    let hit (task : Ptr) : Bool := (s.tasks task).id = taskId
    let l := (s.readyQueues i).contents
    have hlt : l.findIdx hit < l.length := findIdx_lt_length_of_exists ⟨p, hp, hid⟩
    have hsplit : l = l.take (l.findIdx hit) ++ l[l.findIdx hit] :: l.drop (l.findIdx hit + 1) := by
      rw [← drop_eq_getElem_cons hlt, take_append_drop]
    have hhit : hit l[l.findIdx hit] = true := findIdx_getElem
    refine ⟨i, l[l.findIdx hit], _, _, of_decide_eq_true hhit, hsplit, _, ?_, rfl⟩
    rw [TaskQueue.contents_removeAt, eraseIdx_eq_take_drop_succ]

/-! ## Queues of the CPUs -/

theorem localTasks_setLocalQueue (s : Sched) (i : Fin maxCpus) (q : TaskQueue) :
    (s.setLocalQueue i q).localTasks = Pool.elements (List.finRange maxCpus)
      (update (fun j => (s.cpuStates j).localQueue.contents) i q.contents) := by
  unfold localTasks setLocalQueue setCpu
  congr 1
  exact comp_update (fun c : Cpu => c.localQueue.contents) s.cpuStates i _

theorem localTasks_perm_cons (h : (s.cpuStates i).localQueue.contents.Perm (p :: q.contents)) :
    s.localTasks.Perm (p :: (s.setLocalQueue i q).localTasks) := by
  rw [localTasks_setLocalQueue]
  exact Pool.elements_perm_cons (nodup_finRange _) (mem_finRange i) h

theorem localTasks_add (h : (s.cpuStates i).localQueue.count < maxTasks) (p : Ptr) :
    (s.setLocalQueue i ((s.cpuStates i).localQueue.add p)).localTasks.Perm (p :: s.localTasks) := by
  let q := (s.cpuStates i).localQueue.add p
  have hq : q.contents.Perm (p :: (s.cpuStates i).localQueue.contents) := by
    rw [TaskQueue.contents_add h]
    exact perm_append_singleton p _
  have hback : (s.setLocalQueue i q).setLocalQueue i (s.cpuStates i).localQueue = s := by
    unfold setLocalQueue setCpu
    dsimp only
    rw [update_self, update_idem, update_eq_self]
  have hperm : (s.setLocalQueue i q).localTasks.Perm
      (p :: ((s.setLocalQueue i q).setLocalQueue i (s.cpuStates i).localQueue).localTasks) := by
    apply localTasks_perm_cons
    change (update s.cpuStates i _ i).localQueue.contents.Perm _
    rw [update_self]
    exact hq
  rw [hback] at hperm
  exact hperm

/-- A state that differs from another one only in the queues of the CPUs and the counter, with the
same tasks in these queues. -/
structure Balanced (s t : Sched) : Prop where
  eq : t = { s with cpuStates := t.cpuStates, loadBalanceCounter := t.loadBalanceCounter }
  current : ∀ i, (t.cpuStates i).currentTask = (s.cpuStates i).currentTask
  localTasks : t.localTasks.Perm s.localTasks

theorem Balanced.refl (s : Sched) : Balanced s s := ⟨rfl, fun _ => rfl, List.Perm.refl _⟩

theorem currentTask_setLocalQueue (s : Sched) (i j : Fin maxCpus) (q : TaskQueue) :
    ((s.setLocalQueue i q).cpuStates j).currentTask = (s.cpuStates j).currentTask := by
  change (update s.cpuStates i _ j).currentTask = _
  by_cases hij : j = i
  · subst hij
    rw [update_self]
  · rw [update_of_ne hij]

theorem balanced_move {j : Fin maxCpus} (htake : (s.cpuStates i).localQueue.take = some (p, q))
    (hroom : ((s.setLocalQueue i q).cpuStates j).localQueue.count < maxTasks) :
    Balanced s ((s.setLocalQueue i q).setLocalQueue j
      (((s.setLocalQueue i q).cpuStates j).localQueue.add p)) := by
  refine ⟨rfl, ?_, ?_⟩
  · intro k
    rw [currentTask_setLocalQueue, currentTask_setLocalQueue]
  · apply (localTasks_add hroom p).trans
    apply List.Perm.symm
    apply localTasks_perm_cons
    rw [TaskQueue.contents_of_take htake]

theorem balanced_loadBalance (s : Sched) : Balanced s s.loadBalance := by
  unfold loadBalance
  split_ifs with hcpus
  · exact Balanced.refl s
  obtain ⟨i, j, most, fewest⟩ := s.findLoads
  dsimp only
  split_ifs with hloads
  · cases htake : (s.cpuStates i).localQueue.take with
    | none => exact Balanced.refl s
    | some x =>
      obtain ⟨task, q⟩ := x
      dsimp only
      split_ifs with hroom
      · exact balanced_move htake hroom
      · -- the queue has just lost a task
        apply balanced_move htake
        change (update s.cpuStates i _ i).localQueue.count < maxTasks
        rw [update_self]
        change q.count < maxTasks
        have hcont := TaskQueue.contents_of_take htake
        have hcount := (s.cpuStates i).localQueue.wellFormed.count_le
        rw [(s.cpuStates i).localQueue.size_eq] at hcount
        change (s.cpuStates i).localQueue.count ≤ maxTasks at hcount
        rw [TaskQueue.count_eq, hcont, length_cons] at hcount
        rw [TaskQueue.count_eq]
        omega
  · exact Balanced.refl s

theorem balanced_countSchedule (s : Sched) : Balanced s s.countSchedule := by
  unfold countSchedule
  by_cases h : 1 < s.numCpus ∧ 100 ≤ s.loadBalanceCounter + 1
  · rw [if_pos h]
    obtain ⟨heq, hcur, hlocal⟩ := balanced_loadBalance { s with loadBalanceCounter := 0 }
    refine ⟨?_, hcur, hlocal⟩
    rw [heq]
  · rw [if_neg h]
    exact ⟨rfl, fun _ => rfl, List.Perm.refl _⟩

end UintOS.Scheduler.Sched
