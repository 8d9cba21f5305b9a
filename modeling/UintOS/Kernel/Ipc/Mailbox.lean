import UintOS.Library.RingBuffer
import UintOS.Library.Runs

/-!
# Messages between tasks

`ipc_send_message`, `ipc_receive_message`, `ipc_peek_message` and `ipc_flush_messages` of `ipc.c`,
each critical section as one step. Every task has a queue, a ring buffer of pointers to messages. A
queued message is reached by its one pointer only, so a cell holds the message itself, or nothing
where the pointer is `NULL`. The bytes at `data` and those of the new block are part of the request.

A queue is the list of messages sent and not yet received, but a sender that gives a size and no
data sends the bytes of the block.
-/

namespace UintOS.Ipc

open Function List Runs

/-- `MAX_TASKS`, `MAX_MESSAGES_PER_QUEUE` and `MAX_MESSAGE_SIZE`. -/
abbrev maxTasks : ℕ := 256
abbrev maxMessagesPerQueue : ℕ := 32
abbrev maxMessageSize : ℕ := 256

inductive Result
  | success
  | invalidParam
  | noMemory
  | queueFull
  | noMessage
deriving DecidableEq, Repr

abbrev Task := Fin maxTasks

structure Message where
  sender : Task
  type : Int32
  flags : Int32
  size : ℤ
  data : ℕ → UInt8

/-- What a receiver gets of a message: `size` bytes of the data. -/
structure Delivery where
  sender : Task
  type : Int32
  flags : Int32
  size : ℤ
  bytes : List UInt8
deriving DecidableEq, Repr

def Message.deliver (m : Message) : Delivery where
  sender := m.sender
  type := m.type
  flags := m.flags
  size := m.size
  bytes := (List.range m.size.toNat).map m.data

structure Request where
  sender : Task
  type : Int32
  data : Option (ℕ → UInt8)
  size : ℤ
  flags : Int32

def Request.message (r : Request) (block : ℕ → UInt8) : Message where
  sender := r.sender
  type := r.type
  flags := r.flags
  size := r.size
  data :=
    match r.data with
    | some data => if 0 < r.size then fun i => if i < r.size then data i else block i else block
    | none => block

abbrev Queue := RingBuffer (Option Message)

def Queue.init : Queue := ⟨fun _ => none, maxMessagesPerQueue, 0, 0, 0⟩

variable (q : Queue)

/-- The critical section of `ipc_send_message`. -/
def enqueue (m : Message) : Result × Queue :=
  if q.count ≥ maxMessagesPerQueue then (.queueFull, q) else (.success, q.push (some m))

def checkTask (taskId : ℤ) : Option Task :=
  if h : 0 ≤ taskId ∧ taskId < maxTasks then some ⟨taskId.toNat, by omega⟩ else none

/-- The queues, and what has happened: the messages each task has received, the requests for it that
succeeded and were not flushed, and what its last peek returned, if not received or flushed since.
-/
structure System where
  queues : Task → Queue
  received : Task → List Delivery
  sent : Task → List Request
  peeked : Task → Option Delivery

/-- `ipc_init`. -/
def System.init : System := ⟨fun _ => Queue.init, fun _ => [], fun _ => [], fun _ => none⟩

variable (s : System)

/-- `ipc_send_message`. The block is missing when there is no memory. -/
def sendMessage (toTaskId : ℤ) (r : Request) (block : Option (ℕ → UInt8)) : Result × System :=
  match checkTask toTaskId with
  | none => (.invalidParam, s)
  | some t =>
    if r.size < 0 ∨ maxMessageSize < r.size then (.invalidParam, s)
    else
      match block with
      | none => (.noMemory, s)
      | some bytes =>
        match enqueue (s.queues t) (r.message bytes) with
        | (.success, q) =>
          (.success, { s with
            queues := update s.queues t q
            sent := update s.sent t (s.sent t ++ [r]) })
        | (e, _) => (e, s)

/-- The critical section of `ipc_receive_message`, from where a message is there. A null pointer at
the front has no message behind it. -/
def dequeue : Option (Message × Queue) :=
  (q.cells q.start).map fun m => (m, q.take none)

def nowait (flags : Int32) : Bool := flags &&& 1 != 0

/-- A critical section of `ipc_receive_message`, with or without a buffer. Without a message the
call returns, or tries again later and has no result yet. -/
def receiveMessage (t : Task) (buffer : Bool) (flags : Int32) :
    Option (Option (Result × Option Delivery) × System) :=
  if !buffer then some (some (.invalidParam, none), s)
  else if (s.queues t).count = 0 then
    if nowait flags then some (some (.noMessage, none), s) else some (none, s)
  else
    match dequeue (s.queues t) with
    | none => none
    | some (m, q) =>
      some (some (.success, some m.deliver), { s with
        queues := update s.queues t q
        received := update s.received t (s.received t ++ [m.deliver])
        peeked := update s.peeked t none })

def peekMessage (t : Task) (buffer : Bool) : Option ((Result × Option Delivery) × System) :=
  if !buffer then some ((.invalidParam, none), s)
  else if (s.queues t).count = 0 then some ((.noMessage, none), s)
  else
    match dequeue (s.queues t) with
    | none => none
    | some (m, _) =>
      some ((.success, some m.deliver), { s with
        peeked := update s.peeked t (some m.deliver) })

/-- One round of the loop of `ipc_flush_messages`. -/
def flushCell (cells : (ℕ → Option Message) × ℕ) (i : ℕ) : (ℕ → Option Message) × ℕ :=
  let index := (q.start + i) % maxMessagesPerQueue
  match cells.1 index with
  | some _ => (update cells.1 index none, cells.2 + 1)
  | none => cells

/-- The critical section of `ipc_flush_messages`, with how many messages it freed. -/
def flushQueue : ℕ × Queue :=
  let cells := (List.range q.count).foldl (flushCell q) (q.cells, 0)
  (cells.2, { q with cells := cells.1, start := 0, stop := 0, count := 0 })

def flushMessages (current : Task) (taskId : ℤ) : Except Result ℕ × System :=
  match checkTask (if taskId = -1 then current else taskId) with
  | none => (.error .invalidParam, s)
  | some t =>
    (.ok (flushQueue (s.queues t)).1, { s with
      queues := update s.queues t (flushQueue (s.queues t)).2
      sent := update s.sent t ((s.sent t).take (s.received t).length)
      peeked := update s.peeked t none })

inductive Action
  | send (toTaskId : ℤ) (request : Request) (block : Option (ℕ → UInt8))
  | receive (task : Task) (buffer : Bool) (flags : Int32)
  | peek (task : Task) (buffer : Bool)
  | flush (current : Task) (taskId : ℤ)

def step : Action → Option System
  | .send toTaskId request block => some (sendMessage s toTaskId request block).2
  | .receive task buffer flags => (receiveMessage s task buffer flags).map Prod.snd
  | .peek task buffer => (peekMessage s task buffer).map Prod.snd
  | .flush current taskId => some (flushMessages s current taskId).2

/-! ## Channels -/

def pending : List Delivery := (q.contents.filterMap id).map Message.deliver

/-- What the receiver should get, when the bytes are a function of the request. -/
def Request.expected (bytes : Request → List UInt8) (r : Request) : Delivery :=
  ⟨r.sender, r.type, r.flags, r.size, bytes r⟩

/-- The queues are channels that deliver what was sent, in order. -/
structure Fifo (bytes : Request → List UInt8) (s : System) : Prop where
  order : ∀ t, s.received t ++ pending (s.queues t) = (s.sent t).map (Request.expected bytes)
  bound : ∀ t, (pending (s.queues t)).length = (s.queues t).count ∧
    (s.queues t).count ≤ maxMessagesPerQueue
  full : ∀ toTaskId t r block, checkTask toTaskId = some t →
    (s.queues t).count = maxMessagesPerQueue →
    (sendMessage s toTaskId r block).1 ≠ .success ∧ (sendMessage s toTaskId r block).2 = s
  peek : ∀ t d, s.peeked t = some d → ∀ flags, ∃ u,
    receiveMessage s t true flags = some (some (.success, some d), u)

def Request.given (r : Request) : List UInt8 :=
  match r.data with
  | some data => (List.range r.size.toNat).map data
  | none => []

/-- A send without data has a size of zero, or one that is refused. -/
def Provided : Action → Prop
  | .send _ r _ => r.data = none → r.size ≤ 0 ∨ maxMessageSize < r.size
  | _ => True

theorem deliver_message {r : Request} (hdata : r.data = none → r.size ≤ 0) (block : ℕ → UInt8) :
    (r.message block).deliver = r.expected Request.given := by
  simp only [Request.message, Message.deliver, Request.expected, Request.given, Delivery.mk.injEq,
    true_and]
  cases hr : r.data with
  | none =>
    have hsize : r.size.toNat = 0 := by
      have hle := hdata hr
      omega
    simp [hsize]
  | some data =>
    apply map_congr_left
    intro i hi
    have hlt : (i : ℤ) < r.size := by
      have hi := mem_range.mp hi
      omega
    have hpos : 0 < r.size := by omega
    simp only [if_pos hpos, if_pos hlt]

/-! ## One queue -/

structure QueueOk (q : Queue) : Prop where
  size : q.size = maxMessagesPerQueue
  wellFormed : q.WellFormed
  messages : ∀ x ∈ q.contents, x ≠ none

section Queue

variable {q : Queue}

theorem queueOk_empty {q : Queue} (hsize : q.size = maxMessagesPerQueue) (hstart : q.start = 0)
    (hstop : q.stop = 0) (hcount : q.count = 0) : QueueOk q where
  size := hsize
  wellFormed := RingBuffer.wellFormed_empty (by rw [hsize]; decide) hstart hstop hcount
  messages := by simp [RingBuffer.contents, hcount]

theorem pending_of_count_eq_zero (h : q.count = 0) : pending q = [] := by
  simp [pending, RingBuffer.contents, h]

theorem QueueOk.length_pending (h : QueueOk q) : (pending q).length = q.count := by
  rw [pending, length_map, length_filterMap_eq_countP, countP_eq_length.mpr,
    RingBuffer.length_contents]
  intro x hx
  exact Option.isSome_iff_ne_none.mpr (h.messages x hx)

theorem QueueOk.enqueue_full (hfull : q.count = maxMessagesPerQueue) (m : Message) :
    enqueue q m = (.queueFull, q) :=
  if_pos (ge_of_eq hfull)

theorem QueueOk.enqueue (h : QueueOk q) (m : Message) (hroom : q.count ≠ maxMessagesPerQueue) :
    Ipc.enqueue q m = (.success, q.push (some m)) ∧ QueueOk (q.push (some m)) ∧
      pending (q.push (some m)) = pending q ++ [m.deliver] := by
  have hle := h.wellFormed.count_le
  have hlt : q.count < q.size := by
    have hsize := h.size
    omega
  have hcont := h.wellFormed.contents_push hlt (some m)
  refine ⟨if_neg ?_, ⟨h.size, h.wellFormed.push hlt _, ?_⟩, ?_⟩
  · have hsize := h.size
    omega
  · intro x hx
    rw [hcont, mem_append, mem_singleton] at hx
    rcases hx with hold | rfl
    · exact h.messages x hold
    · exact Option.some_ne_none m
  · simp [pending, hcont]

theorem QueueOk.dequeue (h : QueueOk q) (hcount : q.count ≠ 0) :
    ∃ m, dequeue q = some (m, q.take none) ∧ QueueOk (q.take none) ∧
      pending q = m.deliver :: pending (q.take none) := by
  have hpos : 0 < q.count := Nat.pos_of_ne_zero hcount
  have hcont := h.wellFormed.contents_take hpos none
  have hmem : ∀ x ∈ q.cells q.start :: (q.take none).contents, x ≠ none := hcont ▸ h.messages
  obtain ⟨m, hm⟩ := Option.ne_none_iff_exists'.mp (hmem _ mem_cons_self)
  refine ⟨m, ?_, ⟨h.size, h.wellFormed.take hpos none, ?_⟩, ?_⟩
  · simp [Ipc.dequeue, hm]
  · intro x hx
    exact hmem x (mem_cons_of_mem _ hx)
  · simp [pending, hcont, hm]

theorem QueueOk.flush (h : QueueOk q) : QueueOk (flushQueue q).2 ∧ pending (flushQueue q).2 = [] :=
  ⟨queueOk_empty h.size rfl rfl rfl, pending_of_count_eq_zero rfl⟩

end Queue

/-! ## The system -/

structure Inv (s : System) : Prop where
  queues : ∀ t, QueueOk (s.queues t)
  order : ∀ t, s.received t ++ pending (s.queues t) =
    (s.sent t).map (Request.expected Request.given)
  peeked : ∀ t d, s.peeked t = some d → (pending (s.queues t)).head? = some d

theorem inv_init : Inv System.init := by
  refine ⟨fun _ => queueOk_empty rfl rfl rfl rfl, fun _ => rfl, ?_⟩
  intro t d h
  cases h

theorem Inv.update {s : System} (h : Inv s) (t : Task) {q : Queue} (received : List Delivery)
    (sent : List Request) (peeked : Option Delivery) (hq : QueueOk q)
    (horder : received ++ pending q = sent.map (Request.expected Request.given))
    (hpeeked : ∀ d, peeked = some d → (pending q).head? = some d) :
    Inv ⟨update s.queues t q, update s.received t received,
      update s.sent t sent, update s.peeked t peeked⟩ := by
  constructor
  · intro u
    by_cases hu : u = t
    · simp only [hu, update_self]
      exact hq
    · simp only [update_of_ne hu]
      exact h.queues u
  · intro u
    by_cases hu : u = t
    · simp only [hu, update_self]
      exact horder
    · simp only [update_of_ne hu]
      exact h.order u
  · intro u d
    by_cases hu : u = t
    · simp only [hu, update_self]
      exact hpeeked d
    · simp only [update_of_ne hu]
      exact h.peeked u d

section Operations

variable {s : System}

theorem Inv.sendMessage (h : Inv s) {toTaskId : ℤ} {r : Request} {block : Option (ℕ → UInt8)}
    (hprovided : Provided (.send toTaskId r block)) : Inv (sendMessage s toTaskId r block).2 := by
  unfold Ipc.sendMessage
  split
  · exact h
  · rename_i t _
    split
    · exact h
    · rename_i hsize
      split
      · exact h
      · rename_i bytes
        by_cases hfull : (s.queues t).count = maxMessagesPerQueue
        · rw [QueueOk.enqueue_full hfull]
          exact h
        · obtain ⟨heq, hok, hpend⟩ := (h.queues t).enqueue (r.message bytes) hfull
          rw [heq]
          have hdata : r.data = none → r.size ≤ 0 := by
            intro hnone
            exact (hprovided hnone).resolve_right (not_or.mp hsize).2
          have hinv := h.update t (s.received t) (s.sent t ++ [r]) (s.peeked t) hok ?_ ?_
          · simpa only [update_eq_self] using hinv
          · rw [hpend, ← append_assoc, h.order t, map_append, deliver_message hdata]
            rfl
          · intro d hd
            rw [hpend, head?_append, h.peeked t d hd]
            rfl

theorem Inv.receiveMessage (h : Inv s) (t : Task) (buffer : Bool) (flags : Int32) :
    ∃ result u, receiveMessage s t buffer flags = some (result, u) ∧ Inv u := by
  unfold Ipc.receiveMessage
  split
  · exact ⟨_, _, rfl, h⟩
  · split
    · split
      · exact ⟨_, _, rfl, h⟩
      · exact ⟨_, _, rfl, h⟩
    · rename_i hcount
      obtain ⟨m, heq, hok, hpend⟩ := (h.queues t).dequeue hcount
      rw [heq]
      refine ⟨_, _, rfl, ?_⟩
      have hinv := h.update t (s.received t ++ [m.deliver]) (s.sent t) none hok ?_ ?_
      · simpa only [update_eq_self] using hinv
      · rw [← h.order t, hpend, append_assoc, singleton_append]
      · intro d hd
        cases hd

theorem Inv.peekMessage (h : Inv s) (t : Task) (buffer : Bool) :
    ∃ result u, peekMessage s t buffer = some (result, u) ∧ Inv u := by
  unfold Ipc.peekMessage
  split
  · exact ⟨_, _, rfl, h⟩
  · split
    · exact ⟨_, _, rfl, h⟩
    · rename_i hcount
      obtain ⟨m, heq, hok, hpend⟩ := (h.queues t).dequeue hcount
      rw [heq]
      refine ⟨_, _, rfl, ?_⟩
      have hinv := h.update t (s.received t) (s.sent t) (some m.deliver) (h.queues t) (h.order t) ?_
      · simpa only [update_eq_self] using hinv
      · intro d hd
        rw [hpend, ← hd]
        rfl

theorem Inv.flushMessages (h : Inv s) (current : Task) (taskId : ℤ) :
    Inv (flushMessages s current taskId).2 := by
  unfold Ipc.flushMessages
  split
  · exact h
  · rename_i t _
    obtain ⟨hok, hpend⟩ := (h.queues t).flush
    have hinv := h.update t (s.received t) ((s.sent t).take (s.received t).length) none hok ?_ ?_
    · simpa only [update_eq_self] using hinv
    · rw [hpend, append_nil, map_take, ← h.order t, take_left]
    · intro d hd
      cases hd

end Operations

theorem inv_step (a : Action) (h : Inv s) (hprovided : Provided a) :
    ∃ u, step s a = some u ∧ Inv u := by
  cases a with
  | send toTaskId r block => exact ⟨_, rfl, h.sendMessage hprovided⟩
  | receive t buffer flags =>
    obtain ⟨result, u, heq, hu⟩ := h.receiveMessage t buffer flags
    exact ⟨u, by simp [step, heq], hu⟩
  | peek t buffer =>
    obtain ⟨result, u, heq, hu⟩ := h.peekMessage t buffer
    exact ⟨u, by simp [step, heq], hu⟩
  | flush current taskId => exact ⟨_, rfl, h.flushMessages current taskId⟩

theorem Inv.fifo {s : System} (h : Inv s) : Fifo Request.given s := by
  refine ⟨h.order, fun t => ⟨(h.queues t).length_pending, ?_⟩, ?_, ?_⟩
  · rw [← (h.queues t).size]
    exact (h.queues t).wellFormed.count_le
  · intro toTaskId t r block ht hfull
    unfold Ipc.sendMessage
    rw [ht]
    dsimp only
    split
    · exact ⟨Result.noConfusion, rfl⟩
    · split
      · exact ⟨Result.noConfusion, rfl⟩
      · rw [QueueOk.enqueue_full hfull]
        exact ⟨Result.noConfusion, rfl⟩
  · intro t d hd flags
    have hhead := h.peeked t d hd
    have hcount : (s.queues t).count ≠ 0 := by
      intro hzero
      rw [pending_of_count_eq_zero hzero] at hhead
      cases hhead
    obtain ⟨m, heq, -, hpend⟩ := (h.queues t).dequeue hcount
    rw [hpend] at hhead
    obtain rfl := Option.some.inj hhead
    simp [Ipc.receiveMessage, hcount, heq]

/-- In every run in which a send without data has no size, every step returns and the queues are
channels in every state. -/
theorem mailboxes_are_channels (actions : List Action) (h : ∀ a ∈ actions, Provided a) :
    (exec step System.init actions).isSome ∧
      Throughout step (Fifo Request.given) System.init actions := by
  obtain ⟨hreturns, hinv⟩ := completes_of_meets step inv_step inv_init (meets_of_forall step h)
  exact ⟨hreturns, hinv.imp step fun _ => Inv.fifo⟩

/-- Two messages of two tasks, one of them received. -/
theorem two_senders_one_channel :
    let actions : List Action :=
      [.send 5 ⟨1, 1, some fun _ => 7, 2, 0⟩ (some fun _ => 0),
        .send 5 ⟨2, 3, none, 0, 0⟩ (some fun _ => 9), .receive 5 true 0]
    ∃ u, exec step System.init actions = some u ∧ u.received 5 = [⟨1, 1, 0, 2, [7, 7]⟩] ∧
      pending (u.queues 5) = [⟨2, 3, 0, 0, []⟩] ∧
      Throughout step (Fifo Request.given) System.init actions := by
  intro actions
  have hprovided : ∀ a ∈ actions, Provided a := by simp [actions, Provided]
  refine ⟨_, rfl, by decide, by decide, (mailboxes_are_channels _ hprovided).2⟩

/-- Task 1 sends one byte to task 5 twice and gives no data; the byte is the one the block held. No
function of its arguments gives both. -/
theorem missing_data_is_block : ∃ u, exec step System.init
      [.send 5 ⟨1, 1, none, 1, 0⟩ (some fun _ => 0), .send 5 ⟨1, 1, none, 1, 0⟩ (some fun _ => 9),
        .receive 5 true 0, .receive 5 true 0] = some u ∧
      u.received 5 = [⟨1, 1, 0, 1, [0]⟩, ⟨1, 1, 0, 1, [9]⟩] ∧ ∀ bytes, ¬ Fifo bytes u := by
  refine ⟨_, rfl, by decide, fun bytes h => ?_⟩
  have horder : [⟨1, 1, 0, 1, [0]⟩, ⟨1, 1, 0, 1, [9]⟩] =
      [Request.expected bytes ⟨1, 1, none, 1, 0⟩, Request.expected bytes ⟨1, 1, none, 1, 0⟩] :=
    h.order 5
  have hsame : (⟨1, 1, 0, 1, [0]⟩ : Delivery) = ⟨1, 1, 0, 1, [9]⟩ :=
    (cons.inj horder).1.trans (cons.inj (cons.inj horder).2).1.symm
  exact absurd hsame (by decide)

end UintOS.Ipc
