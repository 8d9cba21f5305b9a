import UintOS.Network.Tcp.Model

/-!
# What a received segment does to a socket

`tcp_process_ack`, `tcp_process_data` and `tcp_process_fin` change one socket only, and of it only
the state, the connection and the receive buffer. `Served` says which changes of the state and of
the `TIME_WAIT` table are possible; it is transitive, so it describes a whole segment. `Received`
lists what `tcp_rx` can do with a segment of any kind.
-/

namespace UintOS.Tcp

open Network Link

/-! ## Sending -/

theorem sendSegment_eq (w : Transmit) (c : Socket) (flags : UInt8) (data : List UInt8) :
    (sendSegment w c flags data).1 = { c with conn.sndNxt :=
        if w.allocated then c.conn.sndNxt + consumed flags data else c.conn.sndNxt } := by
  cases h : w.allocated with
  | false => simp [sendSegment, h]
  | true => simp [sendSegment, h]

theorem consumed_ack : consumed tcpFlagAck [] = 0 := by decide

theorem consumed_rst : consumed tcpFlagRst [] = 0 := by decide

theorem sendSegment_of_consumed {flags : UInt8} {data : List UInt8} (h : consumed flags data = 0)
    (w : Transmit) (c : Socket) : (sendSegment w c flags data).1 = c := by
  rw [sendSegment_eq, h, UInt32.add_zero, ite_self]

@[simp] theorem sendSegment_ack (w : Transmit) (c : Socket) :
    (sendSegment w c tcpFlagAck []).1 = c :=
  sendSegment_of_consumed consumed_ack w c

@[simp] theorem sendSegment_rst (w : Transmit) (c : Socket) :
    (sendSegment w c tcpFlagRst []).1 = c :=
  sendSegment_of_consumed consumed_rst w c

/-! ## Tables -/

@[simp] theorem setSocket_self (s : State) (i : Slot) (c : Socket) :
    (setSocket s i c).sockets i = c := Function.update_self ..

variable {i j l : Slot} {s : State} {seg : Segment} {q : Listener} {c : Socket}

theorem setSocket_of_ne (s : State) (c : Socket) (h : j ≠ i) :
    (setSocket s i c).sockets j = s.sockets j := Function.update_of_ne h ..

theorem firstClosed_eq_some {t : Sockets} (h : firstClosed t = some i) : (t i).state = .closed := by
  simpa using Fin.eq_true_of_find?_eq_some h

/-! ## Serving a segment -/

/-- The states a socket can be in after a segment for it was served. -/
def Follows : TcpState → TcpState → Prop
  | .synSent, t => t = .synSent ∨ t = .closed
  | .synReceived, t => t = .synReceived ∨ t = .established ∨ t = .closeWait
  | .established, t => t = .established ∨ t = .closeWait
  | .finWait1, t =>
    t = .finWait1 ∨ t = .finWait2 ∨ t = .closing ∨ t = .timeWait ∨ t = .closed
  | .finWait2, t => t = .finWait2 ∨ t = .timeWait ∨ t = .closed
  | .closing, t => t = .closing ∨ t = .timeWait ∨ t = .closed
  | .lastAck, t => t = .lastAck ∨ t = .closed
  | s, t => t = s

theorem Follows.refl (st : TcpState) : Follows st st := by
  cases st <;> simp [Follows]

theorem Follows.trans {a b c : TcpState} (hab : Follows a b) (hbc : Follows b c) : Follows a c := by
  cases a <;> simp only [Follows] at hab <;> rcases hab with rfl | rfl | rfl | rfl | rfl <;>
    simp only [Follows] at hbc ⊢ <;> tauto

theorem Follows.listen_iff {a b : TcpState} (h : Follows a b) : b = .listen ↔ a = .listen := by
  cases a <;> simp only [Follows] at h <;> rcases h with rfl | rfl | rfl | rfl | rfl <;> simp

structure Identity where
  localPort : UInt16
  remotePort : UInt16
  localAddr : Ipv4Address
  remoteAddr : Ipv4Address
  listener : Option Listener
  next : Option Slot
  timer : Int32

def Socket.identity (c : Socket) : Identity :=
  ⟨c.localPort, c.remotePort, c.localAddr, c.remoteAddr, c.listener, c.next, c.conn.timer⟩

/-- The state `t` after a segment for the socket `i` was served in `s`. -/
structure Served (i : Slot) (s t : State) : Prop where
  others : ∀ j, j ≠ i → t.sockets j = s.sockets j
  identity : (t.sockets i).identity = (s.sockets i).identity
  follows : Follows (s.sockets i).state (t.sockets i).state
  timers : t.timeWait = s.timeWait ∨
    (s.sockets i).state ≠ .timeWait ∧ (t.sockets i).state = .timeWait ∧
      ∃ k w, (s.timeWait k).socket = none ∧ w.socket = some i ∧
        t.timeWait = Function.update s.timeWait k w

theorem Served.refl (i : Slot) (s : State) : Served i s s where
  others _ _ := rfl
  identity := rfl
  follows := Follows.refl _
  timers := .inl rfl

theorem Served.trans {t u : State} (h : Served i s t) (h' : Served i t u) : Served i s u where
  others j hj := (h'.others j hj).trans (h.others j hj)
  identity := h'.identity.trans h.identity
  follows := h.follows.trans h'.follows
  timers := by
    have stays : ∀ {a b : State}, Served i a b → (a.sockets i).state = .timeWait →
        (b.sockets i).state = .timeWait := by
      intro a b hab ha
      have := hab.follows
      rwa [ha] at this
    rcases h'.timers with hsame' | ⟨hne, ht, hadd⟩
    · rcases h.timers with hsame | ⟨hne, ht, hadd⟩
      · exact .inl (hsame'.trans hsame)
      · exact .inr ⟨hne, stays h' ht, by rwa [hsame']⟩
    · rcases h.timers with hsame | ⟨-, ht', -⟩
      · exact .inr ⟨fun hs => hne (stays h hs), ht, by rwa [← hsame]⟩
      · exact absurd ht' hne

theorem served_setSocket (hid : c.identity = (s.sockets i).identity)
    (hst : Follows (s.sockets i).state c.state) : Served i s (setSocket s i c) where
  others _ hj := setSocket_of_ne s c hj
  identity := by rwa [setSocket_self]
  follows := by rwa [setSocket_self]
  timers := .inl rfl

/-- The socket enters `TIME_WAIT`, or is closed without a timer left. -/
theorem served_startTimeWait (now : UInt32) (hid : c.identity = (s.sockets i).identity)
    (htime : c.state = .timeWait) (hst : Follows (s.sockets i).state .timeWait)
    (hcl : Follows (s.sockets i).state .closed) :
    Served i s (startTimeWait (setSocket s i c) i now) := by
  unfold startTimeWait
  split
  · rw [setSocket, setSocket, Function.update_idem]
    refine served_setSocket ?_ hcl
    rwa [← setSocket, setSocket_self]
  · next k hk =>
    have hfree : (s.timeWait k).socket = none := of_decide_eq_true (Fin.eq_true_of_find?_eq_some hk)
    refine ⟨fun j hj => setSocket_of_ne s c hj, ?_, ?_, .inr ⟨?_, ?_, k, _, hfree, rfl, rfl⟩⟩
    · change ((setSocket s i c).sockets i).identity = _
      rwa [setSocket_self]
    · change Follows _ ((setSocket s i c).sockets i).state
      rwa [setSocket_self, htime]
    · intro h
      rw [h] at hcl
      cases hcl
    · change ((setSocket s i c).sockets i).state = _
      rwa [setSocket_self]

section

variable (s : State) (i : Slot)

theorem processAck_served (ackNum : UInt32) (window : UInt16)
    (out : Outside) : Served i s (processAck s i ackNum window out).1 := by
  unfold processAck
  dsimp only
  split_ifs
  · exact served_setSocket rfl (Follows.refl _)
  · split <;> next h =>
      first
      | exact served_startTimeWait _ rfl rfl (by simp [h, Follows]) (by simp [h, Follows])
      | exact served_setSocket rfl (Follows.refl _)
      | exact served_setSocket (by simp [Socket.identity]) (by simp [h, Follows])

theorem processData_served (data : List UInt8) (seqNum : UInt32)
    (out : Outside) : Served i s (processData s i data seqNum out).1 := by
  unfold processData
  dsimp only
  split_ifs
  · rw [sendSegment_ack]
    exact served_setSocket rfl (Follows.refl _)
  · exact served_setSocket rfl (Follows.refl _)
  · rw [sendSegment_ack]
    exact served_setSocket rfl (Follows.refl _)

theorem processFin_served (seqNum : UInt32) (out : Outside) :
    Served i s (processFin s i seqNum out).1 := by
  unfold processFin
  simp only [sendSegment_ack]
  split <;> next h =>
    first
    | exact served_startTimeWait _ rfl rfl (by simp [h, Follows]) (by simp [h, Follows])
    | exact served_setSocket rfl (Follows.refl _)
    | exact served_setSocket rfl (by simp [h, Follows])

section

variable (seg : Segment) (out : Outside)

theorem rxAck_served : Served i s (rxAck s i seg out) := by
  unfold rxAck
  split_ifs
  · exact processAck_served ..
  · exact Served.refl i s

theorem rxData_served : Served i s (rxData s i seg out) := by
  unfold rxData
  split_ifs
  · exact processData_served ..
  · exact Served.refl i s

theorem rxFin_served : Served i s (rxFin s i seg out) := by
  unfold rxFin
  split_ifs
  · exact processFin_served ..
  · exact Served.refl i s

theorem rxOrdinary_served : Served i s (rxFin (rxData (rxAck s i seg out) i seg out) i seg out) :=
  ((rxAck_served s i seg out).trans (rxData_served _ i seg out)).trans (rxFin_served _ i seg out)

end

end

/-! ## Connection requests -/

/-- The segment is a `SYN` that listener `l` takes, with the slot `j` for it. -/
structure OpensFor (s : State) (seg : Segment) (l j : Slot) (q : Listener) : Prop where
  noReset : ¬ seg.has tcpFlagRst
  syn : seg.has tcpFlagSyn
  target : seg.target s.sockets = some l
  listening : (s.sockets l).state = .listen
  listener : (s.sockets l).listener = some q
  room : q.pendingCount < q.backlog
  slot : firstClosed s.sockets = some j

section

variable (h : OpensFor s seg l j q)
include h

theorem OpensFor.ne : j ≠ l := by
  rintro rfl
  have hcl := firstClosed_eq_some h.slot
  rw [h.listening] at hcl
  cases hcl

/-- The listener with the new connection at the head. -/
def enqueue (s : State) (l j : Slot) (q : Listener) : State :=
  setSocket s l { s.sockets l with listener := some ⟨q.backlog, q.pendingCount + 1, some j⟩ }

/-- A new socket as `tcp_process_syn` leaves it, with a `next` pointer and a buffer. -/
def opened (seg : Segment) (next : Option Slot) (sndNxt : UInt32) (b : RxBuffer) : Socket :=
  { synSocket seg with
    conn.sndNxt := sndNxt
    next := next
    rxBuffer := b }

/-- A connection request: a new socket that is put in the listener's list, or, without memory for
its buffer, is not. -/
theorem processSyn_cases (out : Outside) : (out.block.isSome ∧ ∃ n b, (processSyn s l seg out).1 =
      setSocket (enqueue s l j q) j (opened seg q.pendingConnections n b)) ∨
    (out.block = none ∧ ∃ n b, (processSyn s l seg out).1 =
      setSocket s j (opened seg none n b)) := by
  have hlis : ¬ (s.sockets l).state ≠ .listen := not_not.mpr h.listening
  have hroom : ¬ q.backlog ≤ q.pendingCount := UInt16.not_le.mpr h.room
  unfold processSyn
  rw [if_neg hlis, h.listener]
  dsimp only
  rw [if_neg hroom, h.slot]
  cases out.block with
  | none => exact .inr ⟨rfl, _, _, rfl⟩
  | some cells =>
    apply Or.inl
    simp only [bufferInit, sendSegment_eq, ne_eq, not_true_eq_false, if_false]
    exact ⟨rfl, _, _, rfl⟩

theorem rxSegment_of_opens (out : Outside) : rxSegment s seg out = processSyn s l seg out := by
  have hsent : ¬ (seg.has tcpFlagAck ∧ (s.sockets l).state = .synSent) := by
    simp [h.listening]
  unfold rxSegment
  rw [if_neg h.noReset, if_pos h.syn]
  unfold rxSyn
  rw [h.target]
  dsimp only
  rw [if_neg hsent, if_pos h.listening]

end

/-! ## All segments -/

inductive Received (s : State) (seg : Segment) (out : Outside) : State → Prop
  | ignored (h : ∀ l j q, ¬ OpensFor s seg l j q) : Received s seg out s
  | reset (i : Slot) (hrst : seg.has tcpFlagRst) (hi : seg.target s.sockets = some i) :
    Received s seg out (setSocket s i { s.sockets i with state := .closed })
  | established (i : Slot) (hrst : ¬ seg.has tcpFlagRst) (hsyn : seg.has tcpFlagSyn)
      (hack : seg.has tcpFlagAck) (hi : seg.target s.sockets = some i)
      (hst : (s.sockets i).state = .synSent) (hnum : seg.ackNum = (s.sockets i).conn.sndNxt) :
    Received s seg out (setSocket s i { s.sockets i with
      state := .established
      conn := { (s.sockets i).conn with
        sndUna := seg.ackNum
        rcvNxt := seg.seqNum + 1
        sndWnd := seg.window.toUInt32 } })
  | opened (l j : Slot) (q : Listener) (h : OpensFor s seg l j q) :
    Received s seg out (processSyn s l seg out).1
  | served (i : Slot) (hrst : ¬ seg.has tcpFlagRst) (hsyn : ¬ seg.has tcpFlagSyn)
      (hi : seg.target s.sockets = some i) :
    Received s seg out (rxFin (rxData (rxAck s i seg out) i seg out) i seg out)

section

variable (out : Outside) (hrst : ¬ seg.has tcpFlagRst) (hsyn : seg.has tcpFlagSyn)
include hrst hsyn

theorem processSyn_received (hi : seg.target s.sockets = some i)
    (hlis : (s.sockets i).state = .listen) : Received s seg out (processSyn s i seg out).1 := by
  by_cases h : ∃ j q, OpensFor s seg i j q
  · obtain ⟨j, q, h⟩ := h
    exact Received.opened i j q h
  · have hnot : ∀ l j q, ¬ OpensFor s seg l j q := by
      intro l j q hopens
      have hl := hopens.target
      rw [hi] at hl
      cases hl
      exact h ⟨j, q, hopens⟩
    have hsame : (processSyn s i seg out).1 = s := by
      unfold processSyn
      split
      · rfl
      · split
        · rfl
        · next q hq =>
          split
          · rfl
          · next hroom =>
            split
            · rfl
            · next j hj =>
              exact absurd ⟨hrst, hsyn, hi, hlis, hq, UInt16.not_le.mp hroom, hj⟩ (hnot i j q)
    rw [hsame]
    exact Received.ignored hnot

theorem rxSyn_received : Received s seg out (rxSyn s seg out).1 := by
  have hignored : (∀ i, seg.target s.sockets = some i → (s.sockets i).state ≠ .listen) →
      Received s seg out s :=
    fun h => Received.ignored fun l j q hopens => h l hopens.target hopens.listening
  unfold rxSyn
  split
  · next hnone =>
    apply hignored
    intro i hi
    rw [hnone] at hi
    cases hi
  · next i hi =>
    dsimp only
    split_ifs with hack hnum hlis
    · apply hignored
      intro i' hi'
      rw [hi] at hi'
      cases hi'
      simp [hack.2]
    · rw [sendSegment_ack]
      exact Received.established i hrst hsyn hack.1 hi hack.2 (not_not.mp hnum)
    · exact processSyn_received out hrst hsyn hi hlis
    · apply hignored
      intro i' hi'
      rw [hi] at hi'
      cases hi'
      exact hlis

end

theorem rxSegment_received (s : State) (seg : Segment) (out : Outside) :
    Received s seg out (rxSegment s seg out).1 := by
  unfold rxSegment
  split_ifs with hrst hsyn
  · split
    · exact Received.ignored fun l j q hopens => hopens.noReset hrst
    · next i hi => exact Received.reset i hrst hi
  · exact rxSyn_received out hrst hsyn
  · split
    · exact Received.ignored fun l j q hopens => hsyn hopens.syn
    · next i hi => exact Received.served i hrst hsyn hi

end UintOS.Tcp
