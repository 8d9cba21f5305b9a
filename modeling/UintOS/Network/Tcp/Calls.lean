import UintOS.Library.Loops
import UintOS.Network.Tcp.Transitions

/-!
# What the socket calls and the timer do to the table

One lemma for each call, which says everything it can do to the sockets and to the
`TIME_WAIT` table. A call that fails may still have written to a closed socket.
-/

namespace UintOS.Tcp

open Function Link List Network Option

structure Writes (s : State) (i : Slot) (c : Socket) (t : State) : Prop where
  sockets : t.sockets = update s.sockets i c
  timeWait : t.timeWait = s.timeWait

/-- A closed socket was written and is still closed, or nothing was. -/
inductive Harmless (s t : State) : Prop
  | same (hsockets : t.sockets = s.sockets) (htimers : t.timeWait = s.timeWait)
  | written {i : Slot} {c : Socket} (h : Writes s i c t) (hs : (s.sockets i).state = .closed)
    (hc : c.state = .closed)
    (htimer : c.conn.timer = (s.sockets i).conn.timer ∨ c.conn.timer = 0)

theorem Harmless.refl (s : State) : Harmless s s := Harmless.same rfl rfl

theorem writes_setSocket (s : State) (i : Slot) (c : Socket) : Writes s i c (setSocket s i c) :=
  ⟨rfl, rfl⟩

variable {s t : State} {i j : Slot} {c : Socket}

theorem Writes.again (h : Writes s i c t) (d : Socket) : Writes s i d (setSocket t i d) where
  sockets := by rw [setSocket, h.sockets, update_idem]
  timeWait := h.timeWait

theorem Writes.self (h : Writes s i c t) : t.sockets i = c := by
  rw [h.sockets, update_self]

theorem Writes.other (h : Writes s i c t) (hj : j ≠ i) : t.sockets j = s.sockets j := by
  rw [h.sockets, update_of_ne hj]

theorem freePort_unused (h : freePort s ≠ 0) (i : Slot) :
    onPort s.sockets (freePort s) i = false := by
  obtain hzero | hfree := Network.getFreePort_free (some_get (Network.getFreePort_isSome
      (fun port => decide (∃ i, onPort s.sockets port i)) s.lastDynamicPort)).symm
  · exact absurd hzero h
  · simp only [decide_eq_false_iff_not, not_exists, Bool.not_eq_true] at hfree
    exact hfree i

theorem bufferInit_eq (c : Socket) (size : ℕ) (block : Option (ℕ → UInt8)) :
    ∃ b, (bufferInit c size block).1 = { c with rxBuffer := b } := by
  cases block with
  | none => exact ⟨_, rfl⟩
  | some cells => exact ⟨_, rfl⟩

/-! ## Creating and binding -/

theorem finishCreate_cases (s : State) (i : Slot) (c : Socket) (out : Outside) :
    ∃ n m b, (finishCreate s i c out).1 =
        setSocket s i { c with conn.rcvWnd := n, conn.mss := m, rxBuffer := b } ∧
      ((finishCreate s i c out).2 = none ∨ (finishCreate s i c out).2 = some i) := by
  obtain ⟨b, hb⟩ := bufferInit_eq
    { c with conn.rcvWnd := tcpDefaultWindow, conn.mss := tcpDefaultMss } tcpDefaultBufferSize
    out.block
  unfold finishCreate
  dsimp only
  rw [hb]
  refine ⟨_, _, _, rfl, ?_⟩
  split_ifs
  · exact .inl rfl
  · exact .inr rfl

/-- `tcp_socket_create` writes to the first closed slot, and returns it if it succeeds. -/
theorem socketCreate_cases (s : State) (addr : Option Ipv4Address) (port : UInt16) (out : Outside) :
    socketCreate s addr port out = (s, none) ∨
      ∃ i c, firstClosed s.sockets = some i ∧ c.state = .closed ∧ c.conn.timer = 0 ∧
        Writes s i c (socketCreate s addr port out).1 ∧
        ((socketCreate s addr port out).2 = none ∨ (socketCreate s addr port out).2 = some i) := by
  unfold socketCreate
  cases hi : firstClosed s.sockets with
  | none => exact .inl rfl
  | some i =>
    apply Or.inr
    -- the end of the call, with the port that was chosen
    have hfinish : ∀ (u : State) (d : Socket) (p : UInt16),
        Writes s i { Socket.zero with localAddr := addr.getD ipAddrAny } u →
        d = { Socket.zero with localAddr := addr.getD ipAddrAny, localPort := p } →
        ∃ k c, some i = some k ∧ c.state = .closed ∧ c.conn.timer = 0 ∧
          Writes s k c (finishCreate u i d out).1 ∧
          ((finishCreate u i d out).2 = none ∨ (finishCreate u i d out).2 = some k) := by
      intro u d p hu hd
      obtain ⟨n, m, b, hfst, hsnd⟩ := finishCreate_cases u i d out
      rw [hfst]
      subst hd
      exact ⟨i, _, rfl, rfl, rfl, hu.again _, hsnd⟩
    dsimp only
    split_ifs
    · exact ⟨i, _, rfl, rfl, rfl, writes_setSocket s i _, .inl rfl⟩
    · exact hfinish _ _ _ (writes_setSocket s i _) rfl
    · exact ⟨i, _, rfl, rfl, rfl, ⟨update_idem .., rfl⟩, .inl rfl⟩
    · exact hfinish _ _ _ ⟨rfl, rfl⟩ rfl

theorem socketCreate_harmless (s : State) (addr : Option Ipv4Address) (port : UInt16)
    (out : Outside) : Harmless s (socketCreate s addr port out).1 := by
  obtain h | ⟨i, c, hi, hc, htimer, hw, -⟩ := socketCreate_cases s addr port out
  · rw [h]
    exact Harmless.refl s
  · exact Harmless.written hw (firstClosed_eq_some hi) hc (.inr htimer)

theorem setAddr_harmless (h : (s.sockets i).state = .closed) (port : UInt16)
    (addr : Option Ipv4Address) : Harmless s (setAddr s i port addr) :=
  Harmless.written (writes_setSocket s i _) h h (.inl rfl)

theorem socketBind_harmless (s : State) (socket : Option Slot) (addr : Option Ipv4Address)
    (port : UInt16) : Harmless s (socketBind s socket addr port).1 := by
  cases socket with
  | none => exact Harmless.refl s
  | some i =>
    unfold socketBind
    dsimp only
    split_ifs with hcl
    · exact Harmless.refl s
    · exact Harmless.refl s
    · exact setAddr_harmless (not_not.mp hcl) port addr
    · exact Harmless.same rfl rfl
    · have hclosed' := not_not.mp hcl
      exact Harmless.written ⟨rfl, rfl⟩ hclosed' hclosed' (.inl rfl)
    · exact setAddr_harmless (not_not.mp hcl) _ addr

/-! ## Listening, connecting, accepting -/

/-- `tcp_socket_listen` opens a closed socket when it gets memory for the listener. -/
theorem socketListen_cases (s : State) (i : Slot) (backlog : UInt16) (out : Outside) :
    ((s.sockets i).state = .closed ∧ out.listener = true ∧
      ∃ limit, (socketListen s (some i) backlog out).1 = setSocket s i { s.sockets i with
        state := .listen
        listener := some ⟨limit, 0, none⟩ }) ∨
    (¬ ((s.sockets i).state = .closed ∧ out.listener = true) ∧
      (socketListen s (some i) backlog out).1 = s) := by
  unfold socketListen
  dsimp only
  by_cases hcl : (s.sockets i).state = .closed
  · cases hmem : out.listener with
    | false => exact .inr ⟨by simp, by simp [hcl]⟩
    | true =>
      rw [if_neg (not_not.mpr hcl), if_neg (by simp)]
      exact .inl ⟨hcl, rfl, _, rfl⟩
  · rw [if_pos hcl]
    exact .inr ⟨fun h => hcl h.1, rfl⟩

/-- The local address `tcp_socket_connect` uses, if there is one. -/
def connectAddr (c : Socket) (out : Outside) : Option Ipv4Address :=
  if ipAddrIsAny c.localAddr then out.device else some c.localAddr

structure Connecting (c old : Socket) (localPort : UInt16) (localAddr : Ipv4Address)
    (remotePort : UInt16) (remoteAddr : Ipv4Address) : Prop where
  state : c.state = .synSent
  localPort_eq : c.localPort = localPort
  localAddr_eq : c.localAddr = localAddr
  remotePort_eq : c.remotePort = remotePort
  remoteAddr_eq : c.remoteAddr = remoteAddr
  sndUna : c.conn.sndUna = tcpInitialSeq
  timer : c.conn.timer = old.conn.timer

theorem startConnect_cases (s : State) (i : Slot) (c : Socket) (out : Outside) :
    ∃ d, (startConnect s i c out).1 = setSocket s i d ∧
      Connecting d c c.localPort c.localAddr c.remotePort c.remoteAddr := by
  obtain ⟨b, hb⟩ := bufferInit_eq { c with
    state := .synSent
    conn := { c.conn with
      sndUna := tcpInitialSeq
      sndNxt := tcpInitialSeq
      rcvNxt := 0
      rto := tcpRetransmitTimeout
      attempts := 0 } } tcpDefaultBufferSize out.block
  unfold startConnect
  dsimp only
  rw [hb]
  split_ifs
  · exact ⟨_, rfl, rfl, rfl, rfl, rfl, rfl, rfl, rfl⟩
  · rw [sendSegment_eq]
    exact ⟨_, rfl, rfl, rfl, rfl, rfl, rfl, rfl, rfl⟩

theorem dynamicPort_unused (h : freePort (setSocket s i c) ≠ 0)
    (hcl : (s.sockets i).state = .closed) (j : Slot) :
    onPort s.sockets (freePort (setSocket s i c)) j = false := by
  have hfree := freePort_unused h j
  by_cases hj : j = i
  · subst hj
    simp [onPort, hcl]
  · rw [onPort, setSocket_of_ne s c hj] at hfree
    exact hfree

/-- `tcp_socket_connect` starts a connection from a closed socket, on its own port or on a
new dynamic one, or writes to the closed socket and fails. -/
theorem socketConnect_cases (s : State) (i : Slot) (addr : Ipv4Address) (port : UInt16)
    (out : Outside) :
    (∃ p localAddr c, (s.sockets i).state = .closed ∧
      connectAddr (s.sockets i) out = some localAddr ∧
      ((s.sockets i).localPort ≠ 0 ∧ p = (s.sockets i).localPort ∨
        (s.sockets i).localPort = 0 ∧ ∀ j, onPort s.sockets p j = false) ∧
      Connecting c (s.sockets i) p localAddr port addr ∧
      Writes s i c (socketConnect s (some i) (some addr) port out).1) ∨
    (¬ ((s.sockets i).state = .closed ∧ (s.sockets i).localPort ≠ 0 ∧
        ∃ localAddr, connectAddr (s.sockets i) out = some localAddr) ∧
      Harmless s (socketConnect s (some i) (some addr) port out).1) := by
  unfold socketConnect
  dsimp only
  by_cases hcl : (s.sockets i).state = .closed
  · rw [if_neg (not_not.mpr hcl)]
    cases hchosen : connectAddr (s.sockets i) out with
    | none =>
      apply Or.inr
      constructor
      · simp
      · rw [connectAddr] at hchosen
        rw [hchosen]
        exact Harmless.written (writes_setSocket s i _) hcl hcl (.inl rfl)
    | some localAddr =>
      rw [connectAddr] at hchosen
      rw [hchosen]
      dsimp only
      by_cases hport : (s.sockets i).localPort = 0
      · rw [if_pos hport]
        split_ifs with hzero
        · apply Or.inr
          constructor
          · exact fun h => h.2.1 hport
          · exact Harmless.written ⟨update_idem .., rfl⟩ hcl hcl (Or.inl rfl)
        · apply Or.inl
          obtain ⟨d, hd, hconn⟩ := startConnect_cases _ i _ out
          rw [hd]
          have hunused := dynamicPort_unused hzero hcl
          exact ⟨_, localAddr, d, hcl, rfl, .inr ⟨hport, hunused⟩, { hconn with },
            ⟨update_idem .., rfl⟩⟩
      · rw [if_neg hport]
        apply Or.inl
        obtain ⟨d, hd, hconn⟩ := startConnect_cases s i _ out
        rw [hd]
        exact ⟨_, localAddr, d, hcl, rfl, Or.inl ⟨hport, rfl⟩, { hconn with },
          writes_setSocket s i d⟩
  · rw [if_pos hcl]
    exact .inr ⟨fun h => hcl h.1, Harmless.refl s⟩

def dequeue (s : State) (l j : Slot) (q : Listener) : State :=
  setSocket s l { s.sockets l with
    listener := some ⟨q.backlog, q.pendingCount - 1, (s.sockets j).next⟩ }

def accepted (c : Socket) : Socket :=
  { c with
    next := none
    state := if c.state = .synReceived then .established else c.state }

theorem socketAccept_eq {l : Slot} {q : Listener} (hlis : (s.sockets l).state = .listen)
    (hq : (s.sockets l).listener = some q) (hj : q.pendingConnections = some j) :
    socketAccept s (some l) =
      (setSocket (dequeue s l j q) j (accepted ((dequeue s l j q).sockets j)), some j) := by
  unfold socketAccept
  dsimp only
  rw [if_neg (not_not.mpr hlis), hq]
  dsimp only
  rw [hj]
  unfold accepted dequeue
  dsimp only
  split_ifs
  · rfl
  · rfl

section

variable (s : State) (socket : Option Slot)

/-- `tcp_socket_accept` takes the head of the list of a listening socket. -/
theorem socketAccept_cases : socketAccept s socket = (s, none) ∨
      ∃ l j q, socket = some l ∧ (s.sockets l).state = .listen ∧
        (s.sockets l).listener = some q ∧ q.pendingConnections = some j := by
  cases socket with
  | none => exact .inl rfl
  | some l =>
    by_cases hlis : (s.sockets l).state = .listen
    · cases hq : (s.sockets l).listener with
      | none => exact .inl (by simp [socketAccept, hlis, hq])
      | some q =>
        cases hj : q.pendingConnections with
        | none => exact .inl (by simp [socketAccept, hlis, hq, hj])
        | some j => exact .inr ⟨l, j, q, rfl, hlis, hq, hj⟩
    · exact .inl (by simp [socketAccept, hlis])

/-! ## Closing -/

/-- What `tcp_socket_close` does to the socket `i`. -/
inductive ClosedBy (s : State) (i : Slot) : State → Prop
  | ignored (h : (s.sockets i).state ≠ .listen) : ClosedBy s i s
  | listener (h : (s.sockets i).state = .listen) :
    ClosedBy s i (setSocket s i { s.sockets i with
      listener := none
      state := .closed })
  | unsent (h : (s.sockets i).state = .synSent) :
    ClosedBy s i (setSocket s i { s.sockets i with state := .closed })
  | fin (st : TcpState) (n : UInt32)
      (h : ((s.sockets i).state = .synReceived ∨ (s.sockets i).state = .established) ∧
          st = .finWait1 ∨ (s.sockets i).state = .closeWait ∧ st = .lastAck) :
    ClosedBy s i (setSocket s i { s.sockets i with
      state := st
      conn.sndNxt := n })

theorem closeWith_eq (i : Slot) (st : TcpState) (out : Outside) :
    ∃ n, (closeWith s i st out).1 = setSocket s i { s.sockets i with
      state := st
      conn.sndNxt := n } := by
  unfold closeWith
  dsimp only
  rw [sendSegment_eq]
  exact ⟨_, rfl⟩

theorem socketClose_closedBy (i : Slot) (out : Outside) :
    ClosedBy s i (socketClose s (some i) out).1 := by
  have hfin : ∀ st, ((s.sockets i).state = .synReceived ∨ (s.sockets i).state = .established) ∧
      st = .finWait1 ∨ (s.sockets i).state = .closeWait ∧ st = .lastAck →
      ClosedBy s i (closeWith s i st out).1 := by
    intro st h
    obtain ⟨n, hn⟩ := closeWith_eq s i st out
    rw [hn]
    exact ClosedBy.fin st n h
  unfold socketClose
  dsimp only
  split
  · next h => exact ClosedBy.ignored (by simp [h])
  · next h => exact ClosedBy.listener h
  · next h => exact ClosedBy.unsent h
  · next h => exact hfin _ (.inl ⟨.inl h, rfl⟩)
  · next h => exact hfin _ (.inl ⟨.inr h, rfl⟩)
  · next h => exact hfin _ (.inr ⟨h, rfl⟩)
  · next h _ _ _ _ => exact ClosedBy.ignored h

/-! ## Sending and receiving data -/

/-- `tcp_socket_send` changes `snd_nxt` of an established connection only. -/
theorem socketSend_cases (data : Option (List UInt8)) (out : Outside) :
    (socketSend s socket data out).1 = s ∨ ∃ i n, (s.sockets i).state = .established ∧
        (socketSend s socket data out).1 = setSocket s i { s.sockets i with conn.sndNxt := n } := by
  unfold socketSend
  split
  · next i data =>
    split_ifs with hst
    · exact .inl rfl
    · dsimp only
      rw [sendSegment_eq]
      exact .inr ⟨i, _, not_not.mp hst, rfl⟩
  · exact .inl rfl

theorem socketRecv_cases (buffer : Bool) (len : ℕ) :
    (socketRecv s socket buffer len).1 = s ∨ ∃ i b, (socketRecv s socket buffer len).1 =
        setSocket s i { s.sockets i with rxBuffer := b } := by
  unfold socketRecv
  split
  · next i =>
    split_ifs
    · exact .inl rfl
    · exact .inr ⟨i, _, rfl⟩
  · exact .inl rfl

end

/-! ## The timer -/

variable (now : UInt32)

/-- A round of the first loop closes the socket of an expired entry and clears the entry. -/
theorem expire_cases (s : State) (k : Fin 32) : expire now s k = s ∨
      ∃ i, (s.timeWait k).socket = some i ∧
        (s.timeWait k).duration ≤ now - (s.timeWait k).startTime ∧
        expire now s k = { setSocket s i { s.sockets i with state := .closed } with
          timeWait := update s.timeWait k { s.timeWait k with socket := none } } := by
  unfold expire
  split
  · exact .inl rfl
  · next i hi =>
    split_ifs with hdue
    · exact .inr ⟨i, hi, hdue, rfl⟩
    · exact .inl rfl

def Due (s : State) (now : UInt32) (k : Fin 32) (i : Slot) : Prop :=
  (s.timeWait k).socket = some i ∧ (s.timeWait k).duration ≤ now - (s.timeWait k).startTime

theorem expire_of_due {now : UInt32} {k : Fin 32} (h : Due s now k i) :
    expire now s k = { setSocket s i { s.sockets i with state := .closed } with
      timeWait := update s.timeWait k { s.timeWait k with socket := none } } := by
  simp only [expire, h.1, if_pos h.2]

theorem expire_timeWait_of_ne (s : State) {k k' : Fin 32} (h : k' ≠ k) :
    (expire now s k).timeWait k' = s.timeWait k' := by
  obtain hsame | ⟨i, -, -, ht⟩ := expire_cases now s k
  · rw [hsame]
  · rw [ht]
    exact update_of_ne h ..

/-- The first loop closes the sockets whose entries have expired, and no others. -/
theorem expire_loop (l : List (Fin 32)) (hl : l.Nodup) (s : State) (i : Slot) :
    ((∃ k ∈ l, Due s now k i) →
      (l.foldl (expire now) s).sockets i = { s.sockets i with state := .closed }) ∧
    ((∀ k ∈ l, ¬ Due s now k i) → (l.foldl (expire now) s).sockets i = s.sockets i) := by
  induction l generalizing s with
  | nil => simp
  | cons k l ih =>
    obtain ⟨hk, hl⟩ := nodup_cons.mp hl
    obtain ⟨ihdue, ihnot⟩ := ih hl (expire now s k)
    -- the later rounds see the entries this round finds
    have hsame : ∀ k' ∈ l, (Due (expire now s k) now k' i ↔ Due s now k' i) := by
      intro k' hk'
      have hne : k' ≠ k := fun h => hk (h ▸ hk')
      rw [Due, Due, expire_timeWait_of_ne now s hne]
    rw [foldl_cons]
    by_cases hrest : ∃ k' ∈ l, Due s now k' i
    · obtain ⟨k', hk', hdue⟩ := hrest
      constructor
      · intro _
        rw [ihdue ⟨k', hk', (hsame k' hk').mpr hdue⟩]
        obtain h | ⟨j, -, -, h⟩ := expire_cases now s k
        · rw [h]
        · rw [h]
          by_cases hj : i = j
          · subst hj
            simp
          · simp [setSocket_of_ne s _ hj]
      · exact fun h => absurd hdue (h k' (mem_cons_of_mem k hk'))
    · have hrest' : ∀ k' ∈ l, ¬ Due (expire now s k) now k' i := by
        intro k' hk' hdue
        exact hrest ⟨k', hk', (hsame k' hk').mp hdue⟩
      rw [ihnot hrest']
      constructor
      · rintro ⟨k', hk', hdue⟩
        rcases mem_cons.mp hk' with rfl | hk'
        · rw [expire_of_due hdue]
          exact setSocket_self ..
        · exact absurd ⟨k', hk', hdue⟩ hrest
      · intro hnot
        obtain h | ⟨j, hj, hdue, h⟩ := expire_cases now s k
        · rw [h]
        · rw [h]
          apply setSocket_of_ne
          rintro rfl
          exact hnot k (mem_cons_self ..) ⟨hj, hdue⟩

theorem countDown_eq (msec : UInt32) (h : c.conn.timer = 0) : countDown msec c = c := by
  unfold countDown
  rw [if_neg]
  rintro ⟨-, hpos⟩
  rw [h] at hpos
  exact absurd hpos (by decide)

/-- The timer closes the sockets whose entries have expired, and no others. -/
theorem timer_sockets (htimer : ∀ i, (s.sockets i).conn.timer = 0) (msec now : UInt32) (i : Slot) :
    ((∃ k, Due s now k i) → (timer s msec now).sockets i = { s.sockets i with state := .closed }) ∧
    ((∀ k, ¬ Due s now k i) → (timer s msec now).sockets i = s.sockets i) := by
  obtain ⟨hdue, hnot⟩ := expire_loop now (List.finRange 32) (nodup_finRange 32) s i
  unfold timer
  dsimp only
  constructor
  · rintro ⟨k, hk⟩
    rw [hdue ⟨k, mem_finRange k, hk⟩]
    exact countDown_eq msec (htimer i)
  · intro h
    rw [hnot fun k _ => h k]
    exact countDown_eq msec (htimer i)

/-! ## All requests -/

/-- What a request can do: nothing to an open socket, or what its call does. -/
inductive Performed (s : State) : Event → State → Prop
  | harmless (e : Event) (t : State) (h : Harmless s t)
      (haccept : ∀ socket, e.request = .accept socket → (socketAccept s socket).2 = none)
      (hrx : ∀ p, e.request = .rx (some p) → parse p = none) : Performed s e t
  | listening (i : Slot) (backlog limit : UInt16) (out : Outside)
      (hcl : (s.sockets i).state = .closed) :
    Performed s ⟨.listen (some i) backlog, out⟩ (setSocket s i { s.sockets i with
      state := .listen
      listener := some ⟨limit, 0, none⟩ })
  | accepting (l j : Slot) (q : Listener) (out : Outside) (hlis : (s.sockets l).state = .listen)
      (hq : (s.sockets l).listener = some q) (hj : q.pendingConnections = some j) :
    Performed s ⟨.accept (some l), out⟩
      (setSocket (dequeue s l j q) j (accepted ((dequeue s l j q).sockets j)))
  | connecting (i : Slot) (addr localAddr : Ipv4Address) (port p : UInt16) (out : Outside)
      (c : Socket) (t : State) (hcl : (s.sockets i).state = .closed)
      (hconn : Connecting c (s.sockets i) p localAddr port addr) (hw : Writes s i c t) :
    Performed s ⟨.connect (some i) (some addr) port, out⟩ t
  | closing (i : Slot) (out : Outside) (t : State) (h : ClosedBy s i t) :
    Performed s ⟨.close (some i), out⟩ t
  | sending (socket : Option Slot) (data : Option (List UInt8)) (out : Outside) (i : Slot)
      (n : UInt32) (hst : (s.sockets i).state = .established) :
    Performed s ⟨.send socket data, out⟩ (setSocket s i { s.sockets i with conn.sndNxt := n })
  | receiving (socket : Option Slot) (buffer : Bool) (len : ℕ) (out : Outside) (i : Slot)
      (b : RxBuffer) :
    Performed s ⟨.recv socket buffer len, out⟩ (setSocket s i { s.sockets i with rxBuffer := b })
  | segment (p : Packet) (seg : Segment) (out : Outside) (hp : parse p = some seg) (t : State)
      (h : Received s seg out t) : Performed s ⟨.rx (some p), out⟩ t
  | timer (msec : UInt32) (out : Outside) : Performed s ⟨.timer msec, out⟩ (timer s msec out.now)

theorem performed_harmless {s t : State} {e : Event} (h : Harmless s t)
    (hne : ∀ socket p, e.request ≠ .accept socket ∧ e.request ≠ .rx p) : Performed s e t :=
  Performed.harmless e t h (fun socket heq => absurd heq (hne socket none).1)
    fun p heq => absurd heq (hne none (some p)).2

theorem performed (s : State) (e : Event) : Performed s e (perform s e.out e.request) := by
  obtain ⟨request, out⟩ := e
  cases request with
  | create addr port =>
    exact performed_harmless (socketCreate_harmless s addr port out) (by simp)
  | bind socket addr port =>
    exact performed_harmless (socketBind_harmless s socket addr port) (by simp)
  | listen socket backlog =>
    cases socket with
    | none => exact performed_harmless (Harmless.refl s) (by simp)
    | some i =>
      dsimp only [perform]
      obtain ⟨hcl, -, limit, ht⟩ | ⟨-, ht⟩ := socketListen_cases s i backlog out
      · rw [ht]
        exact Performed.listening i backlog limit out hcl
      · rw [ht]
        exact performed_harmless (Harmless.refl s) (by simp)
  | accept socket =>
    dsimp only [perform]
    obtain ht | ⟨l, j, q, rfl, hlis, hq, hj⟩ := socketAccept_cases s socket
    · rw [ht]
      apply Performed.harmless _ _ (Harmless.refl s)
      · rintro _ ⟨⟩
        rw [ht]
      · simp
    · rw [socketAccept_eq hlis hq hj]
      exact Performed.accepting l j q out hlis hq hj
  | connect socket addr port =>
    cases socket with
    | none => exact performed_harmless (Harmless.refl s) (by simp)
    | some i =>
      cases addr with
      | none => exact performed_harmless (Harmless.refl s) (by simp)
      | some addr =>
        obtain ⟨p, localAddr, c, hcl, -, -, hconn, hw⟩ | ⟨-, h⟩ :=
          socketConnect_cases s i addr port out
        · exact Performed.connecting i addr localAddr port p out c _ hcl hconn hw
        · exact performed_harmless h (by simp)
  | close socket =>
    cases socket with
    | none => exact performed_harmless (Harmless.refl s) (by simp)
    | some i => exact Performed.closing i out _ (socketClose_closedBy s i out)
  | send socket data =>
    dsimp only [perform]
    obtain ht | ⟨i, n, hst, ht⟩ := socketSend_cases s socket data out
    · rw [ht]
      exact performed_harmless (Harmless.refl s) (by simp)
    · rw [ht]
      exact Performed.sending socket data out i n hst
  | recv socket buffer len =>
    dsimp only [perform]
    obtain ht | ⟨i, b, ht⟩ := socketRecv_cases s socket buffer len
    · rw [ht]
      exact performed_harmless (Harmless.refl s) (by simp)
    · rw [ht]
      exact Performed.receiving socket buffer len out i b
  | rx buffer =>
    dsimp only [perform]
    cases hp : buffer.bind parse with
    | none =>
      have hrx : (rx s buffer out).1 = s := by simp [rx, hp]
      rw [hrx]
      refine Performed.harmless _ _ (Harmless.refl s) (by simp) ?_
      rintro p ⟨⟩
      exact hp
    | some seg =>
      obtain ⟨p, rfl, hseg⟩ := bind_eq_some_iff.mp hp
      have hrx : rx s (some p) out = rxSegment s seg out := by simp [rx, hseg]
      rw [hrx]
      exact Performed.segment p seg out hseg _ (rxSegment_received s seg out)
  | timer msec => exact Performed.timer msec out

/-- A call that finds memory and packet buffers, and whose segments are sent. -/
def plenty : Outside := ⟨some fun _ => 0, true, none, 0, fun _ => ⟨true, fun _ => 0⟩⟩

def synPacket : Packet where
  bytes := [15, 160, 0, 80, 0, 0, 0, 7, 0, 0, 0, 0, 80, 2, 4, 0, 135, 233, 0, 0]
  src := ⟨10, 0, 0, 2⟩
  dest := ⟨10, 0, 0, 1⟩

/-- `SYN` and `ACK` from `10.0.0.2:4000`, for the `SYN` of `10.0.0.1:80`. -/
def synAckPacket : Packet where
  bytes := [15, 160, 0, 80, 0, 0, 0, 7, 1, 2, 3, 5, 80, 18, 4, 0, 131, 210, 0, 0]
  src := ⟨10, 0, 0, 2⟩
  dest := ⟨10, 0, 0, 1⟩

/-! ## Calls that fail -/

variable {out : Outside}

/-- The state, the ports and the connection are the same. -/
def Unchanged (c d : Socket) : Prop :=
  d.state = c.state ∧ d.localPort = c.localPort ∧ d.remotePort = c.remotePort ∧ d.conn = c.conn

theorem Unchanged.refl (c : Socket) : Unchanged c c := ⟨rfl, rfl, rfl, rfl⟩

theorem Writes.unchanged_iff (h : Writes s i c t) :
    (∀ j, Unchanged (s.sockets j) (t.sockets j)) ↔ Unchanged (s.sockets i) c := by
  constructor
  · intro hall
    rw [← h.self]
    exact hall i
  · intro hc j
    by_cases hj : j = i
    · subst hj
      rwa [h.self]
    · rw [h.other hj]
      exact .refl _

/-- A closed socket is on no port. -/
theorem freePort_setSocket (hs : (s.sockets i).state = .closed) (hc : c.state = .closed) :
    freePort (setSocket s i c) = freePort s := by
  have hport : ∀ port j, onPort (setSocket s i c).sockets port j = onPort s.sockets port j := by
    intro port j
    by_cases hj : j = i
    · subst hj
      simp [onPort, setSocket_self, hs, hc]
    · rw [onPort, setSocket_of_ne s c hj, onPort]
  simp only [freePort, hport]
  rfl

theorem portInUse_setSocket (i : Slot) (port : UInt16) (sameAddr : Ipv4Address → Bool) :
    portInUse (setSocket s i c).sockets i port sameAddr = portInUse s.sockets i port sameAddr := by
  unfold portInUse
  simp only [decide_eq_decide]
  refine exists_congr fun j => and_congr_right fun hj => ?_
  rw [onPort, onPort, setSocket_of_ne s c hj]

section

variable {socket : Option Slot} {addr : Option Ipv4Address} {port : UInt16}

theorem consumed_data (data : List UInt8) :
    consumed (tcpFlagPsh ||| tcpFlagAck) data = UInt32.ofNat data.length := by
  have hsyn : (tcpFlagPsh ||| tcpFlagAck) &&& tcpFlagSyn = 0 := by decide
  have hfin : (tcpFlagPsh ||| tcpFlagAck) &&& tcpFlagFin = 0 := by decide
  cases data with
  | nil => decide
  | cons byte data => simp [consumed, hsyn, hfin]

/-- `tcp_socket_send` on a connection makes no packet, or one without data. -/
def SendKeeps (s : State) (socket : Option Slot) (data : Option (List UInt8)) (out : Outside) :
    Prop :=
  ∀ i bytes, socket = some i → data = some bytes → (s.sockets i).state = .established →
    (out.send 0).allocated = true → UInt32.ofNat bytes.length = 0

theorem socketSend_keeps_iff {data : Option (List UInt8)} :
    (∀ i, ((socketSend s socket data out).1.sockets i).conn.sndNxt = (s.sockets i).conn.sndNxt) ↔
      SendKeeps s socket data out := by
  match socket, data with
  | none, _ => exact iff_of_true (fun _ => rfl) (by simp [SendKeeps])
  | some i, none => exact iff_of_true (fun _ => rfl) (by simp [SendKeeps])
  | some i, some bytes =>
    by_cases hst : (s.sockets i).state = .established
    · have hsent : (socketSend s (some i) (some bytes) out).1 =
          setSocket s i (sendSegment (out.send 0) (s.sockets i) (tcpFlagPsh ||| tcpFlagAck)
            bytes).1 := by
        simp [socketSend, hst]
      rw [hsent, sendSegment_eq]
      cases hpacket : (out.send 0).allocated with
      | false => exact iff_of_true (by simp [setSocket]) (by simp [SendKeeps, hpacket])
      | true =>
        rw [consumed_data]
        constructor
        · rintro hall _ _ ⟨⟩ ⟨⟩ - -
          simpa using hall i
        · intro hzero j
          rw [hzero i bytes rfl rfl hst hpacket]
          simp [setSocket]
    · have hsame : (socketSend s (some i) (some bytes) out).1 = s := by
        simp [socketSend, hst]
      rw [hsame]
      refine iff_of_true (fun _ => rfl) ?_
      rintro _ _ ⟨⟩ ⟨⟩ h
      exact absurd h hst

/-- What a call of `tcp_socket_create` that fails leaves in the slot it took. -/
def failedCreate (s : State) (i : Slot) (addr : Option Ipv4Address) (port : UInt16) : Socket :=
  let addr := addr.getD ipAddrAny
  let chosen := if 0 < port then port else freePort s
  if chosen = 0 ∨ 0 < port ∧ portInUse s.sockets i port fun other =>
      ipAddrIsAny other || ipAddrIsAny addr || ipAddrCmp other addr then Socket.zero
  else { Socket.zero with
    localPort := chosen
    conn.rcvWnd := tcpDefaultWindow
    conn.mss := tcpDefaultMss }

/-- The first closed slot held what `tcp_socket_create` writes. -/
def CreateKeeps (s : State) (addr : Option Ipv4Address) (port : UInt16) : Prop :=
  ∀ i, firstClosed s.sockets = some i → Unchanged (s.sockets i) (failedCreate s i addr port)

theorem socketCreate_writes (hi : firstClosed s.sockets = some i) :
    ∃ c, Writes s i c (socketCreate s addr port out).1 ∧
      Unchanged (failedCreate s i addr port) c := by
  have hcl := firstClosed_eq_some hi
  unfold socketCreate
  rw [hi]
  dsimp only
  have hfinish : ∀ u, (∃ d, Writes s i d u) → ∀ p, ∃ c, Writes s i c (finishCreate u i
      { Socket.zero with localAddr := addr.getD ipAddrAny, localPort := p } out).1 ∧
      Unchanged { Socket.zero with
        localPort := p, conn.rcvWnd := tcpDefaultWindow, conn.mss := tcpDefaultMss } c := by
    rintro u ⟨d, hu⟩ p
    refine ⟨_, hu.again _, ?_⟩
    obtain ⟨b, hb⟩ := bufferInit_eq { Socket.zero with
      localAddr := addr.getD ipAddrAny, localPort := p, conn.rcvWnd := tcpDefaultWindow,
      conn.mss := tcpDefaultMss } tcpDefaultBufferSize out.block
    rw [hb]
    exact ⟨rfl, rfl, rfl, rfl⟩
  rw [portInUse_setSocket]
  by_cases hport : 0 < port
  · have hne : port ≠ 0 := by
      rintro rfl
      exact absurd hport (by decide)
    rw [if_pos hport]
    split_ifs with huse
    · have hfailed : failedCreate s i addr port = Socket.zero := if_pos (.inr ⟨hport, huse⟩)
      exact ⟨_, writes_setSocket s i _, hfailed ▸ ⟨rfl, rfl, rfl, rfl⟩⟩
    · have hfailed : failedCreate s i addr port = { Socket.zero with
          localPort := port, conn.rcvWnd := tcpDefaultWindow, conn.mss := tcpDefaultMss } := by
        simp [failedCreate, hport, huse, hne]
      exact hfailed ▸ hfinish _ ⟨_, writes_setSocket s i _⟩ port
  · have hfree : freePort (setSocket s i { Socket.zero with localAddr := addr.getD ipAddrAny }) =
        freePort s := freePort_setSocket hcl rfl
    rw [if_neg hport]
    split_ifs with hzero
    · have hfailed : failedCreate s i addr port = Socket.zero := by
        simp [failedCreate, hport, hfree.symm.trans hzero]
      rw [hfailed]
      exact ⟨_, ⟨update_idem .., rfl⟩, rfl, hzero, rfl, rfl⟩
    · have hfailed : failedCreate s i addr port = { Socket.zero with
          localPort := freePort s
          conn.rcvWnd := tcpDefaultWindow
          conn.mss := tcpDefaultMss } := by
        have hzero : freePort s ≠ 0 := fun h => hzero (hfree.trans h)
        simp [failedCreate, hport, hzero]
      rw [hfailed, ← hfree]
      refine hfinish _ ?_ _
      exact ⟨_, rfl, rfl⟩

theorem socketCreate_keeps_iff :
    (∀ i, Unchanged (s.sockets i) ((socketCreate s addr port out).1.sockets i)) ↔
      CreateKeeps s addr port := by
  unfold CreateKeeps
  cases hi : firstClosed s.sockets with
  | none =>
    have hsame : socketCreate s addr port out = (s, none) := by
      unfold socketCreate
      rw [hi]
    rw [hsame]
    exact iff_of_true (fun _ => .refl _) (by simp)
  | some i =>
    obtain ⟨c, hw, hst, hlocal, hremote, hconn⟩ := socketCreate_writes hi
    rw [hw.unchanged_iff]
    simp only [some.injEq, forall_eq', Unchanged, hst, hlocal, hremote, hconn]

/-- `tcp_process_syn` finds no listener with room, or no closed slot. -/
def SynKeeps (s : State) (l : Slot) : Prop :=
  ∀ q j, (s.sockets l).state = .listen → (s.sockets l).listener = some q →
    firstClosed s.sockets = some j → q.backlog ≤ q.pendingCount

theorem processSyn_keeps_iff {l : Slot} {seg : Segment} :
    ((∀ j, (s.sockets j).state = .closed → ((processSyn s l seg out).1.sockets j).state = .closed) ∧
      ((processSyn s l seg out).1.sockets l).listener = (s.sockets l).listener) ↔
    SynKeeps s l := by
  unfold processSyn SynKeeps
  by_cases hlis : (s.sockets l).state = .listen
  swap
  · rw [if_pos hlis]
    exact iff_of_true ⟨fun _ => id, rfl⟩ fun q j hl => absurd hl hlis
  rw [if_neg (not_not.mpr hlis)]
  cases hq : (s.sockets l).listener with
  | none => exact iff_of_true ⟨fun _ => id, hq⟩ (by simp)
  | some q =>
    dsimp only
    by_cases hfull : q.backlog ≤ q.pendingCount
    · rw [if_pos hfull]
      refine iff_of_true ⟨fun _ => id, hq⟩ ?_
      rintro _ _ - ⟨⟩ -
      exact hfull
    · rw [if_neg hfull]
      cases hj : firstClosed s.sockets with
      | none => exact iff_of_true ⟨fun _ => id, hq⟩ (by simp)
      | some j =>
        refine iff_of_false (fun hkept => ?_) fun h => hfull (h q j hlis rfl rfl)
        have hcl := hkept.1 j (firstClosed_eq_some hj)
        obtain ⟨b, hb⟩ := bufferInit_eq (synSocket seg) tcpDefaultBufferSize out.block
        rw [hb] at hcl
        dsimp only at hcl
        split_ifs at hcl
        · rw [setSocket_self] at hcl
          cases hcl
        · rw [setSocket_self, sendSegment_eq] at hcl
          cases hcl

/-- `tcp_socket_connect` on a closed socket finds no address or no port, and the remote port was
that of the call before. -/
def ConnectKeeps (s : State) (socket : Option Slot) (addr : Option Ipv4Address) (port : UInt16)
    (out : Outside) : Prop :=
  ∀ i remote, socket = some i → addr = some remote → (s.sockets i).state = .closed →
    (s.sockets i).remotePort = port ∧ (connectAddr (s.sockets i) out = none ∨
      (s.sockets i).localPort = 0 ∧ freePort s = 0)

theorem socketConnect_keeps_iff :
    (∀ j, Unchanged (s.sockets j) ((socketConnect s socket addr port out).1.sockets j)) ↔
      ConnectKeeps s socket addr port out := by
  match socket, addr with
  | none, _ => exact iff_of_true (fun _ => .refl _) (by simp [ConnectKeeps])
  | some i, none => exact iff_of_true (fun _ => .refl _) (by simp [ConnectKeeps])
  | some i, some remote =>
    by_cases hcl : (s.sockets i).state = .closed
    swap
    · have hsame : (socketConnect s (some i) (some remote) port out).1 = s := by
        simp [socketConnect, hcl]
      rw [hsame]
      refine iff_of_true (fun _ => .refl _) ?_
      rintro _ _ ⟨⟩ ⟨⟩ h
      exact absurd h hcl
    · have hcond : ConnectKeeps s (some i) (some remote) port out ↔
          (s.sockets i).remotePort = port ∧ (connectAddr (s.sockets i) out = none ∨
            (s.sockets i).localPort = 0 ∧ freePort s = 0) := by
        simp [ConnectKeeps, hcl]
      rw [hcond]
      unfold socketConnect
      dsimp only
      rw [if_neg (not_not.mpr hcl)]
      cases hchosen : connectAddr (s.sockets i) out with
      | none =>
        rw [connectAddr] at hchosen
        rw [hchosen]
        dsimp only
        rw [(writes_setSocket s i _).unchanged_iff]
        simp [Unchanged, eq_comm]
      | some localAddr =>
        rw [connectAddr] at hchosen
        rw [hchosen]
        dsimp only
        have hstarted : ∀ u d,
            ¬ ∀ j, Unchanged (s.sockets j) ((startConnect u i d out).1.sockets j) := by
          intro u d hall
          obtain ⟨e, he, hconn⟩ := startConnect_cases u i d out
          have hst := (hall i).1
          rw [he, setSocket_self, hconn.state, hcl] at hst
          cases hst
        by_cases hport : (s.sockets i).localPort = 0
        · have hfree : freePort (setSocket s i { s.sockets i with
              remoteAddr := remote, remotePort := port, localAddr := localAddr }) =
              freePort s := freePort_setSocket hcl hcl
          rw [if_pos hport]
          split_ifs with hzero
          · have hw : ∀ c d, Writes s i d (setSocket (getFreePort (setSocket s i c)).2 i d) :=
              fun c d => ⟨update_idem .., rfl⟩
            rw [(hw _ _).unchanged_iff, hzero]
            simp [Unchanged, hport, hfree.symm.trans hzero, eq_comm]
          · have hzero : freePort s ≠ 0 := fun h => hzero (hfree.trans h)
            exact iff_of_false (hstarted _ _) (by simp [hzero])
        · rw [if_neg hport]
          exact iff_of_false (hstarted _ _) (by simp [hport])

end

/-- Which failing calls leave the connections as they were. -/
theorem failed_calls_keep_iff (s : State) (out : Outside) :
    (∀ socket data, (socketSend s socket data out).2 < 0 →
      ((∀ i, ((socketSend s socket data out).1.sockets i).conn.sndNxt =
        (s.sockets i).conn.sndNxt) ↔ SendKeeps s socket data out)) ∧
    (∀ addr port, (socketCreate s addr port out).2 = none →
      ((∀ i, Unchanged (s.sockets i) ((socketCreate s addr port out).1.sockets i)) ↔
        CreateKeeps s addr port)) ∧
    (∀ l seg, (processSyn s l seg out).2 < 0 →
      (((∀ j, (s.sockets j).state = .closed →
            ((processSyn s l seg out).1.sockets j).state = .closed) ∧
          ((processSyn s l seg out).1.sockets l).listener = (s.sockets l).listener) ↔
        SynKeeps s l)) ∧
    ∀ socket addr port, (socketConnect s socket addr port out).2 < 0 →
      ((∀ j, Unchanged (s.sockets j) ((socketConnect s socket addr port out).1.sockets j)) ↔
        ConnectKeeps s socket addr port out) :=
  ⟨fun _ _ _ => socketSend_keeps_iff, fun _ _ _ => socketCreate_keeps_iff,
    fun _ _ _ => processSyn_keeps_iff, fun _ _ _ _ => socketConnect_keeps_iff⟩

/-- No packet can be allocated. -/
theorem unsent_data_kept :
    let s := setSocket init 0 { Socket.zero with state := .established }
    let out : Outside := ⟨none, true, none, 0, fun _ => ⟨false, fun _ => 0⟩⟩
    let sent := socketSend s (some 0) (some [7]) out
    sent.2 = -1 ∧ ∀ i, (sent.1.sockets i).conn.sndNxt = (s.sockets i).conn.sndNxt :=
  ⟨by decide, ((failed_calls_keep_iff _ _).1 _ _ (by decide)).mpr (by simp [SendKeeps])⟩

/-- `ip_tx` fails, and there is no memory for a receive buffer. -/
theorem failed_calls_change_connections :
    let s := setSocket (setSocket init 0 { Socket.zero with state := .established }) 1
      { Socket.zero with state := .listen, listener := some ⟨1, 0, none⟩ }
    let out : Outside := ⟨none, true, none, 0, fun _ => ⟨true, fun _ => -1⟩⟩
    let sent := socketSend s (some 0) (some [7]) out
    let connected := socketConnect s (some 2) (some ⟨10, 0, 0, 2⟩) 80 out
    let created := socketCreate s none 80 out
    let syn := processSyn s 1 ⟨⟨10, 0, 0, 2⟩, ⟨10, 0, 0, 1⟩, 9, 80, 0, 0, 2, 0, []⟩ out
    sent.2 = -1 ∧ (sent.1.sockets 0).conn.sndNxt ≠ (s.sockets 0).conn.sndNxt ∧
      connected.2 = -1 ∧ (connected.1.sockets 2).remotePort ≠ (s.sockets 2).remotePort ∧
      created.2 = none ∧ (created.1.sockets 2).localPort ≠ (s.sockets 2).localPort ∧
      syn.2 = -1 ∧ (s.sockets 2).state = .closed ∧ (syn.1.sockets 2).state = .synReceived := by
  decide

end UintOS.Tcp
