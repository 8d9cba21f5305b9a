import UintOS.Network.Tcp.Calls

/-!
# The discipline of the state machine

A listener stays one until it is closed; a connection is `ESTABLISHED` when its own `SYN` was
acknowledged; and `FIN_WAIT_2`, and the ends of `CLOSING` and `LAST_ACK`, are reached by an
acknowledgement of everything that was sent.

The code asks for less. A segment with `RST` and an old `TIME_WAIT` entry close listeners;
`tcp_socket_accept` makes half-open connections established; a `SYN` that could not be sent is taken
to be acknowledged; and every new acknowledgement counts as one for the `FIN`. A run is disciplined
exactly if none of this happens.
-/

namespace UintOS.Tcp

open Network Link Runs

/-- The state after the acknowledgement of a segment was served, if the request is one; the
state before otherwise. -/
def afterAck (s : State) (e : Event) : State :=
  match e.request with
  | .rx (some p) =>
    match parse p with
    | none => s
    | some seg =>
      if seg.has tcpFlagRst ∨ seg.has tcpFlagSyn then s
      else
        match seg.target s.sockets with
        | none => s
        | some i => rxAck s i seg e.out
  | _ => s

/-- A socket that was `c` may be `d`, as far as acknowledgements go. -/
structure Entitled (c d : Socket) : Prop where
  established : c.state ≠ .established → d.state = .established → tcpInitialSeq < d.conn.sndUna
  finWait2 : d.state = .finWait2 → d.conn.sndUna = d.conn.sndNxt

/-- The discipline of a request: in the state `afterAck` in between, and in the final state `t`. -/
structure Disciplined (s : State) (e : Event) (t : State) : Prop where
  listen : ∀ i, (s.sockets i).state = .listen → (t.sockets i).state ≠ .listen →
    e.request = .close (some i)
  between : ∀ i, Entitled (s.sockets i) ((afterAck s e).sockets i)
  after : ∀ i, Entitled (s.sockets i) (t.sockets i)
  acked : ∀ i, (s.sockets i).state = .closing ∨ (s.sockets i).state = .lastAck →
    ((afterAck s e).sockets i).state ≠ (s.sockets i).state →
      ((afterAck s e).sockets i).conn.sndUna = ((afterAck s e).sockets i).conn.sndNxt

/-- `tcp_process_ack` takes the acknowledgement. -/
def Valid (c : Socket) (ackNum : UInt32) : Prop :=
  c.conn.sndUna < ackNum ∧ ackNum ≤ c.conn.sndNxt

structure Proper (c : Socket) (seg : Segment) : Prop where
  reset : seg.has tcpFlagRst → c.state ≠ .listen
  synAck : ¬ seg.has tcpFlagRst → seg.has tcpFlagSyn → seg.has tcpFlagAck → c.state = .synSent →
    seg.ackNum = c.conn.sndNxt → tcpInitialSeq < seg.ackNum
  ack : ¬ seg.has tcpFlagRst → ¬ seg.has tcpFlagSyn → seg.has tcpFlagAck →
    c.state = .finWait1 ∨ c.state = .closing ∨ c.state = .lastAck → Valid c seg.ackNum →
      seg.ackNum = c.conn.sndNxt

def Orderly (s : State) (e : Event) : Prop :=
  match e.request with
  | .accept (some l) =>
    ∀ q j, (s.sockets l).state = .listen → (s.sockets l).listener = some q →
      q.pendingConnections = some j → (s.sockets j).state ≠ .synReceived
  | .rx (some p) =>
    ∀ seg i, parse p = some seg → seg.target s.sockets = some i → Proper (s.sockets i) seg
  | .timer _ => ∀ k i, Due s e.out.now k i → (s.sockets i).state ≠ .listen
  | _ => True

structure Sound (c : Socket) : Prop where
  timer : c.conn.timer = 0
  synReceived : c.state = .synReceived → c.conn.sndUna = tcpInitialSeq
  finWait2 : c.state = .finWait2 → c.conn.sndUna = c.conn.sndNxt

variable {c d : Socket} {s t : State} {e : Event} {i : Slot} {out : Outside} {a : TcpState}
  {seg : Segment} {buffer : Option Packet} {ackNum : UInt32} {q : Listener}

theorem Sound.entitled (h : Sound c) : Entitled c c where
  established hne hest := absurd hest hne
  finWait2 := h.finWait2

/-! ## Requests other than segments -/

def SameConn (c d : Socket) : Prop := d.state = c.state ∧ d.conn = c.conn

theorem SameConn.sound (h : SameConn c d) (hc : Sound c) : Sound d where
  timer := by rw [h.2, hc.timer]
  synReceived hd := by rw [h.2, hc.synReceived (h.1 ▸ hd)]
  finWait2 hd := by rw [h.2, hc.finWait2 (h.1 ▸ hd)]

theorem SameConn.entitled (h : SameConn c d) (hc : Sound c) : Entitled c d where
  established hne hest := absurd (h.1.symm.trans hest) hne
  finWait2 := (h.sound hc).finWait2

/-- A request that changes one socket, and does not by an acknowledgement. -/
theorem disciplined_of_change (i : Slot) (hs : ∀ j, Sound (s.sockets j)) (hack : afterAck s e = s)
    (hother : ∀ j, j ≠ i → SameConn (s.sockets j) (t.sockets j))
    (hlis : (s.sockets i).state = .listen →
      (t.sockets i).state = .listen ∨ e.request = .close (some i))
    (hest : (t.sockets i).state = .established →
      (s.sockets i).state = .established ∨ tcpInitialSeq < (t.sockets i).conn.sndUna)
    (hsound : Sound (t.sockets i)) : Disciplined s e t ∧ ∀ j, Sound (t.sockets j) := by
  constructor
  · constructor
    · intro j hj hne
      by_cases hji : j = i
      · subst hji
        exact (hlis hj).resolve_left hne
      · exact absurd ((hother j hji).1.trans hj) hne
    · intro j
      rw [hack]
      exact (hs j).entitled
    · intro j
      by_cases hji : j = i
      · subst hji
        exact ⟨fun hne h => (hest h).resolve_left hne, hsound.finWait2⟩
      · exact (hother j hji).entitled (hs j)
    · intro j _ hne
      rw [hack] at hne
      exact absurd rfl hne
  · intro j
    by_cases hji : j = i
    · subst hji
      exact hsound
    · exact (hother j hji).sound (hs j)

section

variable (hs : ∀ j, Sound (s.sockets j)) (hack : afterAck s e = s)
include hs hack

theorem disciplined_of_sameConn (h : ∀ j, SameConn (s.sockets j) (t.sockets j)) :
    Disciplined s e t ∧ ∀ j, Sound (t.sockets j) := by
  apply disciplined_of_change 0 hs hack (fun j _ => h j)
  · exact fun hlis => .inl ((h 0).1.trans hlis)
  · exact fun hest => .inl ((h 0).1.symm.trans hest)
  · exact (h 0).sound (hs 0)

theorem disciplined_refl : Disciplined s e s ∧ ∀ j, Sound (s.sockets j) :=
  disciplined_of_sameConn hs hack fun _ => ⟨rfl, rfl⟩

theorem disciplined_of_writes (hw : Writes s i d t)
    (hlis : (s.sockets i).state = .listen → d.state = .listen ∨ e.request = .close (some i))
    (hest : d.state = .established →
      (s.sockets i).state = .established ∨ tcpInitialSeq < d.conn.sndUna)
    (hd : Sound d) : Disciplined s e t ∧ ∀ j, Sound (t.sockets j) := by
  apply disciplined_of_change i hs hack
  · intro j hj
    rw [hw.other hj]
    exact ⟨rfl, rfl⟩
  · rwa [hw.self]
  · rwa [hw.self]
  · rwa [hw.self]

end

/-- In the other states a socket needs nothing but a stopped timer. -/
theorem sound_of_state (ht : c.conn.timer = 0) (hsyn : c.state ≠ .synReceived)
    (hfin : c.state ≠ .finWait2) : Sound c where
  timer := ht
  synReceived h := absurd h hsyn
  finWait2 h := absurd h hfin

theorem Harmless.disciplined (h : Harmless s t) (hs : ∀ j, Sound (s.sockets j))
    (hack : afterAck s e = s) : Disciplined s e t ∧ ∀ j, Sound (t.sockets j) := by
  cases h with
  | same hsockets _ =>
    apply disciplined_of_sameConn hs hack
    intro j
    rw [hsockets]
    exact ⟨rfl, rfl⟩
  | @written i c hw hcl hc htimer =>
    have hzero : c.conn.timer = 0 := by
      rcases htimer with h | h
      · rw [h, (hs i).timer]
      · exact h
    apply disciplined_of_writes hs hack hw
    · simp [hcl]
    · simp [hc]
    · exact sound_of_state hzero (by simp [hc]) (by simp [hc])

theorem ClosedBy.disciplined {out : Outside} (h : ClosedBy s i t) (hs : ∀ j, Sound (s.sockets j)) :
    Disciplined s ⟨.close (some i), out⟩ t ∧ ∀ j, Sound (t.sockets j) := by
  cases h with
  | ignored _ => exact disciplined_refl hs rfl
  | listener _ | unsent _ =>
    apply disciplined_of_writes hs rfl (writes_setSocket s i _)
    · exact fun _ => .inr rfl
    · exact nofun
    · exact sound_of_state (hs i).timer nofun nofun
  | fin st n h =>
    apply disciplined_of_writes hs rfl (writes_setSocket s i _)
    · exact fun _ => .inr rfl
    · obtain ⟨-, rfl⟩ | ⟨-, rfl⟩ := h
      · exact nofun
      · exact nofun
    · obtain ⟨-, rfl⟩ | ⟨-, rfl⟩ := h
      · exact sound_of_state (hs i).timer nofun nofun
      · exact sound_of_state (hs i).timer nofun nofun

/-! ## Accepting -/

theorem dequeue_sameConn (s : State) (l j k : Slot) (q : Listener) :
    SameConn (s.sockets k) ((dequeue s l j q).sockets k) := by
  unfold dequeue
  by_cases hk : k = l
  · subst hk
    rw [setSocket_self]
    exact ⟨rfl, rfl⟩
  · rw [setSocket_of_ne s _ hk]
    exact ⟨rfl, rfl⟩

section

variable {msec : UInt32} (hs : ∀ j, Sound (s.sockets j))
include hs

theorem accept_disciplined {l j : Slot} {out : Outside} (hne : (s.sockets j).state ≠ .synReceived) :
    Disciplined s ⟨.accept (some l), out⟩
        (setSocket (dequeue s l j q) j (accepted ((dequeue s l j q).sockets j))) ∧
      ∀ k, Sound ((setSocket (dequeue s l j q) j
        (accepted ((dequeue s l j q).sockets j))).sockets k) := by
  apply disciplined_of_sameConn hs rfl
  intro k
  have hsame := dequeue_sameConn s l j k q
  by_cases hk : k = j
  · subst hk
    rw [setSocket_self, accepted, if_neg (hsame.1 ▸ hne)]
    exact hsame
  · rw [setSocket_of_ne _ _ hk]
    exact hsame

/-- A connection accepted half open is established before its `SYN` is acknowledged. -/
theorem accept_orderly {socket : Option Slot}
    (h : Disciplined s ⟨.accept socket, out⟩ (socketAccept s socket).1) :
    Orderly s ⟨.accept socket, out⟩ := by
  cases socket with
  | none => trivial
  | some l =>
    intro q j hlis hq hj hsyn
    have hafter := h.after j
    have hsame := dequeue_sameConn s l j j q
    rw [socketAccept_eq hlis hq hj, setSocket_self, accepted,
      if_pos (hsame.1.trans hsyn)] at hafter
    have hlt := hafter.established (by simp [hsyn]) rfl
    rw [hsame.2, (hs j).synReceived hsyn] at hlt
    exact absurd hlt (UInt32.lt_irrefl _)

/-! ## The timer -/

theorem timer_disciplined (h : Orderly s ⟨.timer msec, out⟩) :
    Disciplined s ⟨.timer msec, out⟩ (timer s msec out.now) ∧
      ∀ j, Sound ((timer s msec out.now).sockets j) := by
  have htimer : ∀ i, (s.sockets i).conn.timer = 0 := fun i => (hs i).timer
  constructor
  · constructor
    · intro i hlis hne
      rw [(timer_sockets htimer msec out.now i).2 fun k hdue => h k i hdue hlis] at hne
      exact absurd hlis hne
    · exact fun i => (hs i).entitled
    · intro i
      by_cases hdue : ∃ k, Due s out.now k i
      · rw [(timer_sockets htimer msec out.now i).1 hdue]
        exact ⟨nofun, nofun⟩
      · rw [(timer_sockets htimer msec out.now i).2 fun k hk => hdue ⟨k, hk⟩]
        exact (hs i).entitled
    · exact fun i _ hne => absurd rfl hne
  · intro i
    by_cases hdue : ∃ k, Due s out.now k i
    · rw [(timer_sockets htimer msec out.now i).1 hdue]
      exact sound_of_state (hs i).timer nofun nofun
    · rw [(timer_sockets htimer msec out.now i).2 fun k hk => hdue ⟨k, hk⟩]
      exact hs i

/-- An entry that outlived its connection closes the listener now in the slot. -/
theorem timer_orderly (h : Disciplined s ⟨.timer msec, out⟩ (timer s msec out.now)) :
    Orderly s ⟨.timer msec, out⟩ := by
  intro k i hdue hlis
  have hcl := (timer_sockets (fun i => (hs i).timer) msec out.now i).1 ⟨k, hdue⟩
  have hclose := h.listen i hlis (by rw [hcl]; exact nofun)
  cases hclose

end

/-! ## Segments -/

def Acked : TcpState → TcpState → Prop
  | .synSent, t => t = .closed
  | .synReceived, t => t = .established
  | .finWait1, t => t = .finWait2
  | .closing, t => t = .timeWait ∨ t = .closed
  | .lastAck, t => t = .closed
  | s, t => t = s

theorem startTimeWait_spec (s : State) (i : Slot) (c : Socket) (now : UInt32) :
    (((startTimeWait (setSocket s i c) i now).sockets i).state = c.state ∨
      ((startTimeWait (setSocket s i c) i now).sockets i).state = .closed) ∧
      ((startTimeWait (setSocket s i c) i now).sockets i).conn = c.conn := by
  unfold startTimeWait
  split
  · rw [setSocket_self, setSocket_self]
    exact ⟨.inr rfl, rfl⟩
  · rw [setSocket_self]
    exact ⟨.inl rfl, rfl⟩

theorem processAck_of_not_valid {window : UInt16} (h : ¬ Valid (s.sockets i) ackNum) :
    (processAck s i ackNum window out).1 =
      setSocket s i { s.sockets i with conn.sndWnd := window.toUInt32 } := by
  unfold processAck
  rw [if_pos]
  rw [Valid, not_and_or, UInt32.not_lt, UInt32.not_le] at h
  exact h

theorem processAck_of_valid (h : Valid (s.sockets i) ackNum) (window : UInt16) (out : Outside) :
    Acked (s.sockets i).state ((processAck s i ackNum window out).1.sockets i).state ∧
      ((processAck s i ackNum window out).1.sockets i).conn.sndUna = ackNum ∧
      ((processAck s i ackNum window out).1.sockets i).conn.sndNxt = (s.sockets i).conn.sndNxt := by
  have hnot : ¬ (ackNum ≤ (s.sockets i).conn.sndUna ∨ (s.sockets i).conn.sndNxt < ackNum) := by
    rw [not_or, UInt32.not_le, UInt32.not_lt]
    exact h
  unfold processAck
  dsimp only
  rw [if_neg hnot]
  split
  · next hst => simp [hst, Acked]
  · next hst => simp [hst, Acked]
  · next hst => simp [hst, Acked]
  · next hst =>
    rw [(startTimeWait_spec ..).2, hst]
    exact ⟨(startTimeWait_spec ..).1, rfl, rfl⟩
  · next hst => simp [hst, Acked]
  · next h1 h2 h3 h4 h5 =>
    rw [setSocket_self]
    cases hst : (s.sockets i).state <;> simp_all [Acked]

theorem rxData_conn (s : State) (i : Slot) (seg : Segment) (out : Outside) :
    ((rxData s i seg out).sockets i).state = (s.sockets i).state ∧
      ((rxData s i seg out).sockets i).conn.sndUna = (s.sockets i).conn.sndUna ∧
      ((rxData s i seg out).sockets i).conn.sndNxt = (s.sockets i).conn.sndNxt := by
  unfold rxData processData
  dsimp only
  split_ifs
  · simp
  · simp
  · simp
  · simp

theorem rxFin_conn (s : State) (i : Slot) (seg : Segment) (out : Outside) :
    (((rxFin s i seg out).sockets i).state = (s.sockets i).state ∨
      ((rxFin s i seg out).sockets i).state = .closeWait ∨
      ((rxFin s i seg out).sockets i).state = .closing ∨
      ((rxFin s i seg out).sockets i).state = .timeWait ∨
      ((rxFin s i seg out).sockets i).state = .closed) ∧
      ((rxFin s i seg out).sockets i).conn.sndUna = (s.sockets i).conn.sndUna ∧
      ((rxFin s i seg out).sockets i).conn.sndNxt = (s.sockets i).conn.sndNxt := by
  unfold rxFin processFin
  split_ifs
  · simp only [sendSegment_ack]
    split
    · simp
    · simp
    · rw [(startTimeWait_spec ..).2]
      exact ⟨.inr (.inr (.inr (startTimeWait_spec ..).1)), rfl, rfl⟩
    · simp
  · exact ⟨.inl rfl, rfl, rfl⟩

theorem Acked.established (h : Acked a .established) : a = .established ∨ a = .synReceived := by
  cases a <;> simp_all [Acked]

theorem Acked.finWait2 (h : Acked a .finWait2) : a = .finWait2 ∨ a = .finWait1 := by
  cases a <;> simp_all [Acked]

theorem Acked.not_synReceived (h : Acked a .synReceived) : False := by
  cases a <;> simp_all [Acked]

/-- What the acknowledgement of a segment does to the socket it is for. -/
theorem rxAck_cases (s : State) (i : Slot) (seg : Segment) (out : Outside) :
    (((rxAck s i seg out).sockets i).state = (s.sockets i).state ∧
      ((rxAck s i seg out).sockets i).conn.sndUna = (s.sockets i).conn.sndUna ∧
      ((rxAck s i seg out).sockets i).conn.sndNxt = (s.sockets i).conn.sndNxt) ∨
    (seg.has tcpFlagAck ∧ Valid (s.sockets i) seg.ackNum ∧
      Acked (s.sockets i).state ((rxAck s i seg out).sockets i).state ∧
      ((rxAck s i seg out).sockets i).conn.sndUna = seg.ackNum ∧
      ((rxAck s i seg out).sockets i).conn.sndNxt = (s.sockets i).conn.sndNxt) := by
  unfold rxAck
  split_ifs with hack
  · by_cases hvalid : Valid (s.sockets i) seg.ackNum
    · exact Or.inr ⟨hack, hvalid, processAck_of_valid hvalid seg.window out⟩
    · apply Or.inl
      rw [processAck_of_not_valid hvalid, setSocket_self]
      exact ⟨rfl, rfl, rfl⟩
  · exact Or.inl ⟨rfl, rfl, rfl⟩

theorem rxAck_entitled (hs : Sound (s.sockets i)) (hproper : Proper (s.sockets i) seg)
    (hrst : ¬ seg.has tcpFlagRst) (hsyn : ¬ seg.has tcpFlagSyn) (out : Outside) :
    Entitled (s.sockets i) ((rxAck s i seg out).sockets i) := by
  obtain ⟨hstate, huna, hnxt⟩ | ⟨hack, hvalid, hacked, huna, hnxt⟩ := rxAck_cases s i seg out
  · constructor
    · exact fun hne hest => absurd (hstate.symm.trans hest) hne
    · intro hfin
      rw [huna, hnxt]
      exact hs.finWait2 (hstate.symm.trans hfin)
  · constructor
    · intro hne hest
      rw [hest] at hacked
      rw [huna, ← hs.synReceived (hacked.established.resolve_left hne)]
      exact hvalid.1
    · intro hfin
      rw [hfin] at hacked
      rw [huna, hnxt]
      rcases hacked.finWait2 with hfin2 | hfin1
      · -- nothing is left to be acknowledged in this state
        have hlt := hvalid.1
        rw [hs.finWait2 hfin2] at hlt
        exact absurd hvalid.2 (UInt32.not_le.mpr hlt)
      · exact hproper.ack hrst hsyn hack (.inl hfin1) hvalid

section

variable (hs : ∀ j, Sound (s.sockets j))
include hs

theorem served_disciplined (hproper : Proper (s.sockets i) seg)
    (hrst : ¬ seg.has tcpFlagRst) (hsyn : ¬ seg.has tcpFlagSyn)
    (hack : afterAck s e = rxAck s i seg out) :
    Disciplined s e (rxFin (rxData (rxAck s i seg out) i seg out) i seg out) ∧
      ∀ j, Sound ((rxFin (rxData (rxAck s i seg out) i seg out) i seg out).sockets j) := by
  have hserved := rxOrdinary_served s i seg out
  have hservedAck := rxAck_served s i seg out
  have hcases := rxAck_cases s i seg out
  have hent := rxAck_entitled (hs i) hproper hrst hsyn out
  obtain ⟨hdata, hdatauna, hdatanxt⟩ := rxData_conn (rxAck s i seg out) i seg out
  obtain ⟨hfin, hfinuna, hfinnxt⟩ := rxFin_conn (rxData (rxAck s i seg out) i seg out) i seg out
  rw [hdata] at hfin
  rw [hdatauna] at hfinuna
  rw [hdatanxt] at hfinnxt
  generalize rxFin (rxData (rxAck s i seg out) i seg out) i seg out = t at *
  generalize hu : rxAck s i seg out = u at *
  -- a state that `FIN` does not lead to was there before
  have hback : ∀ st, st ≠ .closeWait → st ≠ .closing → st ≠ .timeWait → st ≠ .closed →
      (t.sockets i).state = st → (u.sockets i).state = st := by
    intro st h1 h2 h3 h4 ht
    rw [ht] at hfin
    rcases hfin with h | h | h | h | h
    · exact h.symm
    · exact absurd h h1
    · exact absurd h h2
    · exact absurd h h3
    · exact absurd h h4
  have hafter : Entitled (s.sockets i) (t.sockets i) := by
    constructor
    · intro hne hest
      rw [hfinuna]
      exact hent.established hne (hback .established nofun nofun nofun nofun hest)
    · intro h
      rw [hfinuna, hfinnxt]
      exact hent.finWait2 (hback .finWait2 nofun nofun nofun nofun h)
  constructor
  · constructor
    · intro j hj hne
      by_cases hji : j = i
      · subst hji
        exact absurd (hserved.follows.listen_iff.mpr hj) hne
      · rw [hserved.others j hji] at hne
        exact absurd hj hne
    · intro j
      rw [hack]
      by_cases hji : j = i
      · subst hji
        exact hent
      · rw [hservedAck.others j hji]
        exact (hs j).entitled
    · intro j
      by_cases hji : j = i
      · subst hji
        exact hafter
      · rw [hserved.others j hji]
        exact (hs j).entitled
    · intro j hj hne
      rw [hack] at hne ⊢
      by_cases hji : j = i
      · subst hji
        obtain ⟨hstate, -, -⟩ | ⟨hflag, hvalid, -, huna, hnxt⟩ := hcases
        · exact absurd hstate hne
        · rw [huna, hnxt]
          exact hproper.ack hrst hsyn hflag (.inr hj) hvalid
      · rw [hservedAck.others j hji] at hne
        exact absurd rfl hne
  · intro j
    by_cases hji : j = i
    · subst hji
      constructor
      · exact (congrArg Identity.timer hserved.identity).trans (hs j).timer
      · intro hsynReceived
        have hbef := hback .synReceived nofun nofun nofun nofun hsynReceived
        obtain ⟨hstate, huna, -⟩ | ⟨-, -, hacked, -, -⟩ := hcases
        · rw [hfinuna, huna]
          exact (hs j).synReceived (hstate.symm.trans hbef)
        · rw [hbef] at hacked
          exact hacked.not_synReceived.elim
      · exact hafter.finWait2
    · rw [hserved.others j hji]
      exact hs j

theorem opened_disciplined {l j : Slot}
    (hack : afterAck s e = s) (h : OpensFor s seg l j q) (out : Outside) :
    Disciplined s e (processSyn s l seg out).1 ∧
      ∀ k, Sound ((processSyn s l seg out).1.sockets k) := by
  have hcl : (s.sockets j).state = .closed := firstClosed_eq_some h.slot
  have hsound : ∀ next n b, Sound (opened seg next n b) := fun _ _ _ => ⟨rfl, fun _ => rfl, nofun⟩
  obtain ⟨-, n, b, ht⟩ | ⟨-, n, b, ht⟩ := processSyn_cases h out
  · rw [ht]
    apply disciplined_of_change j hs hack
    · intro k hk
      rw [setSocket_of_ne _ _ hk]
      unfold enqueue
      by_cases hkl : k = l
      · subst hkl
        rw [setSocket_self]
        exact ⟨rfl, rfl⟩
      · rw [setSocket_of_ne _ _ hkl]
        exact ⟨rfl, rfl⟩
    · simp [hcl]
    · rw [setSocket_self]
      exact nofun
    · rw [setSocket_self]
      exact hsound _ _ _
  · rw [ht]
    apply disciplined_of_writes hs hack (writes_setSocket s j _)
    · simp [hcl]
    · exact nofun
    · exact hsound _ _ _

theorem rx_disciplined (h : Orderly s ⟨.rx buffer, out⟩) :
    Disciplined s ⟨.rx buffer, out⟩ (rx s buffer out).1 ∧
      ∀ j, Sound ((rx s buffer out).1.sockets j) := by
  cases buffer with
  | none => exact disciplined_refl hs rfl
  | some p =>
    unfold rx
    rw [Option.bind_some]
    cases hp : parse p with
    | none => exact disciplined_refl hs (by simp [afterAck, hp])
    | some seg =>
      dsimp only
      have hproper : ∀ i, seg.target s.sockets = some i → Proper (s.sockets i) seg :=
        fun i hi => h seg i hp hi
      by_cases hplain : seg.has tcpFlagRst ∨ seg.has tcpFlagSyn
      · have hack : afterAck s ⟨.rx (some p), out⟩ = s := by simp [afterAck, hp, hplain]
        generalize (rxSegment s seg out).1 = t, rxSegment_received s seg out = hrcv
        cases hrcv with
        | ignored _ => exact disciplined_refl hs hack
        | reset i hrst hi =>
          apply disciplined_of_writes hs hack (writes_setSocket s i _)
          · exact fun hlis => absurd hlis ((hproper i hi).reset hrst)
          · exact nofun
          · exact sound_of_state (hs i).timer nofun nofun
        | established i hrst hsyn hflag hi hstate hnum =>
          apply disciplined_of_writes hs hack (writes_setSocket s i _)
          · simp [hstate]
          · exact fun _ => .inr ((hproper i hi).synAck hrst hsyn hflag hstate hnum)
          · exact sound_of_state (hs i).timer nofun nofun
        | opened l j q hopens => exact opened_disciplined hs hack hopens out
        | served i hrst hsyn _ => exact absurd hplain (by simp [hrst, hsyn])
      · obtain ⟨hrst, hsyn⟩ := not_or.mp hplain
        rw [rxSegment, if_neg hrst, if_neg hsyn]
        cases hi : seg.target s.sockets with
        | none => exact disciplined_refl hs (by simp [afterAck, hp, hi])
        | some i =>
          exact served_disciplined hs (hproper i hi) hrst hsyn (by simp [afterAck, hp, hplain, hi])

end

theorem rxSegment_synAck (hrst : ¬ seg.has tcpFlagRst) (hsyn : seg.has tcpFlagSyn)
    (hflag : seg.has tcpFlagAck) (hi : seg.target s.sockets = some i)
    (hstate : (s.sockets i).state = .synSent) (hnum : seg.ackNum = (s.sockets i).conn.sndNxt)
    (out : Outside) :
    ((rxSegment s seg out).1.sockets i).state = .established ∧
      ((rxSegment s seg out).1.sockets i).conn.sndUna = seg.ackNum := by
  unfold rxSegment
  rw [if_neg hrst, if_pos hsyn]
  unfold rxSyn
  rw [hi]
  dsimp only
  rw [if_pos ⟨hflag, hstate⟩, if_neg (not_not.mpr hnum), sendSegment_ack, setSocket_self]
  exact ⟨rfl, rfl⟩

/-- What goes wrong with a segment that is not proper. -/
theorem rx_orderly
    (h : Disciplined s ⟨.rx buffer, out⟩ (rx s buffer out).1) : Orderly s ⟨.rx buffer, out⟩ := by
  cases buffer with
  | none => trivial
  | some p =>
    intro seg i hp hi
    have hrx : (rx s (some p) out) = rxSegment s seg out := by simp [rx, hp]
    rw [hrx] at h
    constructor
    · intro hrst hlis
      rw [rxSegment, if_pos hrst, hi] at h
      have hclose := h.listen i hlis (by rw [setSocket_self]; simp)
      cases hclose
    · intro hrst hsyn hflag hstate hnum
      obtain ⟨hest, huna⟩ := rxSegment_synAck hrst hsyn hflag hi hstate hnum out
      have hlt := (h.after i).established (by simp [hstate]) hest
      rwa [huna] at hlt
    · intro hrst hsyn hflag hstate hvalid
      have hack : (afterAck s ⟨.rx (some p), out⟩) =
        (processAck s i seg.ackNum seg.window out).1 := by
        simp [afterAck, hp, hrst, hsyn, hi, rxAck, hflag]
      obtain ⟨hacked, huna, hnxt⟩ := processAck_of_valid hvalid seg.window out
      have hbetween := (h.between i).finWait2
      have hleft := h.acked i
      rw [hack, huna, hnxt] at hbetween hleft
      rcases hstate with hst | hst | hst
      · rw [hst] at hacked
        exact hbetween hacked
      · apply hleft (.inl hst)
        rw [hst] at hacked ⊢
        rcases hacked with hnew | hnew
        · rw [hnew]
          decide
        · rw [hnew]
          decide
      · apply hleft (.inr hst)
        rw [hst] at hacked ⊢
        rw [hacked]
        decide

/-! ## Runs -/

theorem afterAck_of_unparsed (h : ∀ p, e.request = .rx (some p) → parse p = none) :
    afterAck s e = s := by
  unfold afterAck
  split
  · next p heq => rw [h p heq]
  · rfl

theorem step_disciplined (hs : ∀ j, Sound (s.sockets j)) (h : Orderly s e) :
    Disciplined s e (perform s e.out e.request) ∧
      ∀ j, Sound ((perform s e.out e.request).sockets j) := by
  by_cases hrx : ∃ buffer, e.request = .rx buffer
  · obtain ⟨request, out⟩ := e
    obtain ⟨buffer, rfl⟩ := hrx
    exact rx_disciplined hs h
  · generalize perform s e.out e.request = t, performed s e = hperformed
    cases hperformed with
    | harmless _ _ hharm _ hparse => exact hharm.disciplined hs (afterAck_of_unparsed hparse)
    | listening i _ _ _ _ =>
      apply disciplined_of_writes hs rfl (writes_setSocket s i _)
      · exact fun _ => .inl rfl
      · exact nofun
      · exact sound_of_state (hs i).timer nofun nofun
    | accepting l j q _ hlis hq hj => exact accept_disciplined hs (h q j hlis hq hj)
    | connecting i _ _ _ _ _ c _ hcl hconn hw =>
      apply disciplined_of_writes hs rfl hw
      · simp [hcl]
      · simp [hconn.state]
      · exact sound_of_state (hconn.timer.trans (hs i).timer) (by simp [hconn.state])
          (by simp [hconn.state])
    | closing _ _ _ hcl => exact hcl.disciplined hs
    | sending _ _ _ i _ hest =>
      apply disciplined_of_writes hs rfl (writes_setSocket s i _)
      · exact .inl
      · exact .inl
      · exact sound_of_state (hs i).timer (by simp [hest]) (by simp [hest])
    | receiving _ _ _ _ i _ =>
      apply disciplined_of_writes hs rfl (writes_setSocket s i _)
      · exact .inl
      · exact .inl
      · exact ⟨(hs i).timer, (hs i).synReceived, (hs i).finWait2⟩
    | segment p _ _ _ _ _ => exact absurd ⟨some p, rfl⟩ hrx
    | timer msec _ => exact timer_disciplined hs h

theorem step_orderly (hs : ∀ j, Sound (s.sockets j))
    (h : Disciplined s e (perform s e.out e.request)) : Orderly s e := by
  obtain ⟨request, out⟩ := e
  cases request with
  | accept socket => exact accept_orderly hs h
  | rx buffer => exact rx_orderly h
  | timer msec => exact timer_orderly hs h
  | _ => trivial

theorem init_sound (j : Slot) : Sound (init.sockets j) := ⟨rfl, nofun, nofun⟩

/-- A run from `tcp_init` is disciplined exactly if all its requests are orderly. -/
theorem disciplined_iff (events : List Event) :
    Meets step (fun s e => ∀ t, step s e = some t → Disciplined s e t) init events ↔
      Meets step Orderly init events := by
  apply meets_congr step (I := fun s => ∀ j, Sound (s.sockets j))
  · intro s e t hs hok hstep
    cases hstep
    exact (step_disciplined hs hok).2
  · intro s e hs
    constructor
    · exact fun h => step_orderly hs (h _ rfl)
    · intro h t hstep
      cases hstep
      exact (step_disciplined hs h).1
  · exact init_sound

/-- An acknowledgement of the first byte of `10.0.0.1:80` after its `SYN`. -/
def ackPacket : Packet where
  bytes := [15, 160, 0, 80, 0, 0, 0, 8, 1, 2, 3, 6, 80, 16, 4, 0, 131, 210, 0, 0]
  src := ⟨10, 0, 0, 2⟩
  dest := ⟨10, 0, 0, 1⟩

/-- A connection sends three bytes and is closed; the `ACK` of the first moves it to `FIN_WAIT_2`.
-/
theorem first_ack_taken_for_fin : ∃ s, exec step init [⟨.create (some ⟨10, 0, 0, 1⟩) 80, plenty⟩,
        ⟨.connect (some 0) (some ⟨10, 0, 0, 2⟩) 4000, plenty⟩, ⟨.rx (some synAckPacket), plenty⟩,
        ⟨.send (some 0) (some [1, 2, 3]), plenty⟩, ⟨.close (some 0), plenty⟩,
        ⟨.rx (some ackPacket), plenty⟩] = some s ∧
      (s.sockets 0).state = .finWait2 ∧ (s.sockets 0).conn.sndUna = tcpInitialSeq + 2 ∧
      (s.sockets 0).conn.sndNxt = tcpInitialSeq + 5 := by
  refine ⟨_, rfl, ?_, ?_, ?_⟩
  · decide
  · decide
  · decide

/-! ## Acknowledgements that wrap around -/

/-- The number lies in the circular interval from `snd_una`, exclusive, to `snd_nxt`, inclusive. -/
def InWindow (c : Socket) (ackNum : UInt32) : Prop :=
  0 < ackNum - c.conn.sndUna ∧ ackNum - c.conn.sndUna ≤ c.conn.sndNxt - c.conn.sndUna

instance (c : Socket) (ackNum : UInt32) : Decidable (InWindow c ackNum) :=
  inferInstanceAs (Decidable (_ ∧ _))

/-- An acknowledgement in the interval is taken, any other leaves `snd_una` and the state. -/
def AcksModular (s : State) (i : Slot) (window : UInt16) (out : Outside) (ackNum : UInt32) : Prop :=
  let c := (processAck s i ackNum window out).1.sockets i
  (InWindow (s.sockets i) ackNum → c.conn.sndUna = ackNum) ∧ (¬ InWindow (s.sockets i) ackNum →
      c.conn.sndUna = (s.sockets i).conn.sndUna ∧ c.state = (s.sockets i).state)

theorem valid_iff_inWindow {c : Socket} (h : c.conn.sndUna ≤ c.conn.sndNxt) (ackNum : UInt32) :
    Valid c ackNum ↔ InWindow c ackNum := by
  have hack := ackNum.toNat_lt
  have hnxt := c.conn.sndNxt.toNat_lt
  simp only [Valid, InWindow, UInt32.lt_iff_toNat_lt, UInt32.le_iff_toNat_le, UInt32.toNat_sub,
    UInt32.toNat_zero] at h ⊢
  omega

/-- The next acknowledgement after a wrap is in the interval, and is not taken. -/
theorem next_of_wrapped {c : Socket} (h : c.conn.sndNxt < c.conn.sndUna) :
    InWindow c (c.conn.sndUna + 1) ∧ ¬ Valid c (c.conn.sndUna + 1) := by
  have huna := c.conn.sndUna.toNat_lt
  simp only [Valid, InWindow, UInt32.lt_iff_toNat_lt, UInt32.le_iff_toNat_le, UInt32.toNat_sub,
    UInt32.toNat_add, UInt32.toNat_zero, UInt32.toNat_one] at h ⊢
  omega

/-- Acknowledgements are processed modulo `2 ^ 32` exactly while `snd_nxt` has not wrapped around.
-/
theorem acks_modular_iff (s : State) (i : Slot) (window : UInt16) (out : Outside) :
    (∀ ackNum, AcksModular s i window out ackNum) ↔
      (s.sockets i).conn.sndUna ≤ (s.sockets i).conn.sndNxt := by
  constructor
  · intro h
    by_contra hwrap
    obtain ⟨hin, hnot⟩ := next_of_wrapped (UInt32.not_le.mp hwrap)
    have htaken := (h _).1 hin
    rw [processAck_of_not_valid hnot, setSocket_self] at htaken
    simp at htaken
  · intro h ackNum
    rw [AcksModular, ← valid_iff_inWindow h]
    refine ⟨fun hvalid => (processAck_of_valid hvalid window out).2.1, fun hnot => ?_⟩
    rw [processAck_of_not_valid hnot, setSocket_self]
    exact ⟨rfl, rfl⟩

/-- A connection with two bytes not acknowledged, the first before the wrap. -/
def wrapped : State :=
  setSocket init ⟨0, by decide⟩ { Socket.zero with
    state := .established
    conn.sndUna := 0xFFFFFFFF
    conn.sndNxt := 1 }

theorem wrapped_ack_ignored :
    (wrapped.sockets 0).conn.sndNxt - (wrapped.sockets 0).conn.sndUna < 0x80000000 ∧
      InWindow (wrapped.sockets 0) 0 ∧
      ((processAck wrapped 0 0 1024 plenty).1.sockets 0).conn.sndUna = 0xFFFFFFFF := by
  decide

end UintOS.Tcp
