import UintOS.Library.Links
import UintOS.Network.Tcp.Timers

/-!
# Who a slot belongs to

A slot is free for the code when its state is `CLOSED`. Its users are the program that got it from
`tcp_socket_create` or `tcp_socket_accept`, a listener that has it in its list of pending
connections, and the `TIME_WAIT` table. `Client` keeps, beside the modelled state, which slots the
program holds and which connections wait for which listener.

The code does not keep them apart: a created socket is `CLOSED`, so its slot is free for the next
call or a connection request; and `RST` makes a slot free without telling the listener or the timer.
Slots are not aliased as long as that does not happen.
-/

namespace UintOS.Tcp

open Link Links List Network Option Runs

/-! ## The users of the slots -/

/-- The state and its users: `held` are the slots that `tcp_socket_create` and `tcp_socket_accept`
returned and whose close is not completed, `closing` those that `tcp_socket_close` was called for,
`waiting` the listener a connection was opened for while neither accepted nor closed, and `aliased`
says whether a slot was returned while held. -/
structure Client where
  tcp : State
  held : Slot → Bool
  closing : Slot → Bool
  waiting : Slot → Option Slot
  aliased : Bool

def returned (s : State) (e : Event) : Option Slot :=
  match e.request with
  | .create localAddr localPort => (socketCreate s localAddr localPort e.out).2
  | .accept socket => (socketAccept s socket).2
  | _ => none

/-- The connection that is opened for a `SYN`, and its listener. -/
def openedFor (s : State) (e : Event) : Option (Slot × Slot) :=
  match e.request with
  | .rx (some p) =>
    match parse p with
    | none => none
    | some seg =>
      match seg.target s.sockets, firstClosed s.sockets with
      | some l, some j =>
        if ¬ seg.has tcpFlagRst ∧ seg.has tcpFlagSyn ∧ (s.sockets l).state = .listen ∧
            (s.sockets l).listener.any (fun q => q.pendingCount < q.backlog) ∧
              e.out.block.isSome then
          some (j, l)
        else none
      | _, _ => none
  | _ => none

variable (g : Client)

def closingAfter (e : Event) (i : Slot) : Bool :=
  if returned g.tcp e = some i then false else g.closing i || e.request = .close (some i)

/-- The listener a connection was opened for, while it is one. -/
def waitsFor (e : Event) (i : Slot) : Option Slot :=
  match openedFor g.tcp e with
  | none => g.waiting i
  | some (j, l) => if i = j then some l else g.waiting i

def waitingAfter (e : Event) (i : Slot) : Option Slot :=
  if ((perform g.tcp e.out e.request).sockets i).state = .closed ∨
      returned g.tcp e = some i ∨ e.request = .close (some i) then none
  else
    (waitsFor g e i).filter fun l =>
      ((perform g.tcp e.out e.request).sockets l).state = .listen

/-- A request, with the users of the slots updated. -/
def clientStep (e : Event) : Option Client :=
  some {
    tcp := perform g.tcp e.out e.request
    held := fun i => (g.held i || returned g.tcp e = some i) &&
      !(closingAfter g e i && ((perform g.tcp e.out e.request).sockets i).state = .closed)
    closing := closingAfter g e
    waiting := waitingAfter g e
    aliased := g.aliased || (returned g.tcp e).any g.held }

def clientInit : Client := ⟨init, fun _ => false, fun _ => false, fun _ => none, false⟩

/-- The cells from `pending_connections` on, as many as `pending_count` says, all of them waiting
for this listener. -/
def ListOk (l : Slot) (q : Listener) (list : List Slot) : Prop :=
  list.Nodup ∧ q.pendingConnections = list.head? ∧ Chain (fun j => (g.tcp.sockets j).next) list ∧
    q.pendingCount.toNat = list.length ∧ ∀ j ∈ list, g.waiting j = some l

structure NotAliased (g : Client) : Prop where
  returns : g.aliased = false
  timers : ∀ k i, (g.tcp.timeWait k).socket = some i → (g.tcp.sockets i).state = .timeWait
  expires : ∀ msec now i,
    ((timer g.tcp msec now).sockets i).state ≠ (g.tcp.sockets i).state →
      (g.tcp.sockets i).state = .timeWait
  pending : ∀ l, (g.tcp.sockets l).state = .listen →
    ∃ q list, (g.tcp.sockets l).listener = some q ∧ ListOk g l q list

/-- A slot that is taken is not held; a connection that waits for its listener is not closed or
reset, and a socket in `TIME_WAIT` is not reset. -/
def Careful (e : Event) : Prop :=
  match e.request with
  | .create _ _ => ∀ i, firstClosed g.tcp.sockets = some i → g.held i = false
  | .close (some i) => g.waiting i = none
  | .rx (some p) =>
    ∀ seg, parse p = some seg → (seg.has tcpFlagRst → ∀ i, seg.target g.tcp.sockets = some i →
        (g.tcp.sockets i).state ≠ .timeWait ∧ g.waiting i = none) ∧
      ∀ l j q, OpensFor g.tcp seg l j q → g.held j = false
  | _ => True

/-! ## The requests -/

def Pendable (st : TcpState) : Prop := st = .synReceived ∨ st = .established ∨ st = .closeWait

theorem Pendable.follows {a b : TcpState} (ha : Pendable a) (h : Follows a b) : Pendable b := by
  rcases ha with rfl | rfl | rfl
  · exact h
  · exact .inr h
  · exact .inr (.inr h)

theorem Pendable.ne {a b : TcpState} (ha : Pendable a) (hb : ¬ Pendable b) : a ≠ b := by
  rintro rfl
  exact hb ha

theorem not_pendable_closed : ¬ Pendable .closed := by simp [Pendable]

theorem not_pendable_listen : ¬ Pendable .listen := by simp [Pendable]

structure Inv (g : Client) : Prop where
  returns : g.aliased = false
  timers : TimersOk g.tcp
  waits : ∀ j l, g.waiting j = some l → Pendable (g.tcp.sockets j).state ∧ g.held j = false
  pending : ∀ l, (g.tcp.sockets l).state = .listen →
    ∃ q list, (g.tcp.sockets l).listener = some q ∧ ListOk g l q list

variable {g : Client} {s t : State} {e : Event} {i j l l' : Slot} {p : Packet} {seg : Segment}
  {q : Listener} {out : Outside} {c : Socket}

theorem Inv.notAliased (h : Inv g) : NotAliased g where
  returns := h.returns
  timers := h.timers.entries
  expires _ _ _ hne := h.timers.timer_closes hne
  pending := h.pending

theorem returned_cases (h : returned s e = some i) :
    (∃ addr port, e.request = .create addr port ∧ firstClosed s.sockets = some i) ∨
      ∃ l q, e.request = .accept (some l) ∧ (s.sockets l).state = .listen ∧
        (s.sockets l).listener = some q ∧ q.pendingConnections = some i := by
  obtain ⟨request, out⟩ := e
  unfold returned at h
  split at h
  · next addr port heq =>
    apply Or.inl
    refine ⟨addr, port, heq, ?_⟩
    obtain hnone | ⟨j, c, hj, -, -, -, hret | hret⟩ := socketCreate_cases s addr port out
    · rw [hnone] at h
      cases h
    · rw [hret] at h
      cases h
    · rw [hret] at h
      cases h
      exact hj
  · next socket heq =>
    apply Or.inr
    obtain hnone | ⟨l, j, q, rfl, hlis, hq, hj⟩ := socketAccept_cases s socket
    · rw [hnone] at h
      cases h
    · rw [socketAccept_eq hlis hq hj] at h
      cases h
      exact ⟨l, q, heq, hlis, hq, hj⟩
  · cases h

theorem openedFor_some (h : openedFor s e = some (j, l)) :
    ∃ p seg q, e.request = .rx (some p) ∧ parse p = some seg ∧ OpensFor s seg l j q ∧
      e.out.block.isSome := by
  unfold openedFor at h
  split at h
  · next p heq =>
    split at h
    · cases h
    · next seg hseg =>
      split at h
      · next l' j' hl hj =>
        split_ifs at h with hcond
        cases h
        obtain ⟨hrst, hsyn, hlis, hroom, hblock⟩ := hcond
        cases hq : (s.sockets l).listener with
        | none => simp [hq] at hroom
        | some q =>
          rw [hq, any_some, decide_eq_true_eq] at hroom
          exact ⟨p, seg, q, heq, hseg, ⟨hrst, hsyn, hl, hlis, hq, hroom, hj⟩, hblock⟩
      · cases h
  · cases h

theorem openedFor_of_opens (hp : parse p = some seg) (h : OpensFor s seg l j q)
    (hblock : out.block.isSome) : openedFor s ⟨.rx (some p), out⟩ = some (j, l) := by
  have hroom : (s.sockets l).listener.any (fun q => q.pendingCount < q.backlog) := by
    simp [h.listener, h.room]
  simp only [openedFor, hp, h.target, h.slot]
  rw [if_pos ⟨h.noReset, h.syn, h.listening, hroom, hblock⟩]

theorem openedFor_closed (h : openedFor s e = some (j, l)) : (s.sockets j).state = .closed := by
  obtain ⟨_, _, _, _, _, hopens, _⟩ := openedFor_some h
  exact firstClosed_eq_some hopens.slot

def Keeps (s t : State) (j : Slot) : Prop :=
  (Pendable (s.sockets j).state → Pendable (t.sockets j).state) ∧
    (t.sockets j).next = (s.sockets j).next

theorem keeps_of_eq (h : t.sockets j = s.sockets j) : Keeps s t j := by
  rw [Keeps, h]
  exact ⟨id, rfl⟩

/-- A slot that cannot be waiting was written. -/
theorem keeps_of_writes (hw : Writes s i c t) (hi : ¬ Pendable (s.sockets i).state)
    (hj : Pendable (s.sockets j).state) : Keeps s t j := by
  apply keeps_of_eq
  apply hw.other
  rintro rfl
  exact hi hj

theorem Harmless.keeps (h : Harmless s t) (hj : Pendable (s.sockets j).state) : Keeps s t j := by
  cases h with
  | same hsockets _ => exact keeps_of_eq (by rw [hsockets])
  | written hw hs _ _ => exact keeps_of_writes hw (by rw [hs]; exact not_pendable_closed) hj

theorem Served.keeps (h : Served i s t) : Keeps s t j := by
  by_cases hj : j = i
  · subst hj
    exact ⟨fun hp => hp.follows h.follows, congrArg Identity.next h.identity⟩
  · exact keeps_of_eq (h.others j hj)

theorem Received.keeps (h : Received s seg out t) (hj : Pendable (s.sockets j).state)
    (hreset : seg.has tcpFlagRst → seg.target s.sockets ≠ some j) : Keeps s t j := by
  cases h with
  | ignored _ => exact keeps_of_eq rfl
  | reset i hrst hi =>
    apply keeps_of_eq
    apply setSocket_of_ne
    rintro rfl
    exact hreset hrst hi
  | established i _ _ _ _ hst _ =>
    exact keeps_of_writes (writes_setSocket s i _) (by rw [hst]; simp [Pendable]) hj
  | opened l k q hopens =>
    have hk : j ≠ k := by
      rintro rfl
      exact hj.ne not_pendable_closed (firstClosed_eq_some hopens.slot)
    have hl : j ≠ l := by
      rintro rfl
      exact hj.ne not_pendable_listen hopens.listening
    apply keeps_of_eq
    obtain ⟨-, n, b, ht⟩ | ⟨-, n, b, ht⟩ := processSyn_cases hopens out
    · rw [ht, setSocket_of_ne _ _ hk, enqueue, setSocket_of_ne _ _ hl]
    · rw [ht, setSocket_of_ne _ _ hk]
  | served i _ _ _ => exact (rxOrdinary_served s i seg out).keeps

theorem ClosedBy.keeps (h : ClosedBy s i t) (hij : j ≠ i) : Keeps s t j := by
  cases h with
  | ignored _ => exact keeps_of_eq rfl
  | listener _ | unsent _ | fin st n _ => exact keeps_of_eq (setSocket_of_ne s _ hij)

theorem keeps_setSocket (hst : c.state = (s.sockets i).state)
    (hnext : c.next = (s.sockets i).next) : Keeps s (setSocket s i c) j := by
  by_cases hj : j = i
  · subst hj
    rw [Keeps, setSocket_self, hst]
    exact ⟨id, hnext⟩
  · exact keeps_of_eq (setSocket_of_ne s c hj)

theorem TimersOk.keeps (h : TimersOk s) (hj : Pendable (s.sockets j).state) (msec now : UInt32) :
    Keeps s (Tcp.timer s msec now) j := by
  apply keeps_of_eq
  apply (timer_sockets h.stopped msec now j).2
  rintro k ⟨hk, -⟩
  rw [h.entries k j hk] at hj
  simp [Pendable] at hj

/-- A connection that waits for a listener and is not accepted goes on waiting. -/
theorem Inv.keeps (h : Inv g) (hcare : Careful g e) (hw : g.waiting j = some l)
    (hret : returned g.tcp e ≠ some j) : Keeps g.tcp (perform g.tcp e.out e.request) j := by
  obtain ⟨hj, -⟩ := h.waits j l hw
  generalize perform g.tcp e.out e.request = t, performed g.tcp e = hperformed
  cases hperformed with
  | harmless _ _ h _ _ => exact h.keeps hj
  | listening i _ _ _ hcl =>
    exact keeps_of_writes (writes_setSocket _ i _) (by rw [hcl]; exact not_pendable_closed) hj
  | accepting l k q _ hlis hq hk =>
    have hne : j ≠ k := by
      rintro rfl
      exact hret (congrArg Prod.snd (socketAccept_eq hlis hq hk))
    have hl : j ≠ l := by
      rintro rfl
      exact hj.ne not_pendable_listen hlis
    apply keeps_of_eq
    rw [setSocket_of_ne _ _ hne, dequeue, setSocket_of_ne _ _ hl]
  | connecting i _ _ _ _ _ c _ hcl _ hw =>
    exact keeps_of_writes hw (by rw [hcl]; exact not_pendable_closed) hj
  | closing i _ _ h =>
    apply h.keeps
    rintro rfl
    have hnone : g.waiting j = none := hcare
    rw [hw] at hnone
    cases hnone
  | sending _ _ _ i n _ | receiving _ _ _ _ i b => exact keeps_setSocket rfl rfl
  | segment p seg _ hp _ hrcv =>
    apply hrcv.keeps hj
    intro hrst htarget
    have hnone := ((hcare seg hp).1 hrst j htarget).2
    rw [hw] at hnone
    cases hnone
  | timer msec out => exact h.timers.keeps hj msec out.now

/-! ## The listeners over a request -/

/-- What a request can do to a listener: nothing, or it is new, or it gets a connection, or
its first connection is accepted. -/
inductive ListenerStep (s : State) (e : Event) (t : State) (l : Slot) : Prop
  | kept (hlis : (s.sockets l).state = .listen)
    (h : (t.sockets l).listener = (s.sockets l).listener)
    (hret : e.request = .accept (some l) → returned s e = none)
  | fresh (limit : UInt16) (h : (t.sockets l).listener = some ⟨limit, 0, none⟩)
  | enqueued (j : Slot) (q : Listener) (hlis : (s.sockets l).state = .listen)
    (hq : (s.sockets l).listener = some q) (hroom : q.pendingCount < q.backlog)
    (hopened : openedFor s e = some (j, l))
    (h : (t.sockets l).listener = some ⟨q.backlog, q.pendingCount + 1, some j⟩)
    (hnext : (t.sockets j).next = q.pendingConnections)
    (hst : (t.sockets j).state = .synReceived)
  | dequeued (j : Slot) (q : Listener) (hlis : (s.sockets l).state = .listen)
    (hq : (s.sockets l).listener = some q) (hj : q.pendingConnections = some j)
    (hret : returned s e = some j)
    (h : (t.sockets l).listener = some ⟨q.backlog, q.pendingCount - 1, (s.sockets j).next⟩)

section

variable (hret : e.request = .accept (some l) → returned s e = none)
  (hl : (t.sockets l).state = .listen)
include hret hl

theorem listenerStep_same (h : t.sockets l = s.sockets l) : ListenerStep s e t l :=
  ListenerStep.kept (h ▸ hl) (by rw [h]) hret

theorem listenerStep_writes (hw : Writes s i c t) (hc : c.state ≠ .listen) :
    ListenerStep s e t l := by
  apply listenerStep_same hret hl (hw.other _)
  rintro rfl
  rw [hw.self] at hl
  exact hc hl

theorem Harmless.listenerStep (h : Harmless s t) : ListenerStep s e t l := by
  cases h with
  | same hsockets _ => exact listenerStep_same hret hl (by rw [hsockets])
  | written hw _ hc _ => exact listenerStep_writes hret hl hw (by simp [hc])

theorem Served.listenerStep (h : Served i s t) : ListenerStep s e t l := by
  by_cases hli : l = i
  · subst hli
    exact ListenerStep.kept (h.follows.listen_iff.mp hl)
      (congrArg Identity.listener h.identity) hret
  · exact listenerStep_same hret hl (h.others l hli)

theorem ClosedBy.listenerStep (h : ClosedBy s i t) : ListenerStep s e t l := by
  cases h with
  | ignored _ => exact listenerStep_same hret hl rfl
  | listener _ | unsent _ => exact listenerStep_writes hret hl (writes_setSocket s i _) (by simp)
  | fin st n h =>
    refine listenerStep_writes hret hl (writes_setSocket s i _) ?_
    obtain ⟨-, rfl⟩ | ⟨-, rfl⟩ := h
    · simp
    · simp

end

theorem accept_listenerStep (out : Outside)
    (hlis : (s.sockets l').state = .listen) (hq : (s.sockets l').listener = some q)
    (hj : q.pendingConnections = some j)
    (hl : ((setSocket (dequeue s l' j q) j (accepted ((dequeue s l' j q).sockets j))).sockets
      l).state = .listen) :
    ListenerStep s ⟨.accept (some l'), out⟩
      (setSocket (dequeue s l' j q) j (accepted ((dequeue s l' j q).sockets j))) l := by
  by_cases hll : l = l'
  · subst hll
    refine ListenerStep.dequeued j q hlis hq hj
      (congrArg Prod.snd (socketAccept_eq hlis hq hj)) ?_
    by_cases hjl : l = j
    · subst hjl
      rw [setSocket_self]
      unfold accepted dequeue
      rw [setSocket_self]
    · rw [setSocket_of_ne _ _ hjl, dequeue, setSocket_self]
  · have hret : Request.accept (some l') = .accept (some l) →
        returned s ⟨.accept (some l'), out⟩ = none := by
      simp [Ne.symm hll]
    by_cases hlj : l = j
    · subst hlj
      rw [setSocket_self] at hl
      refine ListenerStep.kept ?_ ?_ hret
      · rw [accepted, dequeue, setSocket_of_ne _ _ hll] at hl
        split_ifs at hl
        exact hl
      · rw [setSocket_self, accepted, dequeue, setSocket_of_ne _ _ hll]
    · refine listenerStep_same hret hl ?_
      rw [setSocket_of_ne _ _ hlj, dequeue, setSocket_of_ne _ _ hll]

theorem listenerStep_setSocket (hst : c.state = (s.sockets i).state)
    (hc : c.listener = (s.sockets i).listener)
    (hret : e.request = .accept (some l) → returned s e = none)
    (hl : ((setSocket s i c).sockets l).state = .listen) :
    ListenerStep s e (setSocket s i c) l := by
  by_cases hli : l = i
  · subst hli
    rw [setSocket_self, hst] at hl
    exact ListenerStep.kept hl (by rwa [setSocket_self]) hret
  · exact listenerStep_same hret hl (setSocket_of_ne s c hli)

theorem opened_listenerStep (hp : parse p = some seg) (hopens : OpensFor s seg l' j q)
    (hl : ((processSyn s l' seg out).1.sockets l).state = .listen) :
    ListenerStep s ⟨.rx (some p), out⟩ (processSyn s l' seg out).1 l := by
  obtain ⟨hblock, n, b, ht⟩ | ⟨-, n, b, ht⟩ := processSyn_cases hopens out
  · rw [ht] at hl ⊢
    have hlj : l ≠ j := by
      rintro rfl
      rw [setSocket_self] at hl
      cases hl
    by_cases hll : l = l'
    · subst hll
      apply ListenerStep.enqueued j q hopens.listening hopens.listener hopens.room
        (openedFor_of_opens hp hopens hblock)
      · rw [setSocket_of_ne _ _ hlj, enqueue, setSocket_self]
      · rw [setSocket_self]
        rfl
      · rw [setSocket_self]
        rfl
    · refine listenerStep_same (by simp) hl ?_
      rw [setSocket_of_ne _ _ hlj, enqueue, setSocket_of_ne _ _ hll]
  · rw [ht] at hl ⊢
    exact listenerStep_writes (by simp) hl (writes_setSocket s j _) (by simp [opened, synSocket])

theorem Received.listenerStep (h : Received s seg out t) (hp : parse p = some seg)
    (hl : (t.sockets l).state = .listen) : ListenerStep s ⟨.rx (some p), out⟩ t l := by
  cases h with
  | ignored _ => exact listenerStep_same (by simp) hl rfl
  | reset i _ _ => exact listenerStep_writes (by simp) hl (writes_setSocket s i _) (by simp)
  | established i _ _ _ _ _ _ =>
    exact listenerStep_writes (by simp) hl (writes_setSocket s i _) (by simp)
  | opened l' j q hopens => exact opened_listenerStep hp hopens hl
  | served i _ _ _ => exact (rxOrdinary_served s i seg out).listenerStep (by simp) hl

theorem TimersOk.listenerStep (h : TimersOk s) (msec : UInt32) (out : Outside)
    (hl : ((Tcp.timer s msec out.now).sockets l).state = .listen) :
    ListenerStep s ⟨.timer msec, out⟩ (Tcp.timer s msec out.now) l := by
  refine listenerStep_same (by simp) hl ?_
  apply (timer_sockets h.stopped msec out.now l).2
  intro k hdue
  rw [(timer_sockets h.stopped msec out.now l).1 ⟨k, hdue⟩] at hl
  cases hl

theorem listenerStep (hs : TimersOk s)
    (hl : ((perform s e.out e.request).sockets l).state = .listen) :
    ListenerStep s e (perform s e.out e.request) l := by
  generalize perform s e.out e.request = t, performed s e = h at hl ⊢
  cases h with
  | harmless _ _ h haccept _ =>
    apply h.listenerStep _ hl
    intro heq
    simp only [returned, heq]
    exact haccept _ heq
  | listening i _ limit _ _ =>
    by_cases hli : l = i
    · subst hli
      exact ListenerStep.fresh limit (by rw [setSocket_self])
    · exact listenerStep_same (by simp) hl (setSocket_of_ne s _ hli)
  | accepting l' j q out hlis hq hj => exact accept_listenerStep out hlis hq hj hl
  | connecting i _ _ _ _ _ c _ _ hconn hw =>
    exact listenerStep_writes (by simp) hl hw (by simp [hconn.state])
  | closing i _ _ h => exact h.listenerStep (by simp) hl
  | sending _ _ _ i n _ | receiving _ _ _ _ i b => exact listenerStep_setSocket rfl rfl (by simp) hl
  | segment p seg _ hp _ h => exact h.listenerStep hp hl
  | timer msec out => exact hs.listenerStep msec out hl

/-! ## Runs -/

theorem openedFor_state (h : openedFor s e = some (j, l)) :
    ((perform s e.out e.request).sockets j).state = .synReceived := by
  obtain ⟨p, seg, q, hreq, hp, hopens, -⟩ := openedFor_some h
  have hrx : perform s e.out e.request = (processSyn s l seg e.out).1 := by
    rw [hreq, ← rxSegment_of_opens hopens]
    simp only [perform, rx, bind_some, hp]
  rw [hrx]
  obtain ⟨-, n, b, ht⟩ | ⟨-, n, b, ht⟩ := processSyn_cases hopens e.out
  · rw [ht, setSocket_self]
    rfl
  · rw [ht, setSocket_self]
    rfl

/-- A connection that waits for a listener that stays one goes on waiting for it. -/
theorem Inv.waitingAfter (h : Inv g) (hcare : Careful g e) (hw : g.waiting j = some l)
    (hret : returned g.tcp e ≠ some j)
    (hl : ((perform g.tcp e.out e.request).sockets l).state = .listen) :
    waitingAfter g e j = some l := by
  have hpend := (h.keeps hcare hw hret).1 (h.waits j l hw).1
  have hclose : e.request ≠ .close (some j) := by
    intro hreq
    have hnone : g.waiting j = none := by simpa [Careful, hreq] using hcare
    rw [hw] at hnone
    cases hnone
  have hwaits : waitsFor g e j = some l := by
    unfold waitsFor
    cases ho : openedFor g.tcp e with
    | none => exact hw
    | some p =>
      have hne : j ≠ p.1 := by
        rintro rfl
        exact (h.waits _ l hw).1.ne not_pendable_closed (openedFor_closed ho)
      dsimp only
      rwa [if_neg hne]
  unfold Tcp.waitingAfter
  rw [if_neg, hwaits, filter_some, if_pos]
  · simpa using hl
  · rintro (hcl | hr | hreq)
    · exact hpend.ne not_pendable_closed hcl
    · exact hret hr
    · exact hclose hreq

theorem Inv.waiting_head (h : Inv g) (hlis : (g.tcp.sockets l).state = .listen)
    (hq : (g.tcp.sockets l).listener = some q) (hhead : q.pendingConnections = some i) :
    g.waiting i = some l := by
  obtain ⟨q', list, hq', -, hhead', -, -, hwait⟩ := h.pending l hlis
  rw [hq] at hq'
  cases hq'
  exact hwait i (mem_of_mem_head? (hhead'.symm.trans hhead ▸ rfl))

/-- A connection that a call returns does not wait for another listener. -/
theorem Inv.returned_ne (h : Inv g) (hw : g.waiting j = some l)
    (hret : e.request = .accept (some l) → returned g.tcp e = none) :
    returned g.tcp e ≠ some j := by
  intro hj
  obtain ⟨addr, port, -, hcl⟩ | ⟨l', q, hreq, hlis, hq, hhead⟩ := returned_cases hj
  · exact (h.waits j l hw).1.ne not_pendable_closed (firstClosed_eq_some hcl)
  · have hl : l' = l :=
      some_injective _ ((h.waiting_head hlis hq hhead).symm.trans hw)
    rw [hret (hl ▸ hreq)] at hj
    cases hj

section

variable {t : Client} (h : Inv g) (hcare : Careful g e)
include h hcare

theorem Inv.held_returned (hret : returned g.tcp e = some i) : g.held i = false := by
  obtain ⟨addr, port, hreq, hcl⟩ | ⟨l, q, -, hlis, hq, hhead⟩ := returned_cases hret
  · simp only [Careful, hreq] at hcare
    exact hcare i hcl
  · exact (h.waits i l (h.waiting_head hlis hq hhead)).2

theorem Inv.listOk (hstep : clientStep g e = some t)
    {list : List Slot} (hl : ((perform g.tcp e.out e.request).sockets l).state = .listen)
    (hnd : list.Nodup) (hhead : q.pendingConnections = list.head?)
    (hchain : Chain (fun j => (g.tcp.sockets j).next) list)
    (hcount : q.pendingCount.toNat = list.length) (hwait : ∀ j ∈ list, g.waiting j = some l)
    (hret : ∀ j ∈ list, returned g.tcp e ≠ some j) : ListOk t l q list := by
  cases hstep
  refine ⟨hnd, hhead, ?_, hcount, ?_⟩
  · exact hchain.congr fun j hj => (h.keeps hcare (hwait j hj) (hret j hj)).2
  · exact fun j hj => h.waitingAfter hcare (hwait j hj) (hret j hj) hl

theorem Inv.pendingStep (hstep : clientStep g e = some t) (hl : (t.tcp.sockets l).state = .listen) :
    ∃ q list, (t.tcp.sockets l).listener = some q ∧ ListOk t l q list := by
  have htcp : t.tcp = perform g.tcp e.out e.request := by
    cases hstep
    rfl
  rw [htcp] at hl
  cases listenerStep h.timers hl with
  | kept hlis hsame hret =>
    obtain ⟨q, list, hq, hnd, hhead, hchain, hcount, hwait⟩ := h.pending l hlis
    refine ⟨q, list, by rw [htcp, hsame, hq], ?_⟩
    exact h.listOk hcare hstep hl hnd hhead hchain hcount hwait
      fun j hj => h.returned_ne (hwait j hj) hret
  | fresh limit hnew =>
    refine ⟨_, [], by rw [htcp, hnew], ?_⟩
    exact ⟨nodup_nil, rfl, trivial, rfl, nofun⟩
  | enqueued j q hlis hq hroom hopened hnew hnext hst =>
    obtain ⟨q', list, hq', hnd, hhead, hchain, hcount, hwait⟩ := h.pending l hlis
    rw [hq] at hq'
    cases hq'
    have hnoret : returned g.tcp e = none := by
      obtain ⟨p, seg, q, hreq, -⟩ := openedFor_some hopened
      simp [returned, hreq]
    have hnot : j ∉ list := by
      intro hj
      exact (h.waits j l (hwait j hj)).1.ne not_pendable_closed (openedFor_closed hopened)
    obtain ⟨-, -, hchain', -, hwait'⟩ := h.listOk hcare hstep hl hnd hhead hchain hcount hwait
      fun k _ => by rw [hnoret]; exact nofun
    refine ⟨_, j :: list, by rw [htcp, hnew], nodup_cons.mpr ⟨hnot, hnd⟩, rfl, ?_, ?_, ?_⟩
    · refine ⟨?_, hchain'⟩
      change (t.tcp.sockets j).next = list.head?
      rw [htcp, hnext, hhead]
    · -- the list was shorter than the backlog
      have hlt : q.pendingCount.toNat < q.backlog.toNat := hroom
      have hmax := q.backlog.toNat_lt
      have hadd : (q.pendingCount + 1).toNat = q.pendingCount.toNat + 1 := by
        rw [UInt16.toNat_add, UInt16.toNat_one, Nat.mod_eq_of_lt (by omega)]
      rw [hadd, hcount, length_cons]
    · intro k hk
      rcases mem_cons.mp hk with rfl | hk
      · cases hstep
        change Tcp.waitingAfter g e k = some l
        unfold Tcp.waitingAfter
        rw [if_neg]
        · simp [waitsFor, hopened, hl]
        · obtain ⟨p, seg, q, hreq, -⟩ := openedFor_some hopened
          rintro (hcl | hret | hclose)
          · rw [hst] at hcl
            cases hcl
          · rw [hnoret] at hret
            cases hret
          · rw [hreq] at hclose
            cases hclose
      · exact hwait' k hk
  | dequeued j q hlis hq hj hret hnew =>
    obtain ⟨q', list, hq', hnd, hhead, hchain, hcount, hwait⟩ := h.pending l hlis
    rw [hq] at hq'
    cases hq'
    rw [hj] at hhead
    cases list with
    | nil => cases hhead
    | cons k rest =>
      have hk : k = j := (some_injective _ hhead).symm
      subst hk
      obtain ⟨hnot, hnd'⟩ := nodup_cons.mp hnd
      obtain ⟨hnext, hchain'⟩ := hchain
      refine ⟨_, rest, by rw [htcp, hnew], ?_⟩
      apply h.listOk hcare hstep hl hnd' hnext hchain'
      · have hlen : q.pendingCount.toNat = rest.length + 1 := hcount
        have hone : (1 : UInt16) ≤ q.pendingCount := by
          change 1 ≤ q.pendingCount.toNat
          omega
        rw [UInt16.toNat_sub_of_le _ _ hone, hlen]
        rfl
      · exact fun i hi => hwait i (mem_cons_of_mem k hi)
      · intro i hi heq
        rw [hret] at heq
        exact hnot (some_injective _ heq ▸ hi)

theorem Inv.waitsStep (hw : Tcp.waitingAfter g e j = some l) :
    Pendable ((perform g.tcp e.out e.request).sockets j).state ∧ g.held j = false ∧
      returned g.tcp e ≠ some j := by
  unfold Tcp.waitingAfter at hw
  split_ifs at hw with hcond
  have hret : returned g.tcp e ≠ some j := fun hr => hcond (.inr (.inl hr))
  obtain ⟨hwaits, -⟩ := filter_eq_some_iff.mp hw
  unfold waitsFor at hwaits
  cases ho : openedFor g.tcp e with
  | none =>
    rw [ho] at hwaits
    exact ⟨(h.keeps hcare hwaits hret).1 (h.waits j l hwaits).1, (h.waits j l hwaits).2, hret⟩
  | some p =>
    rw [ho] at hwaits
    dsimp only at hwaits
    split_ifs at hwaits with hjp
    · subst hjp
      refine ⟨.inl (openedFor_state ho), ?_, hret⟩
      obtain ⟨packet, seg, q, hreq, hp, hopens, -⟩ := openedFor_some ho
      simp only [Careful, hreq] at hcare
      exact (hcare seg hp).2 _ _ q hopens
    · exact ⟨(h.keeps hcare hwaits hret).1 (h.waits j l hwaits).1, (h.waits j l hwaits).2, hret⟩

theorem Inv.step (hstep : clientStep g e = some t) : Inv t := by
  have hpending := fun l => h.pendingStep (l := l) hcare hstep
  cases hstep
  constructor
  · change (g.aliased || (returned g.tcp e).any g.held) = false
    cases hret : returned g.tcp e with
    | none => simp [h.returns]
    | some i => simp [h.returns, h.held_returned hcare hret]
  · refine step_timersOk h.timers fun p seg i hreq hp hrst hi => ?_
    simp only [Careful, hreq] at hcare
    exact ((hcare seg hp).1 hrst i hi).1
  · intro j l hw
    obtain ⟨hpend, hheld, hret⟩ := h.waitsStep hcare hw
    exact ⟨hpend, by simp [hheld, hret]⟩
  · exact hpending

end

theorem clientInit_inv : Inv clientInit where
  returns := rfl
  timers := ⟨fun _ => rfl, nofun, nofun⟩
  waits := nofun
  pending := nofun

/-- Slots are never aliased in a run whose requests are all careful. -/
theorem slots_not_aliased {events : List Event} (h : Meets clientStep Careful clientInit events) :
    Throughout clientStep NotAliased clientInit events :=
  (throughout_of_meets clientStep (fun _ _ _ hg hcare hstep => hg.step hcare hstep)
    clientInit_inv h).imp clientStep fun _ hg => hg.notAliased

/-- A server that opens a socket, gets a connection request and accepts the connection. -/
theorem server_not_aliased :
    ∃ g, exec clientStep clientInit [⟨.create none 80, plenty⟩, ⟨.listen (some 0) 4, plenty⟩,
        ⟨.rx (some synPacket), plenty⟩, ⟨.accept (some 0), plenty⟩] = some g ∧
      g.held 1 = true ∧ NotAliased g := by
  have hmeets : Meets clientStep Careful clientInit [⟨.create none 80, plenty⟩,
      ⟨.listen (some 0) 4, plenty⟩, ⟨.rx (some synPacket), plenty⟩,
        ⟨.accept (some 0), plenty⟩] := by
    apply meets_cons clientStep _ rfl
    apply meets_cons clientStep _ rfl
    apply meets_cons clientStep _ rfl
    apply meets_cons clientStep _ rfl
    · trivial
    · trivial
    · intro seg hseg
      cases hseg
      constructor
      · intro hrst
        exact absurd hrst (by decide)
      · intro l j q hopens
        have hj : some j = some 1 := hopens.slot.symm.trans (by decide)
        cases hj
        decide
    · trivial
    · exact fun i _ => rfl
  refine ⟨_, rfl, by decide, ?_⟩
  exact (slots_not_aliased hmeets).last clientStep rfl

/-- Two sockets are created without opening the first: both are slot `0`. -/
theorem created_twice :
    ∃ g, exec clientStep clientInit [⟨.create none 80, plenty⟩, ⟨.create none 81, plenty⟩] =
        some g ∧ g.aliased = true := by
  decide

end UintOS.Tcp
