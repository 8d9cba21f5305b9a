import UintOS.Network.Tcp.Calls

/-!
# Which socket a segment reaches

`tcp_find_socket` returns the first slot that is eligible. For the lookup a socket is an `Entry`:
free, a listener, or a connection with its four-tuple. A connection is found exactly if no earlier
slot covers its four-tuple, and then no other connection has it.

A request frees slots, or it fills one free slot with a new entry: `tcp_socket_listen`,
`tcp_socket_connect`, and a `SYN` that a listener takes. None of them asks whether the new entry
hides another one or is hidden; the lookup stays right exactly as long as that does not happen.
-/

namespace UintOS.Tcp

open Function Network Link Runs

/-! ## Entries -/

/-- The arguments of `tcp_find_socket`. -/
structure FourTuple where
  localPort : UInt16
  localAddr : Ipv4Address
  remotePort : UInt16
  remoteAddr : Ipv4Address
deriving DecidableEq, Repr

inductive Entry
  | free
  | listener (port : UInt16) (addr : Ipv4Address)
  | connection (τ : FourTuple)
deriving DecidableEq, Repr

def Entry.Covers : Entry → FourTuple → Prop
  | .free, _ => False
  | .listener port addr, τ => port = τ.localPort ∧ (addr = ipAddrAny ∨ addr = τ.localAddr)
  | .connection τ', τ => τ' = τ

def Socket.fourTuple (c : Socket) : FourTuple :=
  ⟨c.localPort, c.localAddr, c.remotePort, c.remoteAddr⟩

def Socket.entry (c : Socket) : Entry :=
  match c.state with
  | .closed => .free
  | .listen => .listener c.localPort c.localAddr
  | _ => .connection c.fourTuple

abbrev Table := Slot → Entry

def entries (s : State) : Table := fun i => (s.sockets i).entry

def lookup (t : Sockets) (τ : FourTuple) : Option Slot :=
  findSocket t τ.localPort τ.localAddr τ.remotePort τ.remoteAddr

def Socket.Connected (c : Socket) : Prop := c.state ≠ .closed ∧ c.state ≠ .listen

instance (c : Socket) : Decidable c.Connected :=
  inferInstanceAs (Decidable (c.state ≠ .closed ∧ c.state ≠ .listen))

/-- At most one connection for a four-tuple; the lookup finds it, and else a listener. -/
structure Demultiplexes (t : Sockets) : Prop where
  unique : ∀ i j, (t i).Connected → (t j).Connected → (t i).fourTuple = (t j).fourTuple → i = j
  found : ∀ i, (t i).Connected → lookup t (t i).fourTuple = some i
  fallback : ∀ τ i, lookup t τ = some i → (t i).state = .listen →
    ∀ j, (t j).Connected → (t j).fourTuple ≠ τ

def Clear (t : Table) : Prop := ∀ i τ, t i = .connection τ → ∀ j, j < i → ¬ (t j).Covers τ

/-- A new entry in slot `i` is not covered by an earlier one and covers no later connection. -/
def Fits (t : Table) (i : Slot) (v : Entry) : Prop :=
  (∀ τ, v = .connection τ → ∀ j, j < i → ¬ (t j).Covers τ) ∧
    ∀ j, i < j → ∀ τ, t j = .connection τ → ¬ v.Covers τ

variable {c : Socket} {s t : State} {i : Slot} {τ : FourTuple} {seg : Segment}

theorem entry_of_closed (h : c.state = .closed) : c.entry = .free := by
  simp [Socket.entry, h]

theorem entry_of_listen (h : c.state = .listen) : c.entry = .listener c.localPort c.localAddr := by
  simp [Socket.entry, h]

theorem entry_of_connected (h : c.Connected) : c.entry = .connection c.fourTuple := by
  obtain ⟨hcl, hlis⟩ := h
  unfold Socket.entry
  split
  · next h => exact absurd h hcl
  · next h => exact absurd h hlis
  · rfl

theorem connected_of_entry (h : c.entry = .connection τ) : c.Connected ∧ c.fourTuple = τ := by
  unfold Socket.entry at h
  split at h
  · cases h
  · cases h
  · next hcl hlis =>
    cases h
    exact ⟨⟨hcl, hlis⟩, rfl⟩

theorem entry_eq_free_iff (c : Socket) : c.entry = .free ↔ c.state = .closed := by
  unfold Socket.entry
  split <;> simp_all

theorem eligible_iff (c : Socket) (τ : FourTuple) :
    eligible c τ.localPort τ.localAddr τ.remotePort τ.remoteAddr = true ↔ c.entry.Covers τ := by
  unfold eligible
  split
  · next h => simp [entry_of_closed h, Entry.Covers]
  · next h => simp [entry_of_listen h, Entry.Covers]
  · next hcl hlis =>
    rw [entry_of_connected ⟨hcl, hlis⟩]
    cases τ
    simp only [Entry.Covers, Socket.fourTuple, FourTuple.mk.injEq, Bool.and_eq_true,
      decide_eq_true_eq, ipAddrCmp_iff]
    tauto

theorem lookup_eq_some_iff (s : State) (τ : FourTuple) (i : Slot) : lookup s.sockets τ = some i ↔
      (entries s i).Covers τ ∧ ∀ j, j < i → ¬ (entries s j).Covers τ := by
  unfold lookup findSocket
  rw [Fin.find?_eq_some_iff, eligible_iff]
  apply and_congr Iff.rfl
  apply forall_congr'
  intro j
  apply imp_congr_right
  intro _
  rw [entries, ← eligible_iff (s.sockets j) τ, Bool.not_eq_true]

/-- The lookup does its work exactly if no connection is covered by an earlier entry. -/
theorem demultiplexes_iff (s : State) : Demultiplexes s.sockets ↔ Clear (entries s) := by
  constructor
  · intro h i τ hi
    obtain ⟨hconn, rfl⟩ := connected_of_entry hi
    exact ((lookup_eq_some_iff s _ i).mp (h.found i hconn)).2
  · intro h
    have hfound : ∀ i, (s.sockets i).Connected →
        lookup s.sockets (s.sockets i).fourTuple = some i := by
      intro i hi
      have hentry : entries s i = .connection (s.sockets i).fourTuple := entry_of_connected hi
      apply (lookup_eq_some_iff s _ i).mpr
      constructor
      · rw [hentry]
        exact rfl
      · exact h i _ hentry
    constructor
    · intro i j hi hj heq
      have hj' := hfound j hj
      rw [← heq, hfound i hi] at hj'
      exact Option.some_injective _ hj'
    · exact hfound
    · intro τ i hi hlis j hj heq
      have hj' := hfound j hj
      rw [heq, hi] at hj'
      cases hj'
      exact hj.2 hlis

/-! ## Freeing and filling slots -/

/-- Slots were freed, nothing else. -/
def Tame (s t : State) : Prop := ∀ i, entries t i = entries s i ∨ entries t i = .free

theorem Tame.refl (s : State) : Tame s s := fun _ => .inl rfl

theorem Tame.trans {u : State} (h : Tame s t) (h' : Tame t u) : Tame s u := by
  intro i
  rcases h' i with hsame | hfree
  · rcases h i with hsame' | hfree'
    · exact .inl (hsame.trans hsame')
    · exact .inr (hsame.trans hfree')
  · exact .inr hfree

theorem Clear.tame (h : Clear (entries s)) (ht : Tame s t) : Clear (entries t) := by
  intro i τ hi j hj hcover
  have hi' : entries s i = .connection τ := by
    rcases ht i with hsame | hfree
    · rwa [← hsame]
    · rw [hfree] at hi
      cases hi
  rcases ht j with hsame | hfree
  · rw [hsame] at hcover
    exact h i τ hi' j hj hcover
  · rw [hfree] at hcover
    exact hcover

/-- A free slot is filled: the table stays clear exactly if it fits. -/
theorem Clear.fill {t : Table} (h : Clear t) (hi : t i = .free) (v : Entry) :
    Clear (update t i v) ↔ Fits t i v := by
  constructor
  · intro hclear
    constructor
    · intro τ hv j hj hcover
      apply hclear i τ _ j hj
      · rwa [update_of_ne (ne_of_lt hj)]
      · rwa [update_self]
    · intro j hj τ hjτ hcover
      apply hclear j τ _ i hj
      · rwa [update_self]
      · rwa [update_of_ne (ne_of_gt hj)]
  · intro hfits k τ hk j hj
    rw [update_apply] at hk
    split_ifs at hk with hki
    · subst hki
      rw [update_of_ne (ne_of_lt hj)]
      exact hfits.1 τ hk j hj
    · rw [update_apply]
      split_ifs with hji
      · subst hji
        exact hfits.2 k hj τ hk
      · exact h k τ hk j hj

theorem entries_setSocket (s : State) (i : Slot) (c : Socket) :
    entries (setSocket s i c) = update (entries s) i c.entry := by
  funext j
  rw [update_apply]
  split_ifs with hj
  · subst hj
    rw [entries, setSocket_self]
  · rw [entries, setSocket_of_ne s c hj]
    rfl

theorem tame_setSocket
    (h : c.entry = (s.sockets i).entry ∨ c.state = .closed) : Tame s (setSocket s i c) := by
  intro j
  rw [entries_setSocket]
  rw [update_apply]
  split_ifs with hj
  · subst hj
    rw [entry_eq_free_iff]
    exact h
  · exact .inl rfl

/-- The entry of a socket depends on its identity, and on whether it is closed or listening. -/
theorem entry_congr {d : Socket} (hid : c.identity = d.identity)
    (hcl : c.state = .closed ↔ d.state = .closed)
    (hlis : c.state = .listen ↔ d.state = .listen) : c.entry = d.entry := by
  simp only [Socket.identity, Identity.mk.injEq] at hid
  unfold Socket.entry
  rcases hc : c.state with _ | _ | _ | _ | _ | _ | _ | _ | _ | _ | _ <;> simp_all [Socket.fourTuple]

theorem Served.tame (h : Served i s t) : Tame s t := by
  intro j
  by_cases hj : j = i
  · subst hj
    by_cases hcl : (t.sockets j).state = .closed
    · exact Or.inr ((entry_eq_free_iff _).mpr hcl)
    · apply Or.inl
      apply entry_congr h.identity
      · constructor
        · exact fun h' => absurd h' hcl
        · intro h'
          have hfol := h.follows
          rw [h'] at hfol
          exact hfol
      · exact h.follows.listen_iff
  · apply Or.inl
    rw [entries, entries, h.others j hj]

/-! ## The requests -/

def Segment.fourTuple (seg : Segment) : FourTuple := ⟨seg.destPort, seg.dest, seg.srcPort, seg.src⟩

/-- The new entry fits: a socket that starts to listen, one that starts to connect from its own
port, a connection that is opened for a `SYN`. -/
def Unambiguous (s : State) (e : Event) : Prop :=
  match e.request with
  | .listen (some i) _ =>
    (s.sockets i).state = .closed ∧ e.out.listener = true →
      Fits (entries s) i (.listener (s.sockets i).localPort (s.sockets i).localAddr)
  | .connect (some i) (some addr) port =>
    (s.sockets i).state = .closed → (s.sockets i).localPort ≠ 0 →
      ∀ localAddr, connectAddr (s.sockets i) e.out = some localAddr →
        Fits (entries s) i (.connection ⟨(s.sockets i).localPort, localAddr, port, addr⟩)
  | .rx (some p) =>
    ∀ seg l j q, parse p = some seg → OpensFor s seg l j q →
      Fits (entries s) j (.connection seg.fourTuple)
  | _ => True

/-- What a request does to the table: it frees slots, or it fills a free one, and then it is
unambiguous exactly if the entry fits. -/
inductive Change (s : State) (e : Event) (t : State) : Prop
  | tame (ht : Tame s t) (h : Unambiguous s e)
  | fill (i : Slot) (v : Entry) (hi : entries s i = .free)
    (ht : entries t = update (entries s) i v) (h : Unambiguous s e ↔ Fits (entries s) i v)

theorem tame_of_sockets (h : t.sockets = s.sockets) : Tame s t := by
  intro i
  apply Or.inl
  rw [entries, entries, h]

theorem entries_writes (h : Writes s i c t) : entries t = update (entries s) i c.entry := by
  rw [← entries_setSocket]
  unfold entries
  rw [h.sockets]
  rfl

theorem Harmless.tame (h : Harmless s t) : Tame s t := by
  cases h with
  | same hsockets _ => exact tame_of_sockets hsockets
  | @written i c h _ hc _ =>
    intro j
    have hupd : Tame s (setSocket s i c) := tame_setSocket (.inr hc)
    rw [entries_writes h, ← entries_setSocket]
    exact hupd j

/-- An entry with a port of no socket in use fits anywhere. -/
theorem fits_of_unused
    (h : ∀ j, onPort s.sockets τ.localPort j = false) : Fits (entries s) i (.connection τ) := by
  have hport : ∀ j, (entries s j).Covers τ → False := by
    intro j hj
    have hon := h j
    simp only [onPort, decide_eq_false_iff_not, not_and] at hon
    by_cases hcl : (s.sockets j).state = .closed
    · rw [entries, entry_of_closed hcl] at hj
      exact hj
    · by_cases hlis : (s.sockets j).state = .listen
      · rw [entries, entry_of_listen hlis] at hj
        exact hon hcl hj.1
      · rw [entries, entry_of_connected ⟨hcl, hlis⟩] at hj
        exact hon hcl (congrArg FourTuple.localPort hj)
  constructor
  · intro τ' heq j _ hcover
    cases heq
    exact hport j hcover
  · intro j _ τ' hj hcover
    cases hcover
    apply hport j
    rw [hj]
    exact rfl

theorem listen_change (s : State) (socket : Option Slot) (backlog : UInt16) (out : Outside) :
    Change s ⟨.listen socket backlog, out⟩ (socketListen s socket backlog out).1 := by
  cases socket with
  | none => exact Change.tame (Tame.refl s) trivial
  | some i =>
    obtain ⟨hcl, hmem, limit, ht⟩ | ⟨hnot, ht⟩ := socketListen_cases s i backlog out
    · rw [ht]
      refine Change.fill i _ (entry_of_closed hcl) (entries_setSocket s i _) ?_
      exact forall_prop_of_true ⟨hcl, hmem⟩
    · rw [ht]
      exact Change.tame (Tame.refl s) fun h => absurd h hnot

theorem connect_change (s : State) (socket : Option Slot) (addr : Option Ipv4Address)
    (port : UInt16) (out : Outside) :
    Change s ⟨.connect socket addr port, out⟩ (socketConnect s socket addr port out).1 := by
  cases socket with
  | none => exact Change.tame (Tame.refl s) trivial
  | some i =>
    cases addr with
    | none => exact Change.tame (Tame.refl s) trivial
    | some addr =>
      obtain ⟨p, localAddr, c, hcl, haddr, hport, hconn, hw⟩ | ⟨hnot, hharm⟩ :=
        socketConnect_cases s i addr port out
      · have hentry : c.entry = .connection ⟨p, localAddr, port, addr⟩ := by
          rw [entry_of_connected (by simp [Socket.Connected, hconn.state]), Socket.fourTuple,
            hconn.localPort_eq, hconn.localAddr_eq, hconn.remotePort_eq, hconn.remoteAddr_eq]
        apply Change.fill i _ (entry_of_closed hcl) (entries_writes hw)
        rw [hentry]
        rcases hport with ⟨hne, rfl⟩ | ⟨hzero, hunused⟩
        · constructor
          · exact fun h => h hcl hne localAddr haddr
          · intro hfits _ _ localAddr' haddr'
            rw [haddr] at haddr'
            cases haddr'
            exact hfits
        · constructor
          · exact fun _ => fits_of_unused hunused
          · exact fun _ _ hne => absurd hzero hne
      · exact Change.tame hharm.tame fun hcl hne localAddr haddr =>
          absurd ⟨hcl, hne, localAddr, haddr⟩ hnot

theorem entry_opened (seg : Segment) (next : Option Slot) (n : UInt32) (b : RxBuffer) :
    (opened seg next n b).entry = .connection seg.fourTuple := rfl

theorem entries_enqueue (s : State) (l j : Slot) (q : Listener) :
    entries (enqueue s l j q) = entries s := by
  rw [enqueue, entries_setSocket]
  exact update_eq_self l (entries s)

theorem entries_processSyn {l j : Slot} {q : Listener} (h : OpensFor s seg l j q) (out : Outside) :
    entries (processSyn s l seg out).1 = update (entries s) j (.connection seg.fourTuple) := by
  obtain ⟨-, n, b, ht⟩ | ⟨-, n, b, ht⟩ := processSyn_cases h out
  · rw [ht, entries_setSocket, entries_enqueue, entry_opened]
  · rw [ht, entries_setSocket, entry_opened]

/-- A listener that a segment reaches determines the slot it opens. -/
theorem OpensFor.slot_unique {l j l' j' : Slot} {q q' : Listener}
    (h : OpensFor s seg l j q) (h' : OpensFor s seg l' j' q') : j' = j :=
  Option.some_injective _ (h'.slot.symm.trans h.slot)

theorem rx_change (s : State) (buffer : Option Packet) (out : Outside) :
    Change s ⟨.rx buffer, out⟩ (rx s buffer out).1 := by
  cases buffer with
  | none => exact Change.tame (Tame.refl s) trivial
  | some p =>
    unfold rx
    cases hp : parse p with
    | none =>
      rw [Option.bind_some, hp]
      apply Change.tame (Tame.refl s)
      intro seg l j q hseg
      rw [hp] at hseg
      cases hseg
    | some seg =>
      rw [Option.bind_some, hp]
      have hseg : ∀ {seg'}, parse p = some seg' → seg' = seg := by
        intro seg' h
        rw [hp] at h
        exact (Option.some_injective _ h).symm
      -- every effect but an opened connection frees slots at most
      have htame : ∀ {t}, Tame s t → (∀ l j q, ¬ OpensFor s seg l j q) →
          Change s ⟨.rx (some p), out⟩ t := by
        intro t ht hnot
        apply Change.tame ht
        intro seg' l j q hseg' hopens
        rw [hseg hseg'] at hopens
        exact absurd hopens (hnot l j q)
      generalize (rxSegment s seg out).1 = t, rxSegment_received s seg out = hrcv
      cases hrcv with
      | ignored h => exact htame (Tame.refl s) h
      | reset i hrst _ =>
        exact htame (tame_setSocket (.inr rfl)) fun l j q hopens => hopens.noReset hrst
      | established i _ _ _ hi hst _ =>
        apply htame
        · apply tame_setSocket
          apply Or.inl
          exact entry_congr rfl (by simp [hst]) (by simp [hst])
        · intro l j q hopens
          have hl := hopens.target
          rw [hi] at hl
          cases hl
          have hlis := hopens.listening
          rw [hst] at hlis
          cases hlis
      | opened l j q h =>
        refine Change.fill j (.connection seg.fourTuple)
          (entry_of_closed (firstClosed_eq_some h.slot)) (entries_processSyn h out) ?_
        constructor
        · exact fun hun => hun seg l j q hp h
        · intro hfits seg' l' j' q' hseg' h'
          rw [hseg hseg'] at h' ⊢
          rwa [h.slot_unique h']
      | served i _ hsyn _ =>
        exact htame (rxOrdinary_served s i seg out).tame fun l j q hopens => hsyn hopens.syn

theorem ClosedBy.tame (h : ClosedBy s i t) : Tame s t := by
  cases h with
  | ignored _ => exact Tame.refl s
  | listener _ | unsent _ => exact tame_setSocket (.inr rfl)
  | fin st n h =>
    apply tame_setSocket
    apply Or.inl
    obtain ⟨hs | hs, rfl⟩ | ⟨hs, rfl⟩ := h
    · exact entry_congr rfl (by simp [hs]) (by simp [hs])
    · exact entry_congr rfl (by simp [hs]) (by simp [hs])
    · exact entry_congr rfl (by simp [hs]) (by simp [hs])

section

variable (s : State) (socket : Option Slot)

theorem socketAccept_tame : Tame s (socketAccept s socket).1 := by
  obtain h | ⟨l, j, q, rfl, hlis, hq, hj⟩ := socketAccept_cases s socket
  · rw [h]
    exact Tame.refl s
  · rw [socketAccept_eq hlis hq hj]
    have hlist : Tame s (dequeue s l j q) := tame_setSocket (.inl rfl)
    apply hlist.trans
    apply tame_setSocket
    apply Or.inl
    generalize (dequeue s l j q).sockets j = c
    by_cases hc : c.state = .synReceived
    · rw [accepted, if_pos hc]
      unfold Socket.entry
      rw [hc]
      rfl
    · rw [accepted, if_neg hc]
      rfl

theorem socketSend_tame (data : Option (List UInt8))
    (out : Outside) : Tame s (socketSend s socket data out).1 := by
  obtain h | ⟨i, n, -, h⟩ := socketSend_cases s socket data out
  · rw [h]
    exact Tame.refl s
  · rw [h]
    exact tame_setSocket (.inl rfl)

theorem socketRecv_tame (buffer : Bool) (len : ℕ) : Tame s (socketRecv s socket buffer len).1 := by
  obtain h | ⟨i, b, h⟩ := socketRecv_cases s socket buffer len
  · rw [h]
    exact Tame.refl s
  · rw [h]
    exact tame_setSocket (.inl rfl)

end

theorem expire_tame (now : UInt32) (s : State) (k : Fin 32) : Tame s (expire now s k) := by
  obtain h | ⟨i, -, -, h⟩ := expire_cases now s k
  · rw [h]
    exact Tame.refl s
  · rw [h]
    have hcl : Tame s (setSocket s i { s.sockets i with state := .closed }) :=
      tame_setSocket (.inr rfl)
    exact hcl

theorem countDown_entry (msec : UInt32) (c : Socket) :
    (countDown msec c).entry = c.entry ∨ (countDown msec c).entry = .free := by
  unfold countDown
  split_ifs
  · dsimp only
    split_ifs
    · exact .inr rfl
    · exact .inl rfl
    · exact .inl rfl
  · exact .inl rfl

theorem timer_tame (s : State) (msec now : UInt32) : Tame s (timer s msec now) := by
  have hloop : Tame s ((List.finRange 32).foldl (expire now) s) :=
    Loops.foldl_rel Tame.refl (fun _ _ _ => Tame.trans) (expire_tame now) _ s
  apply hloop.trans
  intro i
  exact countDown_entry msec _

theorem step_change (s : State) (e : Event) : Change s e (perform s e.out e.request) := by
  obtain ⟨request, out⟩ := e
  cases request with
  | create addr port => exact Change.tame (socketCreate_harmless s addr port out).tame trivial
  | bind socket addr port => exact Change.tame (socketBind_harmless s socket addr port).tame trivial
  | listen socket backlog => exact listen_change s socket backlog out
  | accept socket => exact Change.tame (socketAccept_tame s socket) trivial
  | connect socket addr port => exact connect_change s socket addr port out
  | close socket =>
    cases socket with
    | none => exact Change.tame (Tame.refl s) trivial
    | some i => exact Change.tame (socketClose_closedBy s i out).tame trivial
  | send socket data => exact Change.tame (socketSend_tame s socket data out) trivial
  | recv socket buffer len => exact Change.tame (socketRecv_tame s socket buffer len) trivial
  | rx buffer => exact rx_change s buffer out
  | timer msec => exact Change.tame (timer_tame s msec out.now) trivial

theorem init_clear : Clear (entries init) := by
  intro i τ hi
  cases hi

/-- The lookup does its work throughout a run from `tcp_init` exactly if every request is
unambiguous. -/
theorem demultiplexes_throughout_iff (events : List Event) :
    Throughout step (fun s => Demultiplexes s.sockets) init events ↔
      Meets step Unambiguous init events := by
  apply throughout_iff_meets step (I := fun s => Clear (entries s))
  · exact fun s hs => (demultiplexes_iff s).mpr hs
  · intro s e hs
    refine ⟨_, rfl, ?_⟩
    rw [demultiplexes_iff]
    cases step_change s e with
    | tame ht h => exact ⟨fun _ => hs.tame ht, fun hbad => absurd h hbad⟩
    | fill i v hi ht h =>
      rw [ht, hs.fill hi v, h]
      exact ⟨id, id⟩
  · exact init_clear

/-- A listener in the first slot hides the connection that is opened for it in the second one: its
segments go to the listener. -/
theorem listener_hides_connection :
    ∃ s, exec step init [⟨.create none 80, plenty⟩, ⟨.listen (some 0) 4, plenty⟩,
        ⟨.rx (some synPacket), plenty⟩] = some s ∧
      (s.sockets 1).Connected ∧ lookup s.sockets (s.sockets 1).fourTuple = some 0 := by
  refine ⟨_, rfl, ?_, ?_⟩
  · decide
  · decide

end UintOS.Tcp
