import UintOS.Library.Runs
import UintOS.Network.Basic

/-!
# UDP sockets

The socket table of `udp.c` with `udp_socket_create`, `udp_socket_bind` and `udp_socket_close`, and
the lookup of `udp_find_socket`. Two open sockets clash when one datagram could be meant for both:
they have the same port, and equal addresses or one of them the wildcard address.

The code tests for a clash in three ways. `udp_socket_create` tests all of it; `udp_socket_bind`
does not ask whether the address it binds to is the wildcard, and with port `0` on a socket that has
a port already it changes the address with no test at all.
-/

namespace UintOS.Udp

open Function Network Option Runs

inductive SocketState
  | closed
  | opened
deriving DecidableEq, Repr

structure Socket where
  state : SocketState
  localPort : UInt16
  localAddr : Ipv4Address
deriving DecidableEq, Repr

/-- A pointer into `udp_sockets`, of `UDP_MAX_SOCKETS` entries. -/
abbrev Slot := Fin 16

abbrev Sockets := Slot → Socket

structure State where
  sockets : Sockets
  lastDynamicPort : UInt16

def init : State := ⟨fun _ => ⟨.closed, 0, ipAddrAny⟩, dynamicPortStart⟩

variable (t : Sockets)

def onPort (port : UInt16) (i : Slot) : Bool :=
  (t i).state = .opened ∧ (t i).localPort = port

/-- The test `udp_find_socket` makes on a socket. -/
def eligible (destPort : UInt16) (destAddr : Ipv4Address) (i : Slot) : Bool :=
  onPort t destPort i && (ipAddrIsAny (t i).localAddr || ipAddrCmp (t i).localAddr destAddr)

def findSocket (destPort : UInt16) (destAddr : Ipv4Address) : Option Slot :=
  Fin.find? (eligible t destPort destAddr)

/-- `udp_get_free_port`: the port, and the state with the last port advanced. -/
def getFreePort (s : State) : Option (UInt16 × State) :=
  (Network.getFreePort (fun port => decide (∃ i, onPort s.sockets port i)) s.lastDynamicPort).map
    fun r => (r.1, { s with lastDynamicPort := r.2 })

variable (s : State)

def setSocket (i : Slot) (v : Socket) : State :=
  { s with sockets := update s.sockets i v }

/-- `port_in_use`: another open socket has the port and passes the address test. -/
def portInUse (i : Slot) (port : UInt16) (sameAddr : Ipv4Address → Bool) : Bool :=
  decide (∃ j, j ≠ i ∧ onPort t port j ∧ sameAddr (t j).localAddr)

/-- `udp_socket_create`; a missing address is the null pointer. -/
def socketCreate (localAddr : Option Ipv4Address) (localPort : UInt16) :
    Option (State × Option Slot) :=
  match Fin.find? fun i => (s.sockets i).state = .closed with
  | none => some (s, none)
  | some i =>
    let addr := localAddr.getD ipAddrAny
    let s₁ := setSocket s i ⟨.opened, 0, addr⟩
    if 0 < localPort then
      if portInUse s₁.sockets i localPort fun other =>
          ipAddrIsAny other || ipAddrIsAny addr || ipAddrCmp other addr then
        some (setSocket s₁ i ⟨.closed, 0, addr⟩, none)
      else some (setSocket s₁ i ⟨.opened, localPort, addr⟩, some i)
    else
      match getFreePort s₁ with
      | none => none
      | some (port, s₂) =>
        if port = 0 then some (setSocket s₂ i ⟨.closed, 0, addr⟩, none)
        else some (setSocket s₂ i ⟨.opened, port, addr⟩, some i)

/-- The end of `udp_socket_bind`: set the address if one is given. -/
def setAddr (i : Slot) (port : UInt16) (addr : Option Ipv4Address) : State :=
  setSocket s i ⟨.opened, port, addr.getD (s.sockets i).localAddr⟩

def socketBind (socket : Option Slot) (addr : Option Ipv4Address) (port : UInt16) :
    Option (State × Int) :=
  match socket with
  | none => some (s, -1)
  | some i =>
    if (s.sockets i).state ≠ .opened then some (s, -1)
    else if 0 < port then
      if portInUse s.sockets i port fun other =>
          addr.isNone || ipAddrIsAny other || addr.any (ipAddrCmp · other) then some (s, -1)
      else some (setAddr s i port addr, 0)
    else if (s.sockets i).localPort = 0 then
      match getFreePort s with
      | none => none
      | some (p, s₁) =>
        if p = 0 then some (s₁, -1) else some (setAddr s₁ i p addr, 0)
    else some (setAddr s i (s.sockets i).localPort addr, 0)

def socketClose (socket : Option Slot) : State × Int :=
  match socket with
  | none => (s, -1)
  | some i =>
    if (s.sockets i).state ≠ .opened then (s, 0)
    else (setSocket s i { s.sockets i with state := .closed }, 0)

inductive Call
  | create (localAddr : Option Ipv4Address) (localPort : UInt16)
  | bind (socket : Option Slot) (addr : Option Ipv4Address) (port : UInt16)
  | close (socket : Option Slot)
deriving DecidableEq, Repr

def step : Call → Option State
  | .create localAddr localPort => (socketCreate s localAddr localPort).map Prod.fst
  | .bind socket addr port => (socketBind s socket addr port).map Prod.fst
  | .close socket => some (socketClose s socket).1

/-! ## Clashes -/

def Clash (a b : Ipv4Address) : Prop := a = ipAddrAny ∨ b = ipAddrAny ∨ a = b

instance (a b : Ipv4Address) : Decidable (Clash a b) :=
  inferInstanceAs (Decidable (a = ipAddrAny ∨ b = ipAddrAny ∨ a = b))

theorem Clash.symm {a b : Ipv4Address} (h : Clash a b) : Clash b a := by
  rcases h with h | h | h
  · exact .inr (.inl h)
  · exact .inl h
  · exact .inr (.inr h.symm)

/-- No other open socket has this port and an address that clashes with `addr`. -/
def Free (i : Slot) (port : UInt16) (addr : Ipv4Address) : Prop :=
  ∀ j, j ≠ i → onPort t port j → ¬ Clash addr (t j).localAddr

instance (i : Slot) (port : UInt16) (addr : Ipv4Address) : Decidable (Free t i port addr) :=
  inferInstanceAs (Decidable (∀ _, _ → _ → ¬ Clash _ _))

/-- For every destination at most one open socket is eligible. -/
def OneEligible : Prop :=
  ∀ port addr i j, eligible t port addr i → eligible t port addr j → i = j

/-- No two open sockets share a set port while their addresses clash. -/
def NoClash : Prop :=
  ∀ i j port, i ≠ j → port ≠ 0 → onPort t port i → onPort t port j →
    ¬ Clash (t i).localAddr (t j).localAddr

/-- Every open socket has a port, which no other open socket clashes on. -/
def Exclusive : Prop :=
  ∀ i, (t i).state = .opened → (t i).localPort ≠ 0 ∧ Free t i (t i).localPort (t i).localAddr

theorem onPort_iff (port : UInt16) (i : Slot) :
    onPort t port i = true ↔ (t i).state = .opened ∧ (t i).localPort = port := by
  simp [onPort]

theorem eligible_iff (port : UInt16) (addr : Ipv4Address) (i : Slot) :
    eligible t port addr i = true ↔
      onPort t port i = true ∧ ((t i).localAddr = ipAddrAny ∨ (t i).localAddr = addr) := by
  simp [eligible]

variable {t : Sockets} {port : UInt16} {i j : Slot} {s : State} {addr : Option Ipv4Address}
  {v : Socket} {c : Call}

/-- Two clashing sockets are both eligible for some destination. -/
theorem Clash.eligible (hi : onPort t port i) (hj : onPort t port j)
    (h : Clash (t i).localAddr (t j).localAddr) :
    ∃ addr, eligible t port addr i ∧ eligible t port addr j := by
  simp only [eligible_iff, hi, hj, true_and]
  rcases h with h | h | h
  · exact ⟨_, .inl h, .inr rfl⟩
  · exact ⟨_, .inr rfl, .inl h⟩
  · exact ⟨_, .inr rfl, .inr h.symm⟩

theorem clash_of_eligible {addr : Ipv4Address} (hi : eligible t port addr i)
    (hj : eligible t port addr j) : Clash (t i).localAddr (t j).localAddr := by
  obtain ⟨-, hi⟩ := (eligible_iff t port addr i).mp hi
  obtain ⟨-, hj⟩ := (eligible_iff t port addr j).mp hj
  rcases hi with hi | hi
  · exact .inl hi
  · rcases hj with hj | hj
    · exact .inr (.inl hj)
    · exact .inr (.inr (hi.trans hj.symm))

theorem Exclusive.oneEligible (h : Exclusive t) : OneEligible t := by
  intro port addr i j hi hj
  by_contra hne
  obtain ⟨hopen, hport⟩ := (onPort_iff t port i).mp ((eligible_iff t port addr i).mp hi).1
  refine (h i hopen).2 j (Ne.symm hne) ?_ (clash_of_eligible hi hj)
  rw [hport]
  exact ((eligible_iff t port addr j).mp hj).1

theorem OneEligible.noClash (h : OneEligible t) : NoClash t := by
  intro i j port hne _ hi hj hclash
  obtain ⟨addr, hei, hej⟩ := hclash.eligible hi hj
  exact hne (h port addr i j hei hej)

/-! ## What one socket's new address and port mean for the table -/

theorem onPort_update_of_ne (t : Sockets) (v : Socket) (port : UInt16) (h : j ≠ i) :
    onPort (update t i v) port j = onPort t port j := by
  simp [onPort, update_of_ne h]

theorem free_update (t : Sockets) (i : Slot) (v : Socket) (port : UInt16) (addr : Ipv4Address) :
    Free (update t i v) i port addr ↔ Free t i port addr := by
  refine forall_congr' fun j => forall_congr' fun hj => ?_
  rw [onPort_update_of_ne t v port hj, update_of_ne hj]

/-- The table stays exclusive when a socket is closed or takes a free address and port. -/
theorem Exclusive.update (h : Exclusive t)
    (hv : v.state = .opened → v.localPort ≠ 0 ∧ Free t i v.localPort v.localAddr) :
    Exclusive (update t i v) := by
  intro k hk
  rw [update_apply] at hk ⊢
  split_ifs at hk ⊢ with hki
  · subst hki
    rw [free_update]
    exact hv hk
  · refine ⟨(h k hk).1, ?_⟩
    intro j hj hport hclash
    by_cases hji : j = i
    · subst hji
      obtain ⟨hopen, hp⟩ := (onPort_iff _ _ _).mp hport
      rw [update_self] at hopen hp hclash
      refine (hv hopen).2 k hki ?_ hclash.symm
      rw [onPort_iff]
      exact ⟨hk, hp.symm⟩
    · rw [onPort_update_of_ne t v _ hji] at hport
      rw [update_of_ne hji] at hclash
      exact (h k hk).2 j hj hport hclash

/-- A socket that takes an address and port not free ends it. -/
theorem not_oneEligible_update (hopen : v.state = .opened)
    (hv : ¬ Free t i v.localPort v.localAddr) : ¬ OneEligible (update t i v) := by
  intro hone
  simp only [Free, not_forall, not_not] at hv
  obtain ⟨j, hj, hport, hclash⟩ := hv
  have hi' : onPort (update t i v) v.localPort i := by
    simp [onPort, hopen]
  have hj' : onPort (update t i v) v.localPort j := by
    rwa [onPort_update_of_ne t v _ hj]
  have hclash' : Clash (update t i v i).localAddr (update t i v j).localAddr := by
    rwa [update_self, update_of_ne hj]
  obtain ⟨addr, hei, hej⟩ := hclash'.eligible hi' hj'
  exact hj (hone _ _ _ _ hei hej).symm

/-! ## The calls -/

theorem getFreePort_spec {s' : State} (h : getFreePort s = some (port, s')) :
    s'.sockets = s.sockets ∧ (port ≠ 0 → ∀ i, onPort s.sockets port i = false) := by
  obtain ⟨r, hr, heq⟩ := map_eq_some_iff.mp h
  cases heq
  refine ⟨rfl, ?_⟩
  intro hne i
  rcases Network.getFreePort_free hr with hzero | hfree
  · exact absurd hzero hne
  · simp only [decide_eq_false_iff_not, not_exists, Bool.not_eq_true] at hfree
    exact hfree i

theorem getFreePort_isSome (s : State) : (getFreePort s).isSome := by
  rw [getFreePort, isSome_map]
  exact Network.getFreePort_isSome _ _

theorem free_of_unused (addr : Ipv4Address)
    (h : ∀ j, onPort t port j = false) : Free t i port addr := by
  intro j _ hj
  rw [h j] at hj
  cases hj

theorem socketCreate_isSome (s : State) (addr : Option Ipv4Address) (port : UInt16) :
    (socketCreate s addr port).isSome := by
  unfold socketCreate
  split
  · rfl
  · next i _ =>
    dsimp only
    split_ifs
    · rfl
    · rfl
    · obtain ⟨r, hr⟩ := isSome_iff_exists.mp
        (getFreePort_isSome (setSocket s i ⟨.opened, 0, addr.getD ipAddrAny⟩))
      rw [hr]
      dsimp only
      split_ifs <;> rfl

theorem socketBind_isSome (s : State) (socket : Option Slot) (addr : Option Ipv4Address)
    (port : UInt16) : (socketBind s socket addr port).isSome := by
  cases socket with
  | none => rfl
  | some i =>
    simp only [socketBind]
    split_ifs
    · rfl
    · rfl
    · rfl
    · obtain ⟨r, hr⟩ := isSome_iff_exists.mp (getFreePort_isSome s)
      rw [hr]
      dsimp only
      split_ifs <;> rfl
    · rfl

theorem step_isSome (s : State) (c : Call) : (step s c).isSome := by
  cases c with
  | create addr port => rw [step, isSome_map]; exact socketCreate_isSome s addr port
  | bind socket addr port => rw [step, isSome_map]; exact socketBind_isSome s socket addr port
  | close socket => rfl

/-- `udp_socket_create` opens at most one socket, on a free address and port. -/
theorem socketCreate_exclusive {t : State} {r : Option Slot} (h : Exclusive s.sockets)
    (hc : socketCreate s addr port = some (t, r)) : Exclusive t.sockets := by
  unfold socketCreate at hc
  split at hc
  · cases hc
    exact h
  · next i hi =>
    dsimp only at hc
    -- the slot was closed, so the table with the new socket is judged against the old one
    have hupd : ∀ (s₂ : State) (v : Socket), s₂.sockets = update s.sockets i
        ⟨.opened, 0, addr.getD ipAddrAny⟩ →
        (v.state = .opened → v.localPort ≠ 0 ∧ Free s₂.sockets i v.localPort v.localAddr) →
        Exclusive (setSocket s₂ i v).sockets := by
      intro s₂ v hs₂ hv
      simp only [setSocket, hs₂, update_idem]
      simp only [hs₂, free_update] at hv
      exact h.update hv
    split_ifs at hc with hpos huse
    · cases hc
      exact hupd _ _ rfl (fun hopen => by cases hopen)
    · cases hc
      refine hupd _ _ rfl fun _ => ⟨UInt16.pos_iff_ne_zero.mp hpos, ?_⟩
      intro j hj hport hclash
      apply huse
      simp only [portInUse, decide_eq_true_eq]
      refine ⟨j, hj, hport, ?_⟩
      simp only [Bool.or_eq_true, ipAddrIsAny_iff, ipAddrCmp_iff]
      rcases hclash with hany | hany | heq
      · exact .inl (.inr hany)
      · exact .inl (.inl hany)
      · exact .inr heq.symm
    · obtain ⟨⟨p, s₂⟩, hp⟩ := isSome_iff_exists.mp
        (getFreePort_isSome (setSocket s i ⟨.opened, 0, addr.getD ipAddrAny⟩))
      obtain ⟨hs₂, hfree⟩ := getFreePort_spec hp
      rw [hp] at hc
      dsimp only at hc
      split_ifs at hc with hzero
      · cases hc
        exact hupd _ _ hs₂ (fun hopen => by cases hopen)
      · cases hc
        refine hupd _ _ hs₂ fun _ => ⟨hzero, ?_⟩
        rw [hs₂]
        exact free_of_unused _ (hfree hzero)

theorem socketClose_exclusive (h : Exclusive s.sockets) (socket : Option Slot) :
    Exclusive (socketClose s socket).1.sockets := by
  cases socket with
  | none => exact h
  | some i =>
    simp only [socketClose]
    split_ifs
    · exact h
    · exact h.update fun hopen => by cases hopen

/-- The binds whose address and port are free although the code does not test it: a bind to the
wildcard address on a port of other open sockets is refused, and a new address for a socket that
keeps its port does not clash with them. -/
def Separate (s : State) : Call → Prop
  | .bind (some i) (some addr) port =>
    (s.sockets i).state = .opened →
      (0 < port → addr = ipAddrAny → (∃ j, j ≠ i ∧ onPort s.sockets port j) →
        ∃ j, j ≠ i ∧ onPort s.sockets port j ∧ (s.sockets j).localAddr = ipAddrAny) ∧
      (port = 0 → Free s.sockets i (s.sockets i).localPort addr)
  | _ => True

/-- What `udp_socket_bind` does not test: that it binds to the wildcard address. -/
theorem free_iff_of_not_portInUse {addr : Ipv4Address} (h : ¬ portInUse t i port fun other =>
      (some addr).isNone || ipAddrIsAny other || (some addr).any (ipAddrCmp · other)) :
    Free t i port addr ↔ (addr = ipAddrAny → ¬ ∃ j, j ≠ i ∧ onPort t port j) := by
  simp only [portInUse, isNone_some, Bool.false_or, any_some, Bool.or_eq_true,
    ipAddrIsAny_iff, ipAddrCmp_iff, decide_eq_true_eq, not_exists, not_and, not_or] at h
  constructor
  · rintro hfree hany ⟨j, hj, hport⟩
    exact hfree j hj hport (.inl hany)
  · intro hnone j hj hport hclash
    obtain ⟨hjany, hne⟩ := h j hj hport
    rcases hclash with hany | hany | heq
    · exact hnone hany ⟨j, hj, hport⟩
    · exact hjany hany
    · exact hne heq

/-- A bind fails and leaves the sockets alone, or the socket has the new port and address, and the
call is separate exactly if they are free. -/
theorem socketBind_cases {t : State} {r : Int} (h : Exclusive s.sockets)
    (hb : socketBind s (some i) addr port = some (t, r)) :
    (t.sockets = s.sockets ∧ Separate s (.bind (some i) addr port)) ∨
      ∃ v : Socket, v.state = .opened ∧ v.localPort ≠ 0 ∧ t.sockets = update s.sockets i v ∧
        (Separate s (.bind (some i) addr port) ↔ Free s.sockets i v.localPort v.localAddr) := by
  simp only [socketBind] at hb
  split_ifs at hb with hopen hpos huse hzero
  · cases hb
    refine .inl ⟨rfl, ?_⟩
    cases addr with
    | none => trivial
    | some a => exact fun h => absurd h hopen
  · cases hb
    refine .inl ⟨rfl, ?_⟩
    cases addr with
    | none => trivial
    | some a =>
      refine fun _ => ⟨fun _ hany _ => ?_, fun hz => absurd hz (UInt16.pos_iff_ne_zero.mp hpos)⟩
      -- the test of the code fails only on a socket bound to the wildcard or to `addr`
      simp only [portInUse, isNone_some, Bool.false_or, any_some, Bool.or_eq_true,
        ipAddrIsAny_iff, ipAddrCmp_iff, decide_eq_true_eq] at huse
      obtain ⟨j, hj, hport, hjany | heq⟩ := huse
      · exact ⟨j, hj, hport, hjany⟩
      · exact ⟨j, hj, hport, heq ▸ hany⟩
  · cases hb
    refine .inr ⟨_, rfl, UInt16.pos_iff_ne_zero.mp hpos, rfl, ?_⟩
    cases addr with
    | none =>
      refine ⟨fun _ j hj hport => absurd ?_ huse, fun _ => trivial⟩
      simp only [portInUse, isNone_none, Bool.true_or, decide_eq_true_eq]
      exact ⟨j, hj, hport, trivial⟩
    | some a =>
      rw [show (some a).getD (s.sockets i).localAddr = a from rfl, free_iff_of_not_portInUse huse]
      simp only [portInUse, isNone_some, Bool.false_or, any_some, Bool.or_eq_true,
        ipAddrIsAny_iff, ipAddrCmp_iff, decide_eq_true_eq, not_exists, not_and, not_or] at huse
      constructor
      · intro hsep hany hex
        obtain ⟨j, hj, hport, hjany⟩ := (hsep (not_not.mp hopen)).1 hpos hany hex
        exact (huse j hj hport).1 hjany
      · intro hnone _
        exact ⟨fun _ hany hex => absurd hex (hnone hany),
          fun hz => absurd hz (UInt16.pos_iff_ne_zero.mp hpos)⟩
  · exact absurd hzero (h i (not_not.mp hopen)).1
  · cases hb
    refine .inr ⟨⟨.opened, (s.sockets i).localPort, addr.getD (s.sockets i).localAddr⟩, rfl, hzero,
      rfl, ?_⟩
    have hp : port = 0 := by
      by_contra hne
      exact hpos (UInt16.pos_iff_ne_zero.mpr hne)
    cases addr with
    | none => exact ⟨fun _ => (h i (not_not.mp hopen)).2, fun _ => trivial⟩
    | some a =>
      constructor
      · exact fun hsep => (hsep (not_not.mp hopen)).2 hp
      · exact fun hfree _ => ⟨fun hpos' => absurd hpos' hpos, fun _ => hfree⟩

theorem step_bind_none {t : State} (h : step s (.bind none addr port) = some t) : t = s := by
  cases h
  rfl

theorem step_separate {t : State} (h : Exclusive s.sockets) (hc : Separate s c)
    (hstep : step s c = some t) : Exclusive t.sockets := by
  cases c with
  | create addr port =>
    obtain ⟨⟨t', r⟩, hcreate, rfl⟩ := map_eq_some_iff.mp hstep
    exact socketCreate_exclusive h hcreate
  | bind socket addr port =>
    cases socket with
    | none => rwa [step_bind_none hstep]
    | some i =>
      obtain ⟨⟨t', r⟩, hbind, rfl⟩ := map_eq_some_iff.mp hstep
      obtain ⟨hsame, -⟩ | ⟨v, -, hport, hupd, hiff⟩ := socketBind_cases h hbind
      · rwa [hsame]
      · rw [hupd]
        exact h.update fun _ => ⟨hport, hiff.mp hc⟩
  | close socket =>
    cases hstep
    exact socketClose_exclusive h socket

theorem step_not_separate {t : State} (h : Exclusive s.sockets) (hc : ¬ Separate s c)
    (hstep : step s c = some t) : ¬ OneEligible t.sockets := by
  cases c with
  | create addr port => exact absurd trivial hc
  | bind socket addr port =>
    cases socket with
    | none => exact absurd trivial hc
    | some i =>
      obtain ⟨⟨t', r⟩, hbind, rfl⟩ := map_eq_some_iff.mp hstep
      obtain ⟨-, hsep⟩ | ⟨v, hopen, -, hupd, hiff⟩ := socketBind_cases h hbind
      · exact absurd hsep hc
      · rw [hupd]
        exact not_oneEligible_update hopen fun hfree => hc (hiff.mpr hfree)
  | close socket => exact absurd trivial hc

theorem init_exclusive : Exclusive init.sockets := by
  intro i hi
  cases hi

/-- Binding is exclusive throughout a run from `udp_init` exactly if every bind is separate. -/
theorem binding_exclusive_iff (calls : List Call) :
    Throughout step (fun s => OneEligible s.sockets ∧ NoClash s.sockets) init calls ↔
      Meets step Separate init calls := by
  apply throughout_iff_meets step (I := fun s => Exclusive s.sockets)
  · exact fun s hs => ⟨hs.oneEligible, hs.oneEligible.noClash⟩
  · intro s c hs
    obtain ⟨t, ht⟩ := isSome_iff_exists.mp (step_isSome s c)
    exact ⟨t, ht, fun hc => step_separate hs hc ht,
      fun hc hone => step_not_separate hs hc ht hone.1⟩
  · exact init_exclusive

/-- Two sockets bound to `10.0.0.1:80` and `10.0.0.2:80`; binding the second one to the
wildcard address is let through, and both are eligible for datagrams to `10.0.0.1:80`. -/
theorem binding_not_exclusive :
    ∃ s, exec step init [.create (some ⟨10, 0, 0, 1⟩) 80, .create (some ⟨10, 0, 0, 2⟩) 80,
        .bind (some 1) (some ⟨0, 0, 0, 0⟩) 80] = some s ∧
      eligible s.sockets 80 ⟨10, 0, 0, 1⟩ 0 ∧ eligible s.sockets 80 ⟨10, 0, 0, 1⟩ 1 := by
  refine ⟨_, rfl, ?_, ?_⟩ <;> decide

end UintOS.Udp
