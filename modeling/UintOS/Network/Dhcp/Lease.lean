import UintOS.Library.Runs
import UintOS.Network.Dhcp.Model

/-!
# The lease state machine

Every request but an accepted `ACK` leaves a slot's state as it is or puts it in `INIT`, `SELECTING`
or `REQUESTING` (`Calm`). An `ACK` is accepted in every state, and it replaces the whole slot, its
name included, by what was parsed from the message. A slot in `BOUND` therefore has no name: the
device's configuration is no longer found, the timer passes over the slot, and no renewal ever
begins.
-/

namespace UintOS.Dhcp

open Function Network Runs

variable (s : State) (dev : DeviceId)

/-- The reply passes the checks of `dhcp_process_packet` for the device with the slot `i`. -/
def Admitted (msg : Reply) (i : Slot) : Prop :=
  msg.wellFormed ∧ msg.xid = s.currentXid ∧ msg.chaddr = (s.devices dev).mac ∧
    findConfig s (s.devices dev).name = some i

instance (msg : Reply) (i : Slot) : Decidable (Admitted s dev msg i) :=
  inferInstanceAs (Decidable (_ ∧ _ ∧ _ ∧ _))

def Acked (msg : Reply) (i : Slot) : Prop :=
  Admitted s dev msg i ∧ msg.content.1 = 5

def Nacked (msg : Reply) (i : Slot) : Prop :=
  Admitted s dev msg i ∧ msg.content.1 = 6

variable (r : Request)

/-- `BOUND` is entered only by an `ACK` in one of the states that wait for one. -/
def EntersBound : Prop :=
  ∀ i, ((perform s r).1.configs i).state = .bound → (s.configs i).state ≠ .bound →
    ∃ dev msg out, r = .packet (some dev) (some msg) out ∧ Acked s dev msg i ∧
      (s.configs i).state ∈ [.requesting, .renewing, .rebinding]

/-- After an `ACK`, `dhcp_get_config` returns the acknowledged address. -/
def ConfigFound : Prop :=
  ∀ dev msg out i, r = .packet (some dev) (some msg) out → Acked s dev msg i →
    ∃ c, getConfig (perform s r).1 dev = some c ∧ c.ipAddress = msg.yiaddr

/-- A tick at which the renewal of a `BOUND` slot is due leaves it in `RENEWING` or
`REBINDING`, and it stays there until an `ACK`, a `NAK` or the end of the lease. -/
def RenewalKept : Prop :=
  ∀ i, (∀ now out dev, r = .tick now out → (s.configs i).name ≠ [] →
      findDeviceByName s (s.configs i).name = some dev → (s.configs i).state = .bound →
      (s.configs i).renewalTime ≤ (now - (s.configs i).lastUpdate) / 1000 →
      ((perform s r).1.configs i).state ∈ [.renewing, .rebinding]) ∧
    ((s.configs i).state ∈ [LeaseState.renewing, .rebinding] →
      ((perform s r).1.configs i).state ∈ [.renewing, .rebinding] ∨
      (∃ dev msg out, r = .packet (some dev) (some msg) out ∧
        (Acked s dev msg i ∨ Nacked s dev msg i)) ∨
      ∃ now out, r = .tick now out ∧
        (s.configs i).leaseTime ≤ (now - (s.configs i).lastUpdate) / 1000)

def LeaseKept : Prop :=
  EntersBound s r ∧ ConfigFound s r ∧ RenewalKept s r

/-- An accepted `ACK` is for a device without a name, in a state that waits for it or in `BOUND`. -/
def AckFits : Prop :=
  ∀ dev msg out i, r = .packet (some dev) (some msg) out → Acked s dev msg i →
    (s.devices dev).name = [] ∧ (s.configs i).state ∈ [.requesting, .renewing, .rebinding, .bound]

/-! ## Slots -/

/-- Names are not shared, `BOUND` slots have none, and no slot is in a renewal. -/
structure Inv (s : State) : Prop where
  unique : ∀ i j, (s.configs i).name ≠ [] → (s.configs i).name = (s.configs j).name → i = j
  nameless : ∀ i, (s.configs i).state = .bound → (s.configs i).name = []
  noRenewal : ∀ i, (s.configs i).state ≠ .renewing ∧ (s.configs i).state ≠ .rebinding

/-- The slots keep their names, and their states or go to one before `BOUND`. -/
def Calm (s t : State) : Prop :=
  ∀ i, (t.configs i).name = (s.configs i).name ∧ ((t.configs i).state = (s.configs i).state ∨
      (t.configs i).state ∈ [.init, .selecting, .requesting])

theorem Calm.refl : Calm s s := fun _ => ⟨rfl, .inl rfl⟩

variable {s t : State} {i : Slot} {c : Config} {name : CString} {dev : DeviceId} {msg : Reply}
  {r : Request}

theorem Calm.trans {u : State} (h : Calm s t) (h' : Calm t u) : Calm s u := by
  intro i
  refine ⟨(h' i).1.trans (h i).1, ?_⟩
  rcases (h' i).2 with hs | hs
  · rw [hs]
    exact (h i).2
  · exact .inr hs

theorem Calm.of_configs (h : t.configs = s.configs) : Calm s t :=
  fun i => ⟨by rw [h], .inl (by rw [h])⟩

theorem Calm.setConfig (hname : c.name = (s.configs i).name)
    (hst : c.state ∈ [.init, .selecting, .requesting]) : Calm s (setConfig s i c) := by
  intro j
  by_cases hj : j = i
  · subst hj
    simp only [Dhcp.setConfig, update_self]
    exact ⟨hname, .inr hst⟩
  · simp [Dhcp.setConfig, update_of_ne hj]

theorem Calm.restart (s : State) (i : Slot) : Calm s (setState s i .init) :=
  Calm.setConfig rfl (by simp)

theorem Calm.inv (h : Calm s t) (hs : Inv s) : Inv t where
  unique i j hi hij := by
    rw [(h i).1] at hi
    rw [(h i).1, (h j).1] at hij
    exact hs.unique i j hi hij
  nameless i hi := by
    rw [(h i).1]
    rcases (h i).2 with hsame | hnew
    · exact hs.nameless i (hsame.symm.trans hi)
    · rw [hi] at hnew
      simp at hnew
  noRenewal i := by
    rcases (h i).2 with hsame | hnew
    · rw [hsame]
      exact hs.noRenewal i
    · constructor <;> intro hi <;> rw [hi] at hnew <;> simp at hnew

theorem Calm.bound (h : Calm s t) (hi : (t.configs i).state = .bound) :
    (s.configs i).state = .bound := by
  rcases (h i).2 with hsame | hnew
  · exact hsame.symm.trans hi
  · rw [hi] at hnew
    simp at hnew

theorem findConfig_eq_some : findConfig s name = some i ↔
      (s.configs i).name = name ∧ ∀ j, j < i → (s.configs j).name ≠ name := by
  simp [findConfig]

theorem findConfig_eq_none : findConfig s name = none ↔ ∀ i, (s.configs i).name ≠ name := by
  simp [findConfig]

/-! ## Messages and the timer -/

section

variable (s : State) (dev : DeviceId)

theorem sendMessage_calm (body : Body) {state : LeaseState}
    (out : Outside) (hst : state ∈ [.init, .selecting, .requesting]) :
    Calm s (sendMessage s dev body state out).1 := by
  unfold sendMessage
  split_ifs
  · exact Calm.refl s
  · dsimp only
    split
    · exact Calm.of_configs rfl
    · refine Calm.trans (Calm.of_configs (t := { s with currentXid := getXid out }) rfl) ?_
      exact Calm.setConfig rfl hst

theorem sendDiscover_calm (out : Outside) :
    Calm s (sendDiscover s dev out).1 := sendMessage_calm s dev _ out (by simp)

theorem sendRequest_calm (ip server : Ipv4Address) (out : Outside) :
    Calm s (sendRequest s dev ip server out).1 := sendMessage_calm s dev _ out (by simp)

end

theorem release_calm (s : State) (dev : Option DeviceId) (out : Outside) :
    Calm s (release s dev out).1 := by
  cases dev with
  | none => exact Calm.refl s
  | some dev =>
    simp only [release, sendRelease]
    split
    · exact Calm.refl s
    · split_ifs
      · exact Calm.refl s
      · exact Calm.refl s
      · refine Calm.trans (Calm.of_configs (t := { s with currentXid := getXid out }) rfl) ?_
        exact Calm.restart { s with currentXid := getXid out } _

/-- The timer finds a named slot before `BOUND`, so it at most starts over. -/
theorem checkLease_calm (hs : Inv s) (hname : (s.configs i).name ≠ []) (dev : DeviceId)
    (now : UInt32) (out : Outside) : Calm s (checkLease s i dev now out).1 := by
  unfold checkLease
  dsimp only
  split
  · split_ifs
    · exact sendDiscover_calm s dev out
    · exact Calm.refl s
  · split_ifs
    · exact (Calm.restart s i).trans (sendDiscover_calm (setState s i .init) dev out)
    · exact Calm.refl s
  · next hbound => exact absurd (hs.nameless i hbound) hname
  · next hrenew => exact absurd hrenew (hs.noRenewal i).1
  · next hrebind => exact absurd hrebind (hs.noRenewal i).2
  · exact Calm.refl s

theorem clientTask_calm (hs : Inv s) (now : UInt32) (out : Slot → Outside) :
    Calm s (clientTask s now out).1 := by
  have hloop : ∀ (slots : List Slot) (acc : State × List Message), Inv acc.1 →
      Calm acc.1 (slots.foldl (checkSlot now out) acc).1 := by
    intro slots
    induction slots with
    | nil => exact fun acc _ => Calm.refl acc.1
    | cons i slots ih =>
      intro acc hacc
      have hstep : Calm acc.1 (checkSlot now out acc i).1 := by
        unfold checkSlot
        split_ifs with hname
        · exact Calm.refl acc.1
        · split
          · exact Calm.refl acc.1
          · exact checkLease_calm hacc hname _ now (out i)
      exact hstep.trans (ih _ (hstep.inv hacc))
  exact hloop _ _ hs

/-! ## Starting -/

theorem Inv.setConfig (hs : Inv s) (hfree : ∀ j, j ≠ i → c.name ≠ [] → (s.configs j).name ≠ c.name)
    (hbound : c.state = .bound → c.name = [])
    (hrenewal : c.state ≠ .renewing ∧ c.state ≠ .rebinding) : Inv (setConfig s i c) := by
  constructor
  · intro j k hj hjk
    by_cases hji : j = i
    · by_cases hki : k = i
      · rw [hji, hki]
      · subst hji
        simp only [Dhcp.setConfig, update_self, update_of_ne hki] at hj hjk
        exact absurd hjk.symm (hfree k hki hj)
    · by_cases hki : k = i
      · subst hki
        simp only [Dhcp.setConfig, update_self, update_of_ne hji] at hj hjk
        exact absurd hjk (hfree j hji (hjk ▸ hj))
      · simp only [Dhcp.setConfig, update_of_ne hji, update_of_ne hki] at hj hjk
        exact hs.unique j k hj hjk
  · intro j hj
    by_cases hji : j = i
    · subst hji
      simp only [Dhcp.setConfig, update_self] at hj ⊢
      exact hbound hj
    · simp only [Dhcp.setConfig, update_of_ne hji] at hj ⊢
      exact hs.nameless j hj
  · intro j
    by_cases hji : j = i
    · subst hji
      simpa only [Dhcp.setConfig, update_self] using hrenewal
    · simp only [Dhcp.setConfig, update_of_ne hji]
      exact hs.noRenewal j

theorem start_inv (hs : Inv s) (dev : Option DeviceId) (now : UInt32)
    (out : Outside) : Inv (start s dev now out).1 := by
  cases dev with
  | none => exact hs
  | some dev =>
    simp only [start]
    split
    · exact hs
    · next i hi =>
      refine (sendDiscover_calm _ dev out).inv ?_
      -- the slot had the device's name already, or no slot has it
      have hfree : ∀ j, j ≠ i → (s.devices dev).name ≠ [] →
          (s.configs j).name ≠ (s.devices dev).name := by
        intro j hj hne heq
        cases hfind : findConfig s (s.devices dev).name with
        | none => exact findConfig_eq_none.mp hfind j heq
        | some k =>
          rw [startSlot, hfind] at hi
          cases hi
          have hk := (findConfig_eq_some.mp hfind).1
          exact hj (hs.unique j i (by rwa [heq]) (heq.trans hk.symm))
      exact hs.setConfig hfree (fun h => by cases h) (by simp [Config.zero])

theorem start_bound {dev : Option DeviceId} {now : UInt32} {out : Outside}
    (h : ((start s dev now out).1.configs i).state = .bound) : (s.configs i).state = .bound := by
  cases dev with
  | none => exact h
  | some dev =>
    simp only [start] at h
    split at h
    · exact h
    · next j _ =>
      have hb := (sendDiscover_calm _ dev out).bound h
      by_cases hij : i = j
      · subst hij
        simp [setConfig, Config.zero] at hb
      · simpa only [setConfig, update_of_ne hij] using hb

/-! ## Replies -/

theorem parseOption_kept (options : List UInt8) (opt len : UInt8) (pos : ℕ) (acc : Int × Config) :
    (parseOption options opt len pos acc).2.name = acc.2.name ∧
      (parseOption options opt len pos acc).2.ipAddress = acc.2.ipAddress := by
  unfold parseOption
  dsimp only
  split_ifs <;> exact ⟨rfl, rfl⟩

theorem parseLoop_kept (options : List UInt8) (rounds pos : ℕ) (acc : Int × Config) :
    (parseLoop options rounds pos acc).2.name = acc.2.name ∧
      (parseLoop options rounds pos acc).2.ipAddress = acc.2.ipAddress := by
  induction rounds generalizing pos acc with
  | zero => exact ⟨rfl, rfl⟩
  | succ rounds ih =>
    unfold parseLoop
    split_ifs
    · exact ⟨rfl, rfl⟩
    · exact ih _ _
    · exact ⟨rfl, rfl⟩
    · dsimp only
      split_ifs
      · exact ⟨rfl, rfl⟩
      · obtain ⟨hname, hip⟩ := ih (pos + 2 + (byteAt options (pos + 1)).toNat)
          (parseOption options (byteAt options pos) (byteAt options (pos + 1)) (pos + 2) acc)
        obtain ⟨hname', hip'⟩ := parseOption_kept options (byteAt options pos)
          (byteAt options (pos + 1)) (pos + 2) acc
        exact ⟨hname.trans hname', hip.trans hip'⟩

theorem Reply.content_kept (msg : Reply) :
    msg.content.2.name = [] ∧ msg.content.2.ipAddress = msg.yiaddr := by
  unfold Reply.content parseOptions
  split_ifs
  · exact ⟨rfl, rfl⟩
  · exact parseLoop_kept _ _ _ _

/-- The slot after an accepted `ACK`. -/
def boundConfig (msg : Reply) (out : Outside) : Config :=
  { msg.content.2 with state := .bound, lastUpdate := out.update }

/-- What a reply does: an accepted `ACK` replaces the slot, anything else is calm. -/
theorem processPacket_cases (s : State) (dev : DeviceId) (msg : Reply) (out : Outside) :
    (∃ i, Acked s dev msg i ∧ (processPacket s (some dev) (some msg) out).1 =
        applyConfig (setConfig s i (boundConfig msg out)) dev (boundConfig msg out)) ∨
      ((∀ i, ¬ Acked s dev msg i) ∧ Calm s (processPacket s (some dev) (some msg) out).1) := by
  simp only [processPacket]
  split
  · next hform => exact .inr ⟨fun i hi => hform hi.1.1, Calm.refl s⟩
  split
  · next hxid => exact .inr ⟨fun i hi => hxid hi.1.2.1, Calm.refl s⟩
  split
  · next hmac => exact .inr ⟨fun i hi => hmac hi.1.2.2.1, Calm.refl s⟩
  split
  · next hnone =>
    refine .inr ⟨fun i hi => ?_, Calm.refl s⟩
    rw [hi.1.2.2.2] at hnone
    cases hnone
  · next hform hxid hmac _ i hi =>
    have hadm : Admitted s dev msg i := ⟨not_not.mp hform, not_not.mp hxid, not_not.mp hmac, hi⟩
    split
    · next htype =>
      refine .inr ⟨fun j hj => ?_, ?_⟩
      · rw [hj.2] at htype
        simp at htype
      · split_ifs
        · exact sendRequest_calm s dev _ _ out
        · exact Calm.refl s
    split
    · next htype => exact .inl ⟨i, ⟨hadm, htype⟩, rfl⟩
    · next htype =>
      refine .inr ⟨fun j hj => htype hj.2, ?_⟩
      split_ifs
      · exact (Calm.restart s i).trans (sendDiscover_calm (setState s i .init) dev out)
      · exact Calm.refl s

theorem Inv.bind (hs : Inv s) (i : Slot) (msg : Reply) (out : Outside) :
    Inv (Dhcp.setConfig s i (boundConfig msg out)) := by
  have hname : (boundConfig msg out).name = [] := msg.content_kept.1
  exact hs.setConfig (fun j _ hne => absurd hname hne) (fun _ => hname) (by simp [boundConfig])

/-! ## Runs -/

theorem perform_inv (hs : Inv s) (r : Request) : Inv (perform s r).1 := by
  cases r with
  | start dev now out => exact start_inv hs dev now out
  | release dev out => exact (release_calm s dev out).inv hs
  | packet dev buffer out =>
    cases dev with
    | none => exact hs
    | some dev =>
      cases buffer with
      | none => exact hs
      | some msg =>
        obtain ⟨i, -, hr⟩ | ⟨-, hcalm⟩ := processPacket_cases s dev msg out
        · simp only [perform, hr]
          exact (Calm.of_configs (s := setConfig s i (boundConfig msg out))
            (t := applyConfig (setConfig s i (boundConfig msg out)) dev (boundConfig msg out))
            rfl).inv (hs.bind i msg out)
        · exact hcalm.inv hs
  | tick now out => exact (clientTask_calm hs now out).inv hs

theorem init_inv (devices : DeviceId → Device) (registered : List DeviceId) :
    Inv (init devices registered) where
  unique i j hi := absurd rfl hi
  nameless i _ := rfl
  noRenewal i := by simp [init, Config.zero]

/-- No renewal ever begins, so none is given up. -/
theorem Inv.renewalKept (hs : Inv s) (r : Request) : RenewalKept s r := by
  intro i
  refine ⟨fun now out dev _ hname _ hbound => absurd (hs.nameless i hbound) hname, ?_⟩
  intro hrenew
  simp [hs.noRenewal i] at hrenew

theorem setConfig_bound {j : Slot} (h : ((setConfig s i c).configs j).state = .bound)
    (hj : j ≠ i) : (s.configs j).state = .bound := by
  simpa only [setConfig, update_of_ne hj] using h

/-- After an `ACK` the device is found exactly if it has no name. -/
theorem getConfig_acked (hs : Inv s) (out : Outside)
    (hfind : findConfig s (s.devices dev).name = some i) :
    getConfig (applyConfig (setConfig s i (boundConfig msg out)) dev (boundConfig msg out)) dev =
      if (s.devices dev).name = [] then some (boundConfig msg out) else none := by
  have hname : (boundConfig msg out).name = [] := msg.content_kept.1
  have hdev : ((applyConfig (setConfig s i (boundConfig msg out)) dev
      (boundConfig msg out)).devices dev).name = (s.devices dev).name := by
    simp [applyConfig, setConfig]
  obtain ⟨hi, hfirst⟩ := findConfig_eq_some.mp hfind
  rw [getConfig, hdev]
  split_ifs with hempty
  · have hsame : findConfig (applyConfig (setConfig s i (boundConfig msg out)) dev
        (boundConfig msg out)) (s.devices dev).name = some i := by
      rw [findConfig_eq_some]
      simp only [applyConfig, setConfig]
      refine ⟨by rw [update_self, hname, hempty], ?_⟩
      intro j hj
      rw [update_of_ne (ne_of_lt hj)]
      exact hfirst j hj
    rw [hsame]
    simp [applyConfig, setConfig]
  · have hnone : findConfig (applyConfig (setConfig s i (boundConfig msg out)) dev
        (boundConfig msg out)) (s.devices dev).name = none := by
      rw [findConfig_eq_none]
      intro j
      simp only [applyConfig, setConfig]
      rw [update_apply]
      split_ifs with hj
      · subst hj
        rw [hname]
        exact fun h => hempty h.symm
      · exact fun h => hj (hs.unique j i (by rwa [h]) (h.trans hi.symm))
    rw [hnone]
    rfl

/-- Only an accepted `ACK` puts a slot in `BOUND`. -/
theorem perform_bound (hs : Inv s) (h : ((perform s r).1.configs i).state = .bound)
    (hnot : (s.configs i).state ≠ .bound) :
    ∃ dev msg out, r = .packet (some dev) (some msg) out ∧ Acked s dev msg i := by
  cases r with
  | start dev now out => exact absurd (start_bound h) hnot
  | release dev out => exact absurd ((release_calm s dev out).bound h) hnot
  | packet dev buffer out =>
    cases dev with
    | none => exact absurd h hnot
    | some dev =>
      cases buffer with
      | none => exact absurd h hnot
      | some msg =>
        obtain ⟨j, hack, hr⟩ | ⟨-, hcalm⟩ := processPacket_cases s dev msg out
        · simp only [perform, hr] at h
          by_cases hij : i = j
          · exact ⟨dev, msg, out, rfl, hij ▸ hack⟩
          · exact absurd (setConfig_bound (s := s) h hij) hnot
        · exact absurd (hcalm.bound h) hnot
  | tick now out => exact absurd ((clientTask_calm hs now out).bound h) hnot

theorem Acked.perform (hack : Acked s dev msg i) (out : Outside) :
    (perform s (.packet (some dev) (some msg) out)).1 =
      applyConfig (setConfig s i (boundConfig msg out)) dev (boundConfig msg out) := by
  obtain ⟨j, hj, hr⟩ | ⟨hnone, -⟩ := processPacket_cases s dev msg out
  · have hij : some i = some j := hack.1.2.2.2.symm.trans hj.1.2.2.2
    cases hij
    exact hr
  · exact absurd hack (hnone i)

theorem leaseKept_iff (hs : Inv s) (r : Request) : LeaseKept s r ↔ AckFits s r := by
  constructor
  · rintro ⟨hbound, hfound, -⟩ dev msg out i rfl hack
    constructor
    · by_contra hne
      obtain ⟨c, hc, -⟩ := hfound dev msg out i rfl hack
      rw [hack.perform out, getConfig_acked hs out hack.1.2.2.2, if_neg hne] at hc
      cases hc
    · by_cases hst : (s.configs i).state = .bound
      · simp [hst]
      · have hnew : ((perform s (.packet (some dev) (some msg) out)).1.configs i).state =
            .bound := by
          rw [hack.perform out]
          simp [applyConfig, setConfig, boundConfig]
        obtain ⟨_, _, _, _, _, hmem⟩ := hbound i hnew hst
        simp only [List.mem_cons, List.not_mem_nil, or_false] at hmem ⊢
        tauto
  · intro hfits
    refine ⟨?_, ?_, hs.renewalKept r⟩
    · intro i hnew hnot
      obtain ⟨dev, msg, out, rfl, hack⟩ := perform_bound hs hnew hnot
      have hmem := (hfits dev msg out i rfl hack).2
      refine ⟨dev, msg, out, rfl, hack, ?_⟩
      simp only [List.mem_cons, List.not_mem_nil, or_false] at hmem ⊢
      tauto
    · rintro dev msg out i rfl hack
      refine ⟨boundConfig msg out, ?_, msg.content_kept.2⟩
      rw [hack.perform out, getConfig_acked hs out hack.1.2.2.2,
        if_pos (hfits dev msg out i rfl hack).1]

theorem step_inv (hs : Inv s) (h : step s r = some t) : Inv t := by
  cases h
  exact perform_inv hs r

/-- Leases are kept in a run from `dhcp_init` exactly if every `ACK` accepted is for a device
without a name that waits for it. -/
theorem leases_kept_iff (devices : DeviceId → Device) (registered : List DeviceId)
    (requests : List Request) :
    Meets step LeaseKept (init devices registered) requests ↔
      Meets step AckFits (init devices registered) requests :=
  meets_congr step (fun _ _ _ hs _ h => step_inv hs h) (fun _ r hs => leaseKept_iff hs r)
    (init_inv devices registered) requests

/-- `eth0` with the options of an `ACK`, for a message sent at time 1. -/
def eth0 : Device := ⟨[101, 116, 104, 48], ⟨2, 0, 0, 0, 0, 1⟩, ipAddrAny, ipAddrAny, ipAddrAny⟩

def ackReply : Reply :=
  ⟨544, 2, 0x10001, ⟨10, 0, 0, 7⟩, ⟨2, 0, 0, 0, 0, 1⟩, [99, 130, 83, 99, 53, 1, 5, 255]⟩

/-- An `ACK` that arrives while `eth0` is still selecting an offer is accepted, and then
`eth0` has no configuration. -/
theorem ack_loses_config :
    ∃ s t, step (init (fun _ => eth0) [0]) (.start (some 0) 1 ⟨true, 1, 1, 1, 0⟩) = some s ∧
      step s (.packet (some 0) (some ackReply) ⟨true, 2, 2, 2, 0⟩) = some t ∧
      (s.configs 0).state = .selecting ∧ (t.configs 0).state = .bound ∧ getConfig t 0 = none := by
  refine ⟨_, _, rfl, rfl, ?_, ?_, ?_⟩ <;> decide

end UintOS.Dhcp
