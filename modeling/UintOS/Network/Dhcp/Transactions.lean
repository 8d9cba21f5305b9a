import UintOS.Network.Dhcp.Lease

/-!
# Transaction identifiers

All devices share one `current_xid`, which every message overwrites and a reply is checked against:
the reply to a device's latest message is rejected as soon as another device has sent a message with
another identifier. The identifiers are made from the clock; two messages within the same tick have
the same one, and exactly then the exchanges of several devices do not disturb each other.
-/

namespace UintOS.Dhcp

open Function List Network Runs

/-- What happens in the exchanges: discovery starts, the timer retries, and servers reply. -/
inductive Exchange
  | start (dev : DeviceId) (now : UInt32) (out : Outside)
  | retry (now : UInt32) (out : Slot → Outside)
  | reply (dev : DeviceId) (msg : Reply) (out : Outside)

def Exchange.request : Exchange → Request
  | .start dev now out => .start (some dev) now out
  | .retry now out => .tick now out
  | .reply dev msg out => .packet (some dev) (some msg) out

/-- The client and the id of the latest `DISCOVER` or `REQUEST` of each device. -/
structure Client where
  dhcp : State
  latest : DeviceId → Option UInt32

def Body.expectsReply : Body → Bool
  | .release _ _ => false
  | _ => true

def record (latest : DeviceId → Option UInt32) (m : Message) : DeviceId → Option UInt32 :=
  if m.body.expectsReply then update latest m.device (some m.xid) else latest

namespace Client

def start (devices : DeviceId → Device) (registered : List DeviceId) : Client :=
  ⟨init devices registered, fun _ => none⟩

def step (c : Client) (x : Exchange) : Option Client :=
  let r := perform c.dhcp x.request
  some ⟨r.1, r.2.foldl record c.latest⟩

end Client

variable (s : State)

/-- `dhcp_process_packet` compares the transaction ids, and they differ. -/
def RejectedForXid (msg : Reply) : Prop :=
  msg.wellFormed ∧ msg.xid ≠ s.currentXid

/-- A reply to the latest message of a device, with its hardware address, is not rejected
for its transaction identifier. -/
def Undisturbed (c : Client) : Prop :=
  ∀ d msg, c.latest d = some msg.xid → msg.chaddr = (c.dhcp.devices d).mac →
    ¬ RejectedForXid c.dhcp msg

def Due (c : Config) (now : UInt32) : Prop :=
  let elapsedMs := now - c.lastUpdate
  let elapsedSec := elapsedMs / 1000
  match c.state with
  | .selecting => 5000 < elapsedMs
  | .requesting => 5000 < elapsedMs
  | .bound => c.renewalTime ≤ elapsedSec
  | .renewing => c.rebindTime ≤ elapsedSec ∨ (elapsedSec - c.renewalTime) % 60 = 0
  | .rebinding => c.leaseTime ≤ elapsedSec ∨ (elapsedSec - c.rebindTime) % 60 = 0
  | _ => False

instance (c : Config) (now : UInt32) : Decidable (Due c now) := by
  unfold Due
  dsimp only
  split <;> infer_instance

/-- The device sends a `DISCOVER` or `REQUEST` with the transaction id `xid`. -/
def Sends (d : DeviceId) (xid : UInt32) : Exchange → Prop
  | .start dev _ out =>
    d = dev ∧ startSlot s (s.devices dev).name ≠ none ∧ out.buffer ∧ xid = getXid out
  | .retry now out =>
    ∃ i, (s.configs i).name ≠ [] ∧ findDeviceByName s (s.configs i).name = some d ∧
      Due (s.configs i) now ∧ (out i).buffer ∧ xid = getXid (out i)
  | .reply dev msg out =>
    d = dev ∧ (∃ i, Admitted s dev msg i ∧
      (msg.content.1 = 2 ∧ (s.configs i).state = .selecting ∨ msg.content.1 = 6)) ∧
      out.buffer ∧ xid = getXid out

/-- All messages of the step carry the same identifier, which is also that of the latest
message of every device that sends none. -/
def InStep (c : Client) (x : Exchange) : Prop :=
  ∀ d xid, Sends c.dhcp d xid x → ∀ d' xid',
    (Sends c.dhcp d' xid' x ∨ (∀ y, ¬ Sends c.dhcp d' y x) ∧ c.latest d' = some xid') →
    xid' = xid

/-! ## Single messages -/

theorem sendMessage_messages (dev : DeviceId) (body : Body) (state : LeaseState) (out : Outside) :
    (sendMessage s dev body state out).2.2 =
        (if out.buffer then [⟨dev, getXid out, (s.devices dev).mac, body⟩] else []) ∧
      (sendMessage s dev body state out).1.currentXid =
        if out.buffer then getXid out else s.currentXid := by
  unfold sendMessage
  cases out.buffer with
  | false => exact ⟨rfl, rfl⟩
  | true =>
    simp only [Bool.true_eq_false, if_false, if_true, true_and]
    split <;> rfl

/-- What the messages of a step say: the ids the devices sent, and the current one is the last. -/
structure Sent (s t : State) (messages : List Message) (sends : DeviceId → UInt32 → Prop) :
    Prop where
  expects : ∀ m ∈ messages, m.body.expectsReply
  devices : (messages.map Message.device).Nodup
  mem : ∀ d xid, (∃ m ∈ messages, m.device = d ∧ m.xid = xid) ↔ sends d xid
  current : t.currentXid = (messages.getLast?.map Message.xid).getD s.currentXid

variable {s t u : State} {dev d : DeviceId} {i : Slot} {now : UInt32} {out : Slot → Outside}
  {acc : State × List Message} {messages : List Message} {done : List Slot}
  {sends : DeviceId → UInt32 → Prop}

theorem Sent.none (hxid : t.currentXid = s.currentXid)
    (h : ∀ d xid, ¬ sends d xid) : Sent s t [] sends where
  expects := by simp
  devices := by simp
  mem d xid := by simp [h d xid]
  current := by simp [hxid]

theorem Sent.of_sendMessage {s' : State} {body : Body} {state : LeaseState} {out : Outside}
    (hxid : s'.currentXid = s.currentXid) (hbody : body.expectsReply) :
    Sent s (sendMessage s' dev body state out).1 (sendMessage s' dev body state out).2.2
      (fun d xid => d = dev ∧ out.buffer ∧ xid = getXid out) := by
  obtain ⟨hmsg, hcur⟩ := sendMessage_messages s' dev body state out
  rw [hmsg]
  constructor
  · intro m hm
    cases hb : out.buffer <;> simp [hb] at hm
    rw [hm]
    exact hbody
  · cases hb : out.buffer <;> simp
  · intro d xid
    cases hb : out.buffer with
    | false => simp
    | true =>
      simp only [if_true, mem_singleton, exists_eq_left, true_and]
      exact and_congr eq_comm eq_comm
  · rw [hcur]
    cases out.buffer <;> simp [hxid]

theorem Sent.congr {sends' : DeviceId → UInt32 → Prop}
    (h : Sent s t messages sends) (heq : ∀ d xid, sends d xid ↔ sends' d xid) :
    Sent s t messages sends' where
  expects := h.expects
  devices := h.devices
  mem d xid := (h.mem d xid).trans (heq d xid)
  current := h.current

theorem start_sent (s : State) (dev : DeviceId) (now : UInt32) (out : Outside) :
    Sent s (start s (some dev) now out).1 (start s (some dev) now out).2.2
      (fun d xid => Sends s d xid (.start dev now out)) := by
  simp only [start]
  split
  · next hnone => exact Sent.none rfl (fun d xid h => h.2.1 hnone)
  · next i hi =>
    refine Sent.congr (Sent.of_sendMessage rfl rfl) fun d xid => ?_
    simp [Sends, hi]

theorem reply_sent (s : State) (dev : DeviceId) (msg : Reply) (out : Outside) :
    Sent s (processPacket s (some dev) (some msg) out).1
      (processPacket s (some dev) (some msg) out).2.2
      (fun d xid => Sends s d xid (.reply dev msg out)) := by
  have hignored : (∀ i, ¬ Admitted s dev msg i) →
      Sent s s [] fun d xid => Sends s d xid (.reply dev msg out) := by
    intro hnot
    apply Sent.none rfl
    rintro d xid ⟨_, ⟨i, hadm, _⟩, _⟩
    exact hnot i hadm
  simp only [processPacket]
  split
  · next hform => exact hignored fun _ hadm => hform hadm.1
  split
  · next hxid => exact hignored fun _ hadm => hxid hadm.2.1
  split
  · next hmac => exact hignored fun _ hadm => hmac hadm.2.2.1
  split
  · next hnone => exact hignored fun _ hadm => by simp [hadm.2.2.2] at hnone
  · next hform hxid hmac _ i hi =>
    have hadm : Admitted s dev msg i := ⟨not_not.mp hform, not_not.mp hxid, not_not.mp hmac, hi⟩
    have honly : ∀ j, Admitted s dev msg j → j = i := by
      intro j hj
      have hij : some i = some j := hadm.2.2.2.symm.trans hj.2.2.2
      cases hij
      rfl
    -- with the one admitted slot, only the kind of the message is left to look at
    have hsends : ∀ d xid, Sends s d xid (.reply dev msg out) ↔ d = dev ∧
        (msg.content.1 = 2 ∧ (s.configs i).state = .selecting ∨ msg.content.1 = 6) ∧
        out.buffer ∧ xid = getXid out := by
      intro d xid
      constructor
      · rintro ⟨hd, ⟨j, hj, hkind⟩, hrest⟩
        obtain rfl := honly j hj
        exact ⟨hd, hkind, hrest⟩
      · rintro ⟨hd, hkind, hrest⟩
        exact ⟨hd, ⟨i, hadm, hkind⟩, hrest⟩
    split
    · next htype =>
      split_ifs with hst
      · refine Sent.congr (Sent.of_sendMessage rfl rfl) fun d xid => ?_
        simp [hsends, htype, hst]
      · refine Sent.none rfl fun d xid h => ?_
        simp [hsends, htype, hst] at h
    split
    · next hnot htype =>
      refine Sent.none rfl fun d xid h => ?_
      simp [hsends, htype] at h
    · next hnot2 hnot5 =>
      split_ifs with htype
      · refine Sent.congr (Sent.of_sendMessage rfl rfl) fun d xid => ?_
        simp [hsends, htype]
      · refine Sent.none rfl fun d xid h => ?_
        simp [hsends, hnot2, htype] at h

/-! ## The timer -/

structure OnlySlot (s t : State) (i : Slot) : Prop where
  others : ∀ j, j ≠ i → t.configs j = s.configs j
  name : (t.configs i).name = (s.configs i).name
  registered : t.registered = s.registered
  deviceName : ∀ d, (t.devices d).name = (s.devices d).name

theorem OnlySlot.refl (s : State) (i : Slot) : OnlySlot s s i :=
  ⟨fun _ _ => rfl, rfl, rfl, fun _ => rfl⟩

theorem OnlySlot.trans (h : OnlySlot s t i) (h' : OnlySlot t u i) : OnlySlot s u i where
  others j hj := (h'.others j hj).trans (h.others j hj)
  name := h'.name.trans h.name
  registered := h'.registered.trans h.registered
  deviceName d := (h'.deviceName d).trans (h.deviceName d)

theorem OnlySlot.names (h : OnlySlot s t i) (j : Slot) :
    (t.configs j).name = (s.configs j).name := by
  by_cases hj : j = i
  · rw [hj]
    exact h.name
  · rw [h.others j hj]

theorem OnlySlot.setConfig {c : Config}
    (hname : c.name = (s.configs i).name) : OnlySlot s (setConfig s i c) i where
  others j hj := update_of_ne hj _ _
  name := by simpa [Dhcp.setConfig] using hname
  registered := rfl
  deviceName _ := rfl

theorem OnlySlot.clearDevice (s : State) (i : Slot) (dev : DeviceId) :
    OnlySlot s (clearDevice s dev) i where
  others _ _ := rfl
  name := rfl
  registered := rfl
  deviceName d := by
    by_cases hd : d = dev
    · subst hd
      simp [Dhcp.clearDevice, applyConfig]
    · simp [Dhcp.clearDevice, applyConfig, update_of_ne hd]

theorem OnlySlot.findConfig (h : OnlySlot s t i) (dev : DeviceId) :
    findConfig t (t.devices dev).name = findConfig s (s.devices dev).name := by
  rw [h.deviceName dev]
  unfold Dhcp.findConfig
  congr 1
  funext j
  rw [h.names j]

theorem sendMessage_onlySlot (hfind : findConfig s (s.devices dev).name = some i) (body : Body)
    (state : LeaseState) (out : Outside) : OnlySlot s (sendMessage s dev body state out).1 i := by
  unfold sendMessage
  split_ifs
  · exact OnlySlot.refl s i
  · have hxid : OnlySlot s { s with currentXid := getXid out } i :=
      ⟨fun _ _ => rfl, rfl, rfl, fun _ => rfl⟩
    have hfind' : findConfig { s with currentXid := getXid out } (s.devices dev).name = some i :=
      hfind
    dsimp only
    rw [hfind']
    exact hxid.trans (OnlySlot.setConfig rfl)

/-- What the timer does for a slot: it changes no other, and sends a message if one is due. -/
theorem checkLease_spec (now : UInt32) (out : Outside)
    (hfind : findConfig s (s.devices dev).name = some i) :
    OnlySlot s (checkLease s i dev now out).1 i ∧
      Sent s (checkLease s i dev now out).1 (checkLease s i dev now out).2.2
        (fun d xid => Due (s.configs i) now ∧ d = dev ∧ out.buffer ∧ xid = getXid out) := by
  have hset : ∀ state, OnlySlot s (setState s i state) i := fun state => OnlySlot.setConfig rfl
  have hidle : ¬ Due (s.configs i) now → OnlySlot s s i ∧ Sent s s []
      (fun d xid => Due (s.configs i) now ∧ d = dev ∧ out.buffer ∧ xid = getXid out) :=
    fun hnot => ⟨OnlySlot.refl s i, Sent.none rfl fun d xid h => hnot h.1⟩
  have hsend : ∀ {t : State} {body : Body} {state : LeaseState}, OnlySlot s t i →
      t.currentXid = s.currentXid → body.expectsReply → Due (s.configs i) now →
      OnlySlot s (sendMessage t dev body state out).1 i ∧
        Sent s (sendMessage t dev body state out).1 (sendMessage t dev body state out).2.2
          (fun d xid => Due (s.configs i) now ∧ d = dev ∧ out.buffer ∧ xid = getXid out) := by
    intro t body state h hxid hbody hdue
    refine ⟨h.trans (sendMessage_onlySlot ((h.findConfig dev).trans hfind) _ _ out), ?_⟩
    exact (Sent.of_sendMessage hxid hbody).congr fun d xid => by simp [hdue]
  unfold checkLease
  dsimp only
  split
  · next hst =>
    split_ifs with htime
    · exact hsend (OnlySlot.refl s i) rfl rfl (by simpa [Due, hst] using htime)
    · exact hidle (by simpa [Due, hst] using htime)
  · next hst =>
    split_ifs with htime
    · exact hsend (hset .init) rfl rfl (by simpa [Due, hst] using htime)
    · exact hidle (by simpa [Due, hst] using htime)
  · next hst =>
    split_ifs with htime
    · exact hsend (hset .renewing) rfl rfl (by simpa [Due, hst] using htime)
    · exact hidle (by simpa [Due, hst] using htime)
  · next hst =>
    split_ifs with htime hagain
    · exact hsend (hset .rebinding) rfl rfl (by simp [Due, hst, htime])
    · exact hsend (OnlySlot.refl s i) rfl rfl (by simp [Due, hst, hagain])
    · exact hidle (by simp [Due, hst, htime, hagain])
  · next hst =>
    split_ifs with htime hagain
    · exact hsend ((hset .init).trans (OnlySlot.clearDevice _ i dev)) rfl rfl
        (by simp [Due, hst, htime])
    · exact hsend (OnlySlot.refl s i) rfl rfl (by simp [Due, hst, hagain])
    · exact hidle (by simp [Due, hst, htime, hagain])
  · next h₁ h₂ h₃ h₄ h₅ =>
    refine hidle fun hdue => ?_
    unfold Due at hdue
    split at hdue <;> contradiction

def SlotSends (s : State) (now : UInt32) (out : Slot → Outside) (i : Slot) (d : DeviceId)
    (xid : UInt32) : Prop :=
  (s.configs i).name ≠ [] ∧ findDeviceByName s (s.configs i).name = some d ∧
    Due (s.configs i) now ∧ (out i).buffer ∧ xid = getXid (out i)

theorem findDeviceByName_name {name : CString}
    (h : findDeviceByName s name = some d) : (s.devices d).name = name := by
  simpa using find?_some h

theorem SlotSends.slot_eq (hs : Inv s) {j : Slot} {xid xid' : UInt32}
    (hi : SlotSends s now out i d xid) (hj : SlotSends s now out j d xid') : i = j := by
  apply hs.unique i j hi.1
  rw [← findDeviceByName_name hi.2.1, findDeviceByName_name hj.2.1]

theorem Sent.append {ms ms' : List Message} {A B : DeviceId → UInt32 → Prop}
    (h : Sent s t ms A) (h' : Sent t u ms' B) (hdisj : ∀ d x y, A d x → ¬ B d y) :
    Sent s u (ms ++ ms') (fun d x => A d x ∨ B d x) where
  expects m hm := (mem_append.mp hm).elim (h.expects m) (h'.expects m)
  devices := by
    rw [map_append, nodup_append]
    refine ⟨h.devices, h'.devices, ?_⟩
    intro d hd d' hd' heq
    subst heq
    obtain ⟨m, hm, hmd⟩ := mem_map.mp hd
    obtain ⟨m', hm', hmd'⟩ := mem_map.mp hd'
    exact hdisj d m.xid m'.xid ((h.mem d _).mp ⟨m, hm, hmd, rfl⟩)
      ((h'.mem d _).mp ⟨m', hm', hmd', rfl⟩)
  mem d x := by
    rw [← h.mem, ← h'.mem]
    simp only [mem_append, or_and_right, exists_or]
  current := by
    rw [h'.current, h.current, getLast?_append]
    cases ms'.getLast? <;> rfl

/-- The state and the messages when the timer has looked at the slots of `done`. -/
structure Ticked (s : State) (now : UInt32) (out : Slot → Outside) (done : List Slot)
    (acc : State × List Message) : Prop where
  rest : ∀ i, i ∉ done → acc.1.configs i = s.configs i
  names : ∀ i, (acc.1.configs i).name = (s.configs i).name
  registered : acc.1.registered = s.registered
  deviceName : ∀ d, (acc.1.devices d).name = (s.devices d).name
  sent : Sent s acc.1 acc.2 fun d xid => ∃ i ∈ done, SlotSends s now out i d xid

theorem Ticked.findDeviceByName (h : Ticked s now out done acc)
    (name : CString) : findDeviceByName acc.1 name = findDeviceByName s name := by
  simp only [Dhcp.findDeviceByName, h.registered, h.deviceName]

theorem Ticked.checkSlot (hs : Inv s) (h : Ticked s now out done acc)
    (hi : i ∉ done) : Ticked s now out (done ++ [i]) (checkSlot now out acc i) := by
  have hconfig : acc.1.configs i = s.configs i := h.rest i hi
  -- a slot for which nothing is sent
  have hskip : (∀ d xid, ¬ SlotSends s now out i d xid) → Ticked s now out (done ++ [i]) acc := by
    intro hnot
    refine ⟨?_, h.names, h.registered, h.deviceName, ?_⟩
    · intro j hj
      exact h.rest j fun hmem => hj (mem_append_left _ hmem)
    · refine h.sent.congr fun d xid => ?_
      simp [hnot]
  unfold Dhcp.checkSlot
  split_ifs with hname
  · exact hskip fun d xid hsends => hsends.1 (hconfig ▸ hname)
  · rw [hconfig] at hname
    rw [h.findDeviceByName, hconfig]
    cases hdev : Dhcp.findDeviceByName s (s.configs i).name with
    | none => exact hskip fun d xid hsends => by simp [hsends.2.1] at hdev
    | some dev =>
      have hfind : findConfig acc.1 (acc.1.devices dev).name = some i := by
        rw [findConfig_eq_some, h.deviceName, findDeviceByName_name hdev]
        refine ⟨by rw [hconfig], ?_⟩
        intro j hj heq
        rw [h.names] at heq
        exact absurd (hs.unique i j hname heq.symm) (ne_of_gt hj)
      obtain ⟨honly, hsent⟩ := checkLease_spec now (out i) hfind
      refine ⟨?_, ?_, ?_, ?_, ?_⟩
      · intro j hj
        simp only [mem_append, mem_singleton, not_or] at hj
        exact (honly.others j hj.2).trans (h.rest j hj.1)
      · exact fun j => (honly.names j).trans (h.names j)
      · exact honly.registered.trans h.registered
      · exact fun d => (honly.deviceName d).trans (h.deviceName d)
      · have hslot : Sent acc.1 (checkLease acc.1 i dev now (out i)).1
            (checkLease acc.1 i dev now (out i)).2.2
            (fun d xid => SlotSends s now out i d xid) := by
          refine hsent.congr fun d xid => ?_
          simp only [SlotSends, hconfig, hdev, Option.some.injEq, ne_eq, hname, not_false_eq_true,
            true_and]
          constructor
          · rintro ⟨hdue, rfl, hrest⟩
            exact ⟨rfl, hdue, hrest⟩
          · rintro ⟨rfl, hdue, hrest⟩
            exact ⟨hdue, rfl, hrest⟩
        refine (h.sent.append hslot ?_).congr fun d xid => ?_
        · rintro d x y ⟨j, hj, hjs⟩ his
          exact hi (his.slot_eq hs hjs ▸ hj)
        · simp [or_and_right, exists_or]

theorem tick_sent (hs : Inv s) (now : UInt32) (out : Slot → Outside) :
    Sent s (clientTask s now out).1 (clientTask s now out).2
      (fun d xid => Sends s d xid (.retry now out)) := by
  have hloop : ∀ (slots done : List Slot) (acc : State × List Message),
      (done ++ slots).Nodup → Ticked s now out done acc →
      Ticked s now out (done ++ slots) (slots.foldl (Dhcp.checkSlot now out) acc) := by
    intro slots
    induction slots with
    | nil =>
      intro done acc _ h
      rwa [append_nil]
    | cons i slots ih =>
      intro done acc hnodup h
      have hi : i ∉ done := by
        intro hmem
        exact (nodup_append.mp hnodup).2.2 i hmem i (by simp) rfl
      rw [append_cons] at hnodup ⊢
      exact ih (done ++ [i]) _ hnodup (h.checkSlot hs hi)
  have hstart : Ticked s now out [] (s, []) :=
    ⟨fun _ _ => rfl, fun _ => rfl, rfl, fun _ => rfl, Sent.none rfl (by simp)⟩
  refine (hloop (List.finRange 8) [] (s, []) (nodup_finRange 8) hstart).sent.congr ?_
  intro d xid
  simp [Sends, SlotSends]

/-! ## The latest messages -/

theorem foldl_record (hexp : ∀ m ∈ messages, m.body.expectsReply)
    (hdev : (messages.map Message.device).Nodup) (latest : DeviceId → Option UInt32)
    (d : DeviceId) (xid : UInt32) :
    messages.foldl record latest d = some xid ↔ (∃ m ∈ messages, m.device = d ∧ m.xid = xid) ∨
        (∀ m ∈ messages, m.device ≠ d) ∧ latest d = some xid := by
  induction messages generalizing latest with
  | nil => simp
  | cons m messages ih =>
    simp only [map_cons, nodup_cons, mem_map, not_exists, not_and] at hdev
    have hm : record latest m = update latest m.device (some m.xid) := by
      simp [record, hexp m (by simp)]
    rw [foldl_cons, ih (fun n hn => hexp n (by simp [hn])) hdev.2, hm]
    by_cases hd : m.device = d
    · subst hd
      have hnone : ∀ n ∈ messages, n.device ≠ m.device := fun n hn => hdev.1 n hn
      simp only [update_self, Option.some.injEq, mem_cons, exists_eq_or_imp,
        forall_eq_or_imp, ne_eq, not_true_eq_false, false_and, or_false, true_and]
      constructor
      · rintro (⟨n, hn, hnd, -⟩ | ⟨-, hx⟩)
        · exact absurd hnd (hnone n hn)
        · exact .inl hx
      · rintro (hx | ⟨n, hn, hnd, -⟩)
        · exact .inr ⟨hnone, hx⟩
        · exact absurd hnd (hnone n hn)
    · simp [update_of_ne (Ne.symm hd), hd]

theorem exchange_sent (hs : Inv s) (x : Exchange) :
    Sent s (perform s x.request).1 (perform s x.request).2 (fun d xid => Sends s d xid x) := by
  cases x with
  | start dev now out => exact start_sent s dev now out
  | retry now out => exact tick_sent hs now out
  | reply dev msg out => exact reply_sent s dev msg out

def Current (c : Client) : Prop := ∀ d xid, c.latest d = some xid → xid = c.dhcp.currentXid

theorem undisturbed_iff (c : Client) : Undisturbed c ↔ Current c := by
  constructor
  · intro h d xid hxid
    by_contra hne
    exact h d ⟨236, 2, xid, ipAddrAny, (c.dhcp.devices d).mac, []⟩ hxid rfl ⟨⟨le_rfl, rfl⟩, hne⟩
  · intro h d msg hmsg _ hrej
    exact hrej.2 (h d msg.xid hmsg)

/-- From a state in which all latest messages carry the current identifier, the step leads
to another exactly if it is in step. -/
theorem current_step {c t : Client} {x : Exchange} (hs : Inv c.dhcp) (hc : Current c)
    (hstep : c.step x = some t) : Current t ↔ InStep c x := by
  have hsent := exchange_sent hs x
  cases hstep
  have hlatest : ∀ d xid, (perform c.dhcp x.request).2.foldl record c.latest d = some xid ↔
      Sends c.dhcp d xid x ∨ (∀ y, ¬ Sends c.dhcp d y x) ∧ c.latest d = some xid := by
    intro d xid
    rw [foldl_record hsent.expects hsent.devices, hsent.mem d xid]
    have hno : (∀ m ∈ (perform c.dhcp x.request).2, m.device ≠ d) ↔ ∀ y, ¬ Sends c.dhcp d y x := by
      simp only [← hsent.mem]
      constructor
      · rintro hne y ⟨m, hm, hmd, -⟩
        exact hne m hm hmd
      · exact fun hne m hm hmd => hne m.xid ⟨m, hm, hmd, rfl⟩
    rw [hno]
  constructor
  · intro hcur d xid hsend d' xid' hafter
    have h₁ := hcur d xid ((hlatest d xid).mpr (.inl hsend))
    have h₂ := hcur d' xid' ((hlatest d' xid').mpr hafter)
    rw [h₁, h₂]
  · intro hin d xid hd
    have hafter := (hlatest d xid).mp hd
    have hcurrent := hsent.current
    cases hlast : (perform c.dhcp x.request).2.getLast? with
    | none =>
      -- nothing was sent
      have hnil := getLast?_eq_none_iff.mp hlast
      rw [hlast] at hcurrent
      rcases hafter with hsend | ⟨-, hold⟩
      · obtain ⟨m, hm, -⟩ := (hsent.mem d xid).mpr hsend
        rw [hnil] at hm
        cases hm
      · exact (hc d xid hold).trans hcurrent.symm
    | some m =>
      rw [hlast] at hcurrent
      have hm : m ∈ (perform c.dhcp x.request).2 := mem_of_getLast? hlast
      have hsend := (hsent.mem m.device m.xid).mp ⟨m, hm, rfl, rfl⟩
      exact (hin m.device m.xid hsend d xid hafter).trans hcurrent.symm

/-- The exchanges of a run from `dhcp_init` do not disturb each other exactly if every step is in
step with the latest messages of all devices. -/
theorem exchanges_undisturbed_iff (devices : DeviceId → Device) (registered : List DeviceId)
    (exchanges : List Exchange) :
    Throughout Client.step Undisturbed (Client.start devices registered) exchanges ↔
      Meets Client.step InStep (Client.start devices registered) exchanges := by
  apply throughout_iff_meets Client.step (I := fun c => Inv c.dhcp ∧ Current c)
  · exact fun c hc => (undisturbed_iff c).mpr hc.2
  · intro c x hc
    have hiff := current_step hc.1 hc.2 (x := x) rfl
    refine ⟨_, rfl, fun hin => ⟨perform_inv hc.1 x.request, hiff.mpr hin⟩, fun hin hund => ?_⟩
    exact hin (hiff.mp ((undisturbed_iff _).mp hund))
  · exact ⟨init_inv devices registered, fun d xid h => by cases h⟩

def eth1 : Device := ⟨[101, 116, 104, 49], ⟨2, 0, 0, 0, 0, 2⟩, ipAddrAny, ipAddrAny, ipAddrAny⟩

def twoDevices (d : DeviceId) : Device := if d = 0 then eth0 else eth1

/-- `eth0` starts at time 1 and `eth1` at time 2; the reply to `eth0` is then rejected. -/
theorem second_start_disturbs : ∃ c, exec Client.step (Client.start twoDevices [0, 1])
        [.start 0 1 ⟨true, 1, 1, 1, 0⟩, .start 1 2 ⟨true, 2, 2, 2, 0⟩] = some c ∧
      c.latest 0 = some ackReply.xid ∧ ackReply.chaddr = (c.dhcp.devices 0).mac ∧
      RejectedForXid c.dhcp ackReply := by
  refine ⟨_, rfl, ?_, ?_, ⟨by decide, ?_⟩⟩ <;> decide

end UintOS.Dhcp
