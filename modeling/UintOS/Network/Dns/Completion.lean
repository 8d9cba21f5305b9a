import UintOS.Library.Runs
import UintOS.Network.Dns.Model

/-!
# Lookups complete once

A run of `dns_lookup` calls, received packets and timer ticks, with the results of the lookups and
the invocations of their callbacks recorded; the callback of the `n`-th lookup is the number `n`.

`dns_lookup` activates the slot before it sends the query and leaves it active when the sending
fails, so a lookup that returned an error is still answered, or given up by the timer, through its
callback. When no query fails to be sent, lookups complete at most once and refused ones never.
-/

namespace UintOS.Dns

open Function List Network Option Runs

inductive Request
  | lookup (hostname : Option CString) (callback : Bool) (clock : ℕ → UInt32) (out : Outside)
  | packet (buffer : Option (List UInt8)) (clock : ℕ → UInt32)
  | tick (now : UInt32)

/-- The client with the results of its lookups and the invocations, in order. -/
structure Client where
  dns : State
  results : List Int
  invocations : List Invocation

def Client.start (server : Ipv4Address) : Client := ⟨init server, [], []⟩

variable (rounds : ℕ) (c : Client)

/-- The new state, the invocations and the result of a lookup. -/
def handle : Request → Option (State × List Invocation × List Int)
  | .lookup hostname callback clock out =>
    let r := lookup c.dns hostname (if callback then some c.results.length else none) clock out
    some (r.1, r.2.1, [r.2.2])
  | .packet buffer clock =>
    (processPacket c.dns buffer clock rounds).map fun r => (r.1, r.2.1, [])
  | .tick now =>
    let r := clientTask c.dns now
    some (r.1, r.2, [])

def step (r : Request) : Option Client :=
  (handle rounds c r).map fun h => ⟨h.1, c.results ++ h.2.2, c.invocations ++ h.2.1⟩

def times (invocations : List Invocation) (callback : ℕ) : ℕ :=
  invocations.countP fun v => v.callback = callback

/-- How many bytes the labels of a name take: a dot stands for the length of the label
behind it, and the first label needs one more unless the name ends in a dot. -/
def encodedLength (hostname : CString) : ℕ :=
  if hostname = [] then 0
  else if hostname.getLast? = some dot then hostname.length
  else hostname.length + 1

/-- The name is not empty and fits, there are buffer and device, and `udp_send` succeeds. -/
def Sendable (hostname : CString) (id : UInt16) (out : Outside) : Prop :=
  hostname ≠ [] ∧ encodedLength hostname ≤ 495 ∧ out.buffer ∧ out.device ∧
    ∀ packet, encodeQuery hostname id = some packet → 0 ≤ out.udpSend packet

/-- The lookup gets a slot: there is a server, no valid cached address, and a free slot. -/
def Starts (s : State) (hostname : CString) (now : UInt32) : Prop :=
  getServer s ≠ none ∧ (∀ ip, getCached s hostname now ≠ .valid ip) ∧ findFreeQuerySlot s ≠ none

def Sends : Request → Prop
  | .lookup (some hostname) true clock out =>
    Starts c.dns hostname (clock 0) → Sendable hostname c.dns.nextQueryId out
  | _ => True

theorem encodedLength_label (label rest : CString) :
    encodedLength (label ++ dot :: rest) = label.length + 1 + encodedLength rest := by
  cases rest with
  | nil => simp [encodedLength]
  | cons b rest =>
    have hlast : (label ++ dot :: b :: rest).getLast? = (b :: rest).getLast? := by
      rw [getLast?_append, getLast?_cons_cons, or_of_isSome (by simp)]
    simp only [encodedLength, hlast, append_eq_nil_iff, reduceCtorEq, and_false, if_false,
      length_append, length_cons]
    split_ifs <;> omega

theorem encodedLength_last {label : CString} (hne : label ≠ []) (hlabel : dot ∉ label) :
    encodedLength label = label.length + 1 := by
  have hlast : label.getLast? ≠ some dot := fun h => hlabel (mem_of_getLast? h)
  simp [encodedLength, hne, hlast]

/-- A name is its first label, or its first label, a dot and the labels behind it. -/
theorem label_cases (hostname : CString) : dot ∉ hostname.takeWhile (· ≠ dot) ∧
      ((hostname.dropWhile (· ≠ dot) = [] ∧ hostname = hostname.takeWhile (· ≠ dot)) ∨
        ∃ rest, hostname.dropWhile (· ≠ dot) = dot :: rest ∧
          hostname = hostname.takeWhile (· ≠ dot) ++ dot :: rest) := by
  have hsplit := takeWhile_append_dropWhile (p := fun x => decide (x ≠ dot)) (l := hostname)
  refine ⟨?_, ?_⟩
  · intro hmem
    have hall := all_takeWhile (p := fun x => decide (x ≠ dot)) (l := hostname)
    simpa using all_eq_true.mp hall dot hmem
  · cases hdrop : hostname.dropWhile (· ≠ dot) with
    | nil =>
      rw [hdrop, append_nil] at hsplit
      exact .inl ⟨rfl, hsplit.symm⟩
    | cons b rest =>
      have hhead := head?_dropWhile_not (fun x => decide (x ≠ dot)) hostname
      rw [hdrop] at hhead
      have hb : b = dot := by simpa using hhead
      subst hb
      rw [hdrop] at hsplit
      exact .inr ⟨rest, rfl, hsplit.symm⟩

variable {rounds n : ℕ} {c : Client} {s t : State} {invocations invoked : List Invocation}
    {i : QuerySlot}
  {buffer : Option (List UInt8)} {results : List Int} {ip : Option Ipv4Address} {clock : ℕ → UInt32}
  {hostname : CString} {now : UInt32} {id : UInt16} {r : Int}

/-- The labels are written exactly if they fit behind the packet. -/
theorem encodeLabels_spec (packet : List UInt8)
    (hrounds : hostname.length ≤ rounds) (hpacket : packet.length ≤ maxPacketSize) :
    if packet.length + encodedLength hostname ≤ maxPacketSize then
      ∃ q, encodeLabels rounds hostname packet = some q ∧
        q.length = packet.length + encodedLength hostname
    else encodeLabels rounds hostname packet = none := by
  induction rounds generalizing hostname packet with
  | zero =>
    obtain rfl := length_eq_zero_iff.mp (Nat.le_zero.mp hrounds)
    rw [if_pos (by simpa [encodedLength] using hpacket)]
    exact ⟨packet, rfl, rfl⟩
  | succ rounds ih =>
    by_cases hne : hostname = []
    · subst hne
      rw [if_pos (by simpa [encodedLength] using hpacket)]
      exact ⟨packet, rfl, rfl⟩
    · obtain ⟨hlabel, hcases⟩ := label_cases hostname
      simp only [encodeLabels, if_neg hne]
      generalize hostname.takeWhile (· ≠ dot) = label at hlabel hcases ⊢
      rcases hcases with ⟨hdrop, rfl⟩ | ⟨rest, hdrop, rfl⟩
      · rw [hdrop, encodedLength_last hne hlabel]
        split_ifs with h₁ h₂ h₂
        · omega
        · exact ⟨_, rfl, by simp⟩
        · rfl
        · omega
      · rw [hdrop, encodedLength_label label rest]
        have hrest : rest.length ≤ rounds := by
          simp only [length_append, length_cons] at hrounds
          omega
        by_cases hfit : maxPacketSize < packet.length + 1 + label.length
        · rw [if_pos hfit, if_neg (by omega)]
        · rw [if_neg hfit]
          have hlen : (packet ++ UInt8.ofNat label.length :: label).length =
              packet.length + (label.length + 1) := by simp
          have hnext := ih (packet ++ UInt8.ofNat label.length :: label) hrest (by omega)
          simpa only [hlen, Nat.add_assoc] using hnext

theorem encodeQuery_isSome (hostname : CString) (id : UInt16) :
    (encodeQuery hostname id).isSome ↔ encodedLength hostname ≤ 495 := by
  have hspec := encodeLabels_spec (bytes16 id ++ bytes16 0x0100 ++ bytes16 1 ++ [0, 0, 0, 0, 0, 0])
    (le_refl hostname.length) (by simp [bytes16, maxPacketSize])
  have hheader : (bytes16 id ++ bytes16 0x0100 ++ bytes16 1 ++
    [0, 0, 0, 0, 0, 0]).length = 12 := rfl
  rw [hheader, maxPacketSize] at hspec
  simp only [encodeQuery]
  split_ifs at hspec with hfit
  · obtain ⟨q, hq, hlen⟩ := hspec
    rw [hq]
    simp only [length_append, length_singleton, hlen, maxPacketSize]
    split_ifs with hbig
    · simp only [isSome_none, Bool.false_eq_true, false_iff]
      omega
    · simp only [isSome_some, true_iff]
      omega
  · rw [hspec]
    simp only [isSome_none, Bool.false_eq_true, false_iff]
    omega

theorem sendQuery_nonneg {out : Outside}
    (h : Sendable hostname id out) : 0 ≤ sendQuery hostname id out := by
  obtain ⟨hne, hfit, hbuffer, hdevice, hsend⟩ := h
  obtain ⟨packet, hpacket⟩ := isSome_iff_exists.mp ((encodeQuery_isSome hostname id).mpr hfit)
  simp only [sendQuery, if_neg hne, hbuffer, hdevice, hpacket, Bool.true_eq_false, if_false]
  exact hsend packet hpacket

/-! ## Pending lookups -/

/-- The lookup did not fail. -/
def Accepted (results : List Int) (n : ℕ) : Prop := ∃ result, results[n]? = some result ∧ 0 ≤ result

/-- The callbacks of the active slots belong to different lookups that did not fail and
have not completed, and no lookup has completed twice. -/
structure Inv (c : Client) : Prop where
  pending : ∀ i n, (c.dns.queries i).active → (c.dns.queries i).callback = some n →
    Accepted c.results n ∧ times c.invocations n = 0
  distinct : ∀ i j n, (c.dns.queries i).active → (c.dns.queries j).active →
    (c.dns.queries i).callback = some n → (c.dns.queries j).callback = some n → i = j
  once : ∀ n, times c.invocations n ≤ 1
  accepted : ∀ n, times c.invocations n ≠ 0 → Accepted c.results n

theorem Accepted.append (h : Accepted results n) (more : List Int) :
    Accepted (results ++ more) n := by
  obtain ⟨r, hr, hpos⟩ := h
  have hlt : n < results.length := (List.getElem?_eq_some_iff.mp hr).1
  exact ⟨r, by rwa [List.getElem?_append_left hlt], hpos⟩

theorem Accepted.lt (h : Accepted results n) : n < results.length := by
  obtain ⟨r, hr, -⟩ := h
  exact (List.getElem?_eq_some_iff.mp hr).1

theorem times_append (l l' : List Invocation) (n : ℕ) :
    times (l ++ l') n = times l n + times l' n :=
  countP_append

theorem times_singleton (v : Invocation) (n : ℕ) :
    times [v] n = if v.callback = n then 1 else 0 := by
  simp [times, countP_cons]

theorem Inv.congr {s' : State} (h : Inv ⟨s, results, invocations⟩)
    (hq : s'.queries = s.queries) : Inv ⟨s', results, invocations⟩ where
  pending := by simpa only [hq] using h.pending
  distinct := by simpa only [hq] using h.distinct
  once := h.once
  accepted := h.accepted

theorem Inv.more_results (h : Inv ⟨s, results, invocations⟩) (more : List Int) :
    Inv ⟨s, results ++ more, invocations⟩ where
  pending i n hi hn := ⟨(h.pending i n hi hn).1.append more, (h.pending i n hi hn).2⟩
  distinct := h.distinct
  once := h.once
  accepted n hn := (h.accepted n hn).append more

theorem completeQuery_active {j : QuerySlot} (h : ((completeQuery s i ip).1.queries j).active) :
    j ≠ i ∧ (completeQuery s i ip).1.queries j = s.queries j := by
  have hne : j ≠ i := by
    rintro rfl
    simp [completeQuery] at h
  exact ⟨hne, update_of_ne hne _ _⟩

theorem Inv.complete (h : Inv ⟨s, results, invocations⟩)
    (hi : (s.queries i).active) (ip : Option Ipv4Address) :
    Inv ⟨(completeQuery s i ip).1, results, invocations ++ (completeQuery s i ip).2⟩ := by
  -- the one callback the completion may invoke was pending in this slot only
  have hnew : ∀ n, times (completeQuery s i ip).2 n =
      if (s.queries i).callback = some n then 1 else 0 := by
    intro n
    cases hcb : (s.queries i).callback with
    | none => simp [completeQuery, hcb, times]
    | some m => simp [completeQuery, hcb, times_singleton]
  constructor
  · intro j n hj hn
    obtain ⟨hne, hsame⟩ := completeQuery_active hj
    rw [hsame] at hj hn
    refine ⟨(h.pending j n hj hn).1, ?_⟩
    have hother : (s.queries i).callback ≠ some n := fun hcb => hne (h.distinct j i n hj hi hn hcb)
    rw [times_append, hnew, if_neg hother, (h.pending j n hj hn).2]
  · intro j k n hj hk hjn hkn
    obtain ⟨-, hsame⟩ := completeQuery_active hj
    obtain ⟨-, hsame'⟩ := completeQuery_active hk
    rw [hsame] at hj hjn
    rw [hsame'] at hk hkn
    exact h.distinct j k n hj hk hjn hkn
  · intro n
    rw [times_append, hnew]
    split_ifs with hcb
    · rw [(h.pending i n hi hcb).2]
    · exact h.once n
  · intro n hn
    rw [times_append, hnew] at hn
    split_ifs at hn with hcb
    · exact (h.pending i n hi hcb).1
    · exact h.accepted n hn

/-- A retry changes neither the callback of the slot nor whether it is active. -/
theorem Inv.retry (h : Inv ⟨s, results, invocations⟩) {q : Query}
    (hactive : q.active = (s.queries i).active) (hcb : q.callback = (s.queries i).callback) :
    Inv ⟨{ s with queries := update s.queries i q }, results, invocations⟩ := by
  have hsame : ∀ j, (update s.queries i q j).active = (s.queries j).active ∧
      (update s.queries i q j).callback = (s.queries j).callback := by
    intro j
    rw [update_apply]
    split_ifs with hj
    · subst hj
      exact ⟨hactive, hcb⟩
    · exact ⟨rfl, rfl⟩
  constructor
  · intro j n
    simpa only [hsame] using h.pending j n
  · intro j k n
    simpa only [hsame] using h.distinct j k n
  · exact h.once
  · exact h.accepted

theorem Inv.checkQuery {acc : State × List Invocation}
    (h : Inv ⟨acc.1, results, invocations ++ acc.2⟩) (i : QuerySlot) :
    Inv ⟨(checkQuery now acc i).1, results, invocations ++ (checkQuery now acc i).2⟩ := by
  unfold Dns.checkQuery
  dsimp only
  split_ifs with hdue hretry
  · exact h.retry rfl rfl
  · have hdone := h.complete hdue.1 none
    rwa [append_assoc] at hdone
  · exact h

/-- What holds before the timer and after each slot holds when it is done. -/
theorem clientTask_rule {P : State × List Invocation → Prop} (hstart : P (s, []))
    (hstep : ∀ acc i, P acc → P (checkQuery now acc i)) : P (clientTask s now) :=
  List.foldlRecOn _ _ hstart fun acc hacc i _ => hstep acc i hacc

theorem Inv.clientTask (h : Inv c) (now : UInt32) :
    Inv ⟨(clientTask c.dns now).1, c.results, c.invocations ++ (clientTask c.dns now).2⟩ := by
  apply clientTask_rule (P := fun acc => Inv ⟨acc.1, c.results, c.invocations ++ acc.2⟩)
  · rwa [append_nil]
  · exact fun acc i hacc => hacc.checkQuery i

theorem cacheEntry_queries (s : State) (hostname : CString) (ip : Ipv4Address) (ttl : UInt32)
    (clock : ℕ → UInt32) : (cacheEntry s hostname ip ttl clock).queries = s.queries := by
  unfold cacheEntry
  split <;> rfl

theorem findActiveQuery_active
    (h : findActiveQuery s id = some i) : (s.queries i).active ∧ (s.queries i).id = id := by
  have hi := Fin.eq_true_of_find?_eq_some h
  simpa using hi

/-- What a packet does: nothing, or it completes the active query with its identifier,
with an address only if that is its answer. -/
theorem processPacket_cases (h : processPacket s buffer clock rounds = some (t, invoked, r)) :
    (t = s ∧ invoked = []) ∨
      ∃ packet i ip s', buffer = some packet ∧ findActiveQuery s (responseId packet) = some i ∧
        s'.queries = s.queries ∧ completeQuery s' i ip = (t, invoked) ∧
        ∀ a, ip = some a → ∃ ttl, answerOf packet rounds = some (some (a, ttl)) := by
  unfold processPacket at h
  split at h
  · cases h
    exact .inl ⟨rfl, rfl⟩
  · next packet =>
    split at h
    · cases h
      exact .inl ⟨rfl, rfl⟩
    split at h
    · cases h
      exact .inl ⟨rfl, rfl⟩
    split at h
    · cases h
      exact .inl ⟨rfl, rfl⟩
    next i hi =>
    split at h
    · cases h
      exact .inr ⟨packet, i, none, s, rfl, hi, rfl, rfl, fun a ha => by cases ha⟩
    split at h
    · cases h
    · cases h
      exact .inr ⟨packet, i, none, s, rfl, hi, rfl, rfl, fun a ha => by cases ha⟩
    · next ip ttl hanswer =>
      cases h
      refine .inr ⟨packet, i, some ip, _, rfl, hi, cacheEntry_queries _ _ _ _ _, rfl, ?_⟩
      intro a ha
      cases ha
      exact ⟨ttl, hanswer⟩

theorem Inv.processPacket (h : Inv c)
    (hp : processPacket c.dns buffer clock rounds = some (t, invoked, r)) :
    Inv ⟨t, c.results, c.invocations ++ invoked⟩ := by
  obtain ⟨rfl, rfl⟩ | ⟨packet, i, ip, s', -, hi, hq, hdone, -⟩ := processPacket_cases hp
  · rwa [append_nil]
  · have hs' : Inv ⟨s', c.results, c.invocations⟩ := Inv.congr (s := c.dns) h hq
    have hcomplete := hs'.complete (hq ▸ (findActiveQuery_active hi).1) ip
    rwa [hdone] at hcomplete

/-! ## A lookup -/

/-- What a lookup does: it is refused, answered from the cache, or started. -/
theorem lookup_cases (s : State) (hostname : Option CString) (callback : Option ℕ)
    (clock : ℕ → UInt32) (out : Outside) :
    (lookup s hostname callback clock out = (s, [], -1)) ∨
      (∃ h n ip, hostname = some h ∧ callback = some n ∧ getServer s ≠ none ∧
        getCached s h (clock 0) = .valid ip ∧
        lookup s hostname callback clock out = (s, [⟨n, h, some ip⟩], 0)) ∨
      ∃ h n slot, hostname = some h ∧ callback = some n ∧ Starts s h (clock 0) ∧
        findFreeQuerySlot s = some slot ∧
        lookup s hostname callback clock out =
          (startQuery s slot h n (clock 1), [], sendQuery h s.nextQueryId out) := by
  unfold lookup
  split
  · next h n =>
    split_ifs with hserver
    · exact .inl rfl
    · split
      · next ip hip => exact .inr (.inl ⟨h, n, ip, rfl, rfl, hserver, hip, rfl⟩)
      · next hmiss =>
        split
        · exact .inl rfl
        · next slot hslot =>
          exact .inr (.inr ⟨h, n, slot, rfl, rfl, ⟨hserver, hmiss, by simp [hslot]⟩, hslot, rfl⟩)
  · exact .inl rfl

section

variable (h : Inv ⟨s, results, invocations⟩)
include h

theorem Inv.fresh : times invocations results.length = 0 := by
  by_contra hne
  exact absurd (h.accepted _ hne).lt (lt_irrefl _)

theorem Inv.answered (hostname : CString) (ip : Option Ipv4Address) :
    Inv ⟨s, results ++ [0], invocations ++ [⟨results.length, hostname, ip⟩]⟩ := by
  have hfr := h.fresh
  have hlast : Accepted (results ++ [0]) results.length := ⟨0, by simp, le_rfl⟩
  constructor
  · intro i n hi hn
    obtain ⟨hacc, hzero⟩ := h.pending i n hi hn
    have hlt : n < results.length := hacc.lt
    refine ⟨hacc.append [0], ?_⟩
    rw [times_append, times_singleton, if_neg (by dsimp only; omega), hzero]
  · exact h.distinct
  · intro n
    have hn := h.once n
    rw [times_append, times_singleton]
    split_ifs with heq
    · dsimp only at heq
      rw [← heq, hfr]
    · exact hn
  · intro n hn
    rw [times_append, times_singleton] at hn
    split_ifs at hn with heq
    · dsimp only at heq
      exact heq ▸ hlast
    · exact (h.accepted n hn).append [0]

theorem Inv.started {slot : QuerySlot}
    (hostname : CString) (now : UInt32) {result : Int} (hres : 0 ≤ result) :
    Inv ⟨startQuery s slot hostname results.length now, results ++ [result], invocations⟩ := by
  have hfr := h.fresh
  -- an old lookup is pending in another slot, and it is not the new one
  have hold : ∀ j, j ≠ slot → (startQuery s slot hostname results.length now).queries j =
      s.queries j := fun j hj => update_of_ne hj _ _
  have hnew : ∀ n, ((startQuery s slot hostname results.length now).queries slot).callback =
      some n → n = results.length := by
    intro n hn
    simpa [startQuery, eq_comm] using hn
  have hold_lt : ∀ j n, j ≠ slot →
      ((startQuery s slot hostname results.length now).queries j).active →
      ((startQuery s slot hostname results.length now).queries j).callback = some n →
      n < results.length := by
    intro j n hj hactive hn
    rw [hold j hj] at hactive hn
    exact (h.pending j n hactive hn).1.lt
  constructor
  · intro j n hj hn
    by_cases hslot : j = slot
    · subst hslot
      obtain rfl := hnew n hn
      exact ⟨⟨result, by simp, hres⟩, hfr⟩
    · dsimp only at hj hn ⊢
      rw [hold j hslot] at hj hn
      exact ⟨(h.pending j n hj hn).1.append [result], (h.pending j n hj hn).2⟩
  · intro j k n hj hk hjn hkn
    by_cases hjs : j = slot
    · by_cases hks : k = slot
      · rw [hjs, hks]
      · have hlt := hold_lt k n hks hk hkn
        rw [hjs] at hjn
        rw [hnew n hjn] at hlt
        exact absurd hlt (lt_irrefl _)
    · by_cases hks : k = slot
      · have hlt := hold_lt j n hjs hj hjn
        rw [hks] at hkn
        rw [hnew n hkn] at hlt
        exact absurd hlt (lt_irrefl _)
      · dsimp only at hj hk hjn hkn
        rw [hold j hjs] at hj hjn
        rw [hold k hks] at hk hkn
        exact h.distinct j k n hj hk hjn hkn
  · exact h.once
  · intro n hn
    exact (h.accepted n hn).append [result]

end

/-! ## Runs -/

theorem init_inv (server : Ipv4Address) : Inv (Client.start server) where
  pending i n hi := by cases hi
  distinct i j n hi := by cases hi
  once n := by simp [Client.start, times]
  accepted n hn := by simp [Client.start, times] at hn

theorem step_inv {t : Client} {r : Request} (h : Inv c) (hsends : Sends c r)
    (hstep : step rounds c r = some t) : Inv t := by
  cases r with
  | lookup hostname callback clock out =>
    simp only [step, handle, map_some, some.injEq] at hstep
    subst hstep
    obtain hr | ⟨host, n, ip, -, hcb, -, -, hr⟩ | ⟨host, n, slot, hhost, hcb, hstarts, -, hr⟩ :=
      lookup_cases c.dns hostname (if callback then some c.results.length else none) clock out
    · rw [hr, append_nil]
      exact h.more_results [-1]
    · rw [hr]
      cases callback <;> cases hcb
      exact Inv.answered h host (some ip)
    · rw [hr, append_nil]
      cases callback <;> cases hcb
      subst hhost
      exact Inv.started h host (clock 1) (sendQuery_nonneg (hsends hstarts))
  | packet buffer clock =>
    obtain ⟨_, hhandle, rfl⟩ := map_eq_some_iff.mp hstep
    obtain ⟨⟨t, invoked, r⟩, hp, rfl⟩ := map_eq_some_iff.mp hhandle
    simp only [append_nil]
    exact h.processPacket hp
  | tick now =>
    simp only [step, handle, map_some, some.injEq, append_nil] at hstep
    subst hstep
    exact h.clientTask now

end UintOS.Dns
