import UintOS.Library.Runs
import UintOS.Network.Dns.Model

/-!
# What the DNS cache remembers

Runs of `dns_cache_entry` and `dns_get_cached`. Time is a natural number of milliseconds, of which
`hal_get_time_ms` shows the last 32 bits. Beside the cache stands the list of what has been cached
so far, with its times.

`dns_cache_entry` looks for the oldest entry with `oldest_time` starting at the largest value there
is, so it never finds one, and a full cache takes no other host names. A name of more than
`DNS_MAX_NAME_LENGTH` bytes is stored without its end but compared with it, so it may be stored
beside an entry of the shorter name. An age is known modulo `2 ^ 32` milliseconds only, so an entry
may come back to life. The cache is correct on a run exactly if none of the three happens.
-/

namespace UintOS.Dns.Caching

open List Network Runs

/-- A cached result, under the stored name. -/
structure Record where
  name : CString
  ip : Ipv4Address
  ttl : UInt32
  time : ℕ
deriving DecidableEq, Repr

/-- The module, the time, and the cached results, the latest first. -/
structure Session where
  state : State
  now : ℕ
  log : List Record

def Session.init (server : Ipv4Address) : Session := ⟨Dns.init server, 0, []⟩

/-- A call; time passes before every clock reading. -/
inductive Call
  | cache (hostname : CString) (ip : Ipv4Address) (ttl : UInt32) (delays : ℕ → ℕ)
  | get (hostname : CString) (delay : ℕ)

def reading (now : ℕ) (delays : ℕ → ℕ) : ℕ → ℕ
  | 0 => now + delays 0
  | i + 1 => reading now delays i + delays (i + 1)

def getTimeMs (time : ℕ) : UInt32 := UInt32.ofNat time

/-- What the readings show. -/
def clockOf (now : ℕ) (delays : ℕ → ℕ) (i : ℕ) : UInt32 := getTimeMs (reading now delays i)

/-- The slot that `dns_cache_entry` chooses; without one it fails. -/
def slotFor (s : State) (hostname : CString) (clock : ℕ → UInt32) : Option CacheSlot :=
  chooseSlot s.cache hostname clock (List.finRange 32) none none 0xFFFFFFFF

variable (s : Session)

def Session.cache (hostname : CString) (ip : Ipv4Address) (ttl : UInt32)
    (delays : ℕ → ℕ) : Session where
  state := cacheEntry s.state hostname ip ttl (clockOf s.now delays)
  now := reading s.now delays 32
  log :=
    if (slotFor s.state hostname (clockOf s.now delays)).isSome then
      ⟨hostname.take maxNameLength, ip, ttl, reading s.now delays 32⟩ :: s.log
    else s.log

def step : Call → Option Session
  | .cache hostname ip ttl delays => some (s.cache hostname ip ttl delays)
  | .get _ delay => some { s with now := s.now + delay }

def latest (log : List Record) (name : CString) : Option Record :=
  log.find? fun r => r.name = name

def Holds (cache : CacheSlot → CacheEntry) (name : CString) (i : CacheSlot) : Prop :=
  (cache i).valid = true ∧ (cache i).hostname = name

instance (cache : CacheSlot → CacheEntry) (name : CString) (i : CacheSlot) :
    Decidable (Holds cache name i) := inferInstanceAs (Decidable (_ ∧ _))

def OneEntryEach (cache : CacheSlot → CacheEntry) : Prop :=
  ∀ name i j, Holds cache name i → Holds cache name j → i = j

/-- A result is found again as long as it is valid, and every name has one entry; what is found as
valid is the latest result of the name, not older than its time to live. -/
def Correct : Call → Prop
  | .cache hostname ip ttl delays =>
    let t := s.cache hostname ip ttl delays
    (hostname.length ≤ maxNameLength → ∀ d < 1000 * ttl.toNat,
      getCached t.state hostname (getTimeMs (t.now + d)) = .valid ip) ∧ OneEntryEach t.state.cache
  | .get hostname delay =>
    ∀ ip, getCached s.state hostname (getTimeMs (s.now + delay)) = .valid ip →
      ∃ r, latest s.log hostname = some r ∧ r.ip = ip ∧ s.now + delay ≤ r.time + 1000 * r.ttl.toNat

/-- A name stored in full finds an entry of the name or one not in use, and a longer one no entry of
what is stored of it; no name is looked up while its age, above its time to live, appears to be
below it. -/
def Careful : Call → Prop
  | .cache hostname _ ttl _ =>
    if hostname.length ≤ maxNameLength then
      0 < ttl → (∀ i, (s.state.cache i).valid) → ∃ i, Holds s.state.cache hostname i
    else
      (∀ i, (s.state.cache i).valid) ∨ ∀ i, ¬ Holds s.state.cache (hostname.take maxNameLength) i
  | .get hostname delay =>
    ∀ r, latest s.log hostname = some r → r.time + 1000 * r.ttl.toNat < s.now + delay →
      r.ttl.toNat ≤ (s.now + delay - r.time) % 2 ^ 32 / 1000

/-! ## The loops -/

section Loops

variable {s : State} {hostname : CString} {clock : ℕ → UInt32}

/-- No age is above the greatest number. -/
theorem chooseSlot_eq (cache : CacheSlot → CacheEntry) (hostname : CString) (clock : ℕ → UInt32)
    (l : List CacheSlot) (slot : Option CacheSlot) :
    chooseSlot cache hostname clock l slot none 0xFFFFFFFF =
      (l.find? fun i => Holds cache hostname i).or
        (slot.or (l.find? fun i => !(cache i).valid)) := by
  induction l generalizing slot with
  | nil => simp [chooseSlot]
  | cons i rest ih =>
    have hage : ¬ 0xFFFFFFFF < clock i - (cache i).timestamp := by
      rw [UInt32.lt_iff_toNat_lt]
      have := (clock i - (cache i).timestamp).toNat_lt
      simp only [UInt32.reduceToNat]
      omega
    rw [chooseSlot]
    by_cases hvalid : (cache i).valid = true
    · by_cases hname : (cache i).hostname = hostname
      · simp [Holds, hvalid, hname]
      · simp [Holds, hvalid, hname, hage, ih]
    · simp [Holds, hvalid, ih]

theorem slotFor_of_holds (hdistinct : OneEntryEach s.cache) {i : CacheSlot}
    (hi : Holds s.cache hostname i) : slotFor s hostname clock = some i := by
  obtain ⟨j, hj⟩ : ∃ j, (List.finRange 32).find? (fun i => Holds s.cache hostname i) = some j := by
    rw [← Option.isSome_iff_exists, find?_isSome]
    exact ⟨i, mem_finRange i, by simpa using hi⟩
  have hholds : Holds s.cache hostname j := by simpa using find?_some hj
  rw [slotFor, chooseSlot_eq, hj, hdistinct hostname i j hi hholds]
  rfl

theorem slotFor_of_not_holds (hno : ∀ i, ¬ Holds s.cache hostname i) :
    slotFor s hostname clock = (List.finRange 32).find? fun i => !(s.cache i).valid := by
  have hnone : (List.finRange 32).find? (fun i => Holds s.cache hostname i) = none := by
    simp [hno]
  rw [slotFor, chooseSlot_eq, hnone]
  rfl

theorem slotFor_cases (hdistinct : OneEntryEach s.cache) (hostname : CString) (clock : ℕ → UInt32) :
    (∃ i, slotFor s hostname clock = some i ∧ Holds s.cache hostname i) ∨
    (∃ i, slotFor s hostname clock = some i ∧ (s.cache i).valid = false ∧
      ∀ j, ¬ Holds s.cache hostname j) ∨
    (slotFor s hostname clock = none ∧ (∀ i, (s.cache i).valid = true) ∧
      ∀ j, ¬ Holds s.cache hostname j) := by
  by_cases hholds : ∃ i, Holds s.cache hostname i
  · obtain ⟨i, hi⟩ := hholds
    exact .inl ⟨i, slotFor_of_holds hdistinct hi, hi⟩
  · have hno := not_exists.mp hholds
    rw [slotFor_of_not_holds hno]
    cases hfind : (List.finRange 32).find? fun i => !(s.cache i).valid with
    | none =>
      refine .inr (.inr ⟨rfl, ?_, hno⟩)
      intro i
      simpa using find?_eq_none.mp hfind i (mem_finRange i)
    | some i =>
      have hinvalid : (s.cache i).valid = false := by simpa using find?_some hfind
      exact .inr (.inl ⟨i, rfl, hinvalid, hno⟩)

theorem getCached_of_holds (hdistinct : OneEntryEach s.cache) {i : CacheSlot}
    (hi : Holds s.cache hostname i) (now : UInt32) :
    getCached s hostname now =
      if (now - (s.cache i).timestamp) / 1000 < (s.cache i).ttl then .valid (s.cache i).ip
      else .expired := by
  unfold getCached
  split
  · next hnone =>
    rw [Fin.find?_eq_none_iff] at hnone
    have := hnone i
    simp [hi.1, hi.2] at this
  · next j hj =>
    have hholds : Holds s.cache hostname j := by
      simpa [Holds] using Fin.eq_true_of_find?_eq_some hj
    rw [hdistinct hostname i j hi hholds]

theorem getCached_of_not_holds (hno : ∀ i, ¬ Holds s.cache hostname i) (now : UInt32) :
    getCached s hostname now = .notFound := by
  unfold getCached
  split
  · rfl
  · next j hj =>
    exact absurd (by simpa [Holds] using Fin.eq_true_of_find?_eq_some hj) (hno j)

theorem age_lt_iff {time now : ℕ} (h : time ≤ now) (ttl : UInt32) :
    (getTimeMs now - getTimeMs time) / 1000 < ttl ↔ (now - time) % 2 ^ 32 / 1000 < ttl.toNat := by
  have hage : (getTimeMs now - getTimeMs time).toNat = (now - time) % 2 ^ 32 := by
    simp only [getTimeMs, UInt32.toNat_sub, UInt32.toNat_ofNat']
    omega
  rw [UInt32.lt_iff_toNat_lt, UInt32.toNat_div, hage]
  rfl

end Loops

/-! ## The entries and what has been cached -/

def Record.entry (r : Record) : CacheEntry := ⟨r.name, r.ip, r.ttl, getTimeMs r.time, true⟩

def Session.store (i : CacheSlot) (r : Record) : Session where
  state := { s.state with cache := Function.update s.state.cache i r.entry }
  now := r.time
  log := r :: s.log

/-- The entries are the latest results of their names; every result has one. -/
structure Inv (s : Session) : Prop where
  distinct : OneEntryEach s.state.cache
  short : ∀ name i, Holds s.state.cache name i → name.length ≤ maxNameLength
  logged : ∀ name i, Holds s.state.cache name i →
    ∃ r, latest s.log name = some r ∧ s.state.cache i = r.entry
  kept : ∀ name r, latest s.log name = some r → ∃ i, Holds s.state.cache name i
  past : ∀ r ∈ s.log, r.time ≤ s.now

theorem inv_init (server : Ipv4Address) : Inv (Session.init server) := by
  have hno : ∀ name i, ¬ Holds (Session.init server).state.cache name i :=
    fun _ _ h => Bool.false_ne_true h.1
  refine ⟨fun name i _ h => absurd h (hno name i), fun name i h => absurd h (hno name i),
    fun name i h => absurd h (hno name i), ?_, ?_⟩
  · intro name r h
    cases h
  · intro r h
    cases h

theorem le_reading (now : ℕ) (delays : ℕ → ℕ) (i : ℕ) : now ≤ reading now delays i := by
  induction i with
  | zero => exact Nat.le_add_right _ _
  | succ i ih => exact ih.trans (Nat.le_add_right _ _)

section Calls

variable {s : Session} {hostname : CString} {clock : ℕ → UInt32} {ip : Ipv4Address} {ttl : UInt32}

theorem Inv.getCached (h : Inv s) (delay : ℕ) :
    getCached s.state hostname (getTimeMs (s.now + delay)) =
      match latest s.log hostname with
      | none => .notFound
      | some r =>
        if (s.now + delay - r.time) % 2 ^ 32 / 1000 < r.ttl.toNat then .valid r.ip
        else .expired := by
  cases hlatest : latest s.log hostname with
  | none =>
    apply getCached_of_not_holds
    intro i hi
    obtain ⟨r, hr, -⟩ := h.logged hostname i hi
    rw [hlatest] at hr
    cases hr
  | some r =>
    obtain ⟨i, hi⟩ := h.kept hostname r hlatest
    obtain ⟨r', hr', hentry⟩ := h.logged hostname i hi
    obtain rfl : r = r' := Option.some.inj (hlatest.symm.trans hr')
    have hpast : r.time ≤ s.now + delay :=
      (h.past r (mem_of_find?_eq_some hlatest)).trans (Nat.le_add_right _ _)
    rw [getCached_of_holds h.distinct hi, hentry]
    simp only [Record.entry, age_lt_iff hpast]

theorem Inv.get_correct_iff (h : Inv s) (delay : ℕ) :
    Correct s (.get hostname delay) ↔ Careful s (.get hostname delay) := by
  unfold Correct Careful
  simp only [h.getCached]
  cases latest s.log hostname with
  | none => simp
  | some r =>
    simp only [Option.some.injEq, exists_eq_left', forall_eq']
    split_ifs with hage
    · constructor
      · intro hcorrect hold
        have := (hcorrect r.ip rfl).2
        omega
      · rintro hcare ip ⟨⟩
        exact ⟨rfl, by omega⟩
    · exact iff_of_true (by simp) (fun _ => by omega)

theorem Session.holds_store (s : Session) (i : CacheSlot) (r : Record) (name : CString)
    (j : CacheSlot) : Holds (s.store i r).state.cache name j ↔
      (j = i ∧ name = r.name) ∨ (j ≠ i ∧ Holds s.state.cache name j) := by
  by_cases hj : j = i
  · subst hj
    simp [Session.store, Record.entry, Holds, @eq_comm _ r.name]
  · simp [Session.store, Holds, hj]

/-- A result is stored in a slot, and no other entry has the name. -/
theorem Inv.store (h : Inv s) {i : CacheSlot} {r : Record}
    (hothers : ∀ j, Holds s.state.cache r.name j → j = i) (hshort : r.name.length ≤ maxNameLength)
    (hfree : ∀ name, Holds s.state.cache name i → name = r.name) (hnow : s.now ≤ r.time) :
    Inv (s.store i r) := by
  have hholds := s.holds_store i r
  have hne : ∀ name j, j ≠ i → Holds s.state.cache name j → r.name ≠ name := by
    rintro name j hj hold rfl
    exact hj (hothers j hold)
  refine ⟨?_, ?_, ?_, ?_, ?_⟩
  · intro name j k hj hk
    rcases (hholds name j).mp hj with ⟨rfl, rfl⟩ | ⟨hji, hold⟩
    · rcases (hholds _ k).mp hk with ⟨rfl, -⟩ | ⟨hki, hold⟩
      · rfl
      · exact absurd rfl (hne _ k hki hold)
    · rcases (hholds name k).mp hk with ⟨rfl, rfl⟩ | ⟨-, hold'⟩
      · exact absurd rfl (hne _ j hji hold)
      · exact h.distinct name j k hold hold'
  · intro name j hj
    rcases (hholds name j).mp hj with ⟨-, rfl⟩ | ⟨-, hold⟩
    · exact hshort
    · exact h.short name j hold
  · intro name j hj
    rcases (hholds name j).mp hj with ⟨rfl, rfl⟩ | ⟨hj, hold⟩
    · exact ⟨r, by simp [latest, Session.store], by simp [Session.store]⟩
    · obtain ⟨r', hr', hentry⟩ := h.logged name j hold
      refine ⟨r', ?_, ?_⟩
      · rw [← hr']
        simp [latest, Session.store, hne name j hj hold]
      · rw [← hentry]
        exact Function.update_of_ne hj _ _
  · intro name r' hr'
    by_cases hname : r.name = name
    · exact ⟨i, (hholds name i).mpr (.inl ⟨rfl, hname.symm⟩)⟩
    · have hlatest : latest s.log name = some r' := by
        rw [← hr']
        simp [latest, Session.store, hname]
      obtain ⟨j, hj⟩ := h.kept name r' hlatest
      refine ⟨j, (hholds name j).mpr (.inr ⟨?_, hj⟩)⟩
      rintro rfl
      exact hname (hfree name hj).symm
  · intro r' hr'
    rcases mem_cons.mp hr' with rfl | hr'
    · exact le_rfl
    · exact (h.past r' hr').trans hnow

theorem cacheEntry_of_slotFor {s : State} {i : CacheSlot} (h : slotFor s hostname clock = some i) :
    cacheEntry s hostname ip ttl clock = { s with
        cache := Function.update s.cache i
          ⟨hostname.take maxNameLength, ip, ttl, clock 32, true⟩ } := by
  unfold cacheEntry
  rw [slotFor] at h
  rw [h]

theorem cacheEntry_of_slotFor_none {s : State} (h : slotFor s hostname clock = none) :
    cacheEntry s hostname ip ttl clock = s := by
  unfold cacheEntry
  rw [slotFor] at h
  rw [h]

variable {ip : Ipv4Address} {ttl : UInt32} {delays : ℕ → ℕ}

theorem Session.cache_of_slotFor {i : CacheSlot}
    (hslot : slotFor s.state hostname (clockOf s.now delays) = some i) :
    s.cache hostname ip ttl delays =
      s.store i ⟨hostname.take maxNameLength, ip, ttl, reading s.now delays 32⟩ := by
  unfold Session.cache
  rw [cacheEntry_of_slotFor hslot, hslot]
  rfl

theorem Inv.cache (h : Inv s) (hcare : Careful s (.cache hostname ip ttl delays)) :
    Inv (s.cache hostname ip ttl delays) := by
  have htake : (hostname.take maxNameLength).length ≤ maxNameLength := length_take_le _ _
  have hnow := le_reading s.now delays 32
  rcases slotFor_cases h.distinct hostname (clockOf s.now delays) with
    ⟨i, hslot, hi⟩ | ⟨i, hslot, hfree, hno⟩ | ⟨hslot, -, -⟩
  · have hname : hostname.take maxNameLength = hostname := take_of_length_le (h.short _ i hi)
    rw [Session.cache_of_slotFor hslot]
    refine h.store ?_ htake ?_ hnow
    · intro j hj
      rw [hname] at hj
      exact h.distinct hostname j i hj hi
    · intro name hold
      exact hold.2.symm.trans (hi.2.trans hname.symm)
  · rw [Session.cache_of_slotFor hslot]
    have hfree' : ¬ (s.state.cache i).valid = true := Bool.not_eq_true _ ▸ hfree
    refine h.store ?_ htake (fun name hold => absurd hold.1 hfree') hnow
    intro j hj
    simp only [Careful] at hcare
    split_ifs at hcare with hlong
    · rw [take_of_length_le hlong] at hj
      exact absurd hj (hno j)
    · rcases hcare with hfull | hnone
      · exact absurd (hfull i) hfree'
      · exact absurd hj (hnone j)
  · unfold Session.cache
    rw [cacheEntry_of_slotFor_none hslot, hslot]
    exact ⟨h.distinct, h.short, h.logged, h.kept, fun r hr => (h.past r hr).trans hnow⟩

theorem latest_cache (hslot : (slotFor s.state hostname (clockOf s.now delays)).isSome)
    (hshort : hostname.length ≤ maxNameLength) :
    latest (s.cache hostname ip ttl delays).log hostname =
      some ⟨hostname, ip, ttl, reading s.now delays 32⟩ := by
  simp [Session.cache, hslot, latest, take_of_length_le hshort]

theorem Inv.cache_correct_of_careful (h : Inv s)
    (hcare : Careful s (.cache hostname ip ttl delays)) :
    Correct s (.cache hostname ip ttl delays) := by
  have hafter := h.cache hcare
  refine ⟨?_, hafter.distinct⟩
  intro hshort d hd
  have hslot : (slotFor s.state hostname (clockOf s.now delays)).isSome := by
    rcases slotFor_cases h.distinct hostname (clockOf s.now delays) with
      ⟨i, hslot, -⟩ | ⟨i, hslot, -, -⟩ | ⟨-, hfull, hno⟩
    · simp [hslot]
    · simp [hslot]
    · simp only [Careful] at hcare
      rw [if_pos hshort] at hcare
      have hpos : 0 < ttl := by
        rw [UInt32.lt_iff_toNat_lt]
        simp only [UInt32.toNat_zero]
        omega
      obtain ⟨i, hi⟩ := hcare hpos hfull
      exact absurd hi (hno i)
  rw [hafter.getCached, latest_cache hslot hshort]
  have hnow : (s.cache hostname ip ttl delays).now = reading s.now delays 32 := rfl
  refine if_pos ?_
  rw [hnow, Nat.add_sub_cancel_left]
  exact Nat.div_lt_of_lt_mul ((Nat.mod_le d _).trans_lt hd)

theorem Inv.careful_of_cache_correct (h : Inv s)
    (hcorrect : Correct s (.cache hostname ip ttl delays)) :
    Careful s (.cache hostname ip ttl delays) := by
  obtain ⟨hfound, hdistinct⟩ := hcorrect
  simp only [Careful]
  split_ifs with hlen
  · intro hpos hfull
    by_contra hno
    push Not at hno
    have hslot : slotFor s.state hostname (clockOf s.now delays) = none := by
      rw [slotFor_of_not_holds hno]
      simp [hfull]
    have hd : 0 < 1000 * ttl.toNat := by
      rw [UInt32.lt_iff_toNat_lt] at hpos
      omega
    have hget := hfound hlen 0 hd
    have hsame : (s.cache hostname ip ttl delays).state = s.state :=
      cacheEntry_of_slotFor_none hslot
    rw [hsame, getCached_of_not_holds hno] at hget
    cases hget
  · by_contra hno
    push Not at hno
    obtain ⟨⟨i, hi⟩, j, hj⟩ := hno
    have hnone : ∀ k, ¬ Holds s.state.cache hostname k :=
      fun k hk => hlen (h.short hostname k hk)
    -- the name without its end is in the slot that is chosen now and in the one before
    rcases slotFor_cases h.distinct hostname (clockOf s.now delays) with
      ⟨k, -, hk⟩ | ⟨k, hslot, hfree, -⟩ | ⟨-, hfull, -⟩
    · exact hnone k hk
    · have hjk : j ≠ k := by
        rintro rfl
        exact absurd hj.1 (by simp [hfree])
      rw [Session.cache_of_slotFor hslot] at hdistinct
      refine hjk (hdistinct (hostname.take maxNameLength) j k ?_ ?_)
      · exact (s.holds_store _ _ _ j).mpr (.inr ⟨hjk, hj⟩)
      · exact (s.holds_store _ _ _ k).mpr (.inl ⟨rfl, rfl⟩)
    · exact hi (hfull i)

end Calls

theorem Inv.correct_iff {s : Session} (h : Inv s) (c : Call) : Correct s c ↔ Careful s c := by
  cases c with
  | cache hostname ip ttl delays =>
    exact ⟨h.careful_of_cache_correct, h.cache_correct_of_careful⟩
  | get hostname delay => exact h.get_correct_iff delay

theorem Inv.step {s t : Session} {c : Call} (h : Inv s) (hok : Careful s c)
    (ht : step s c = some t) : Inv t := by
  cases c with
  | cache hostname ip ttl delays =>
    cases ht
    exact h.cache hok
  | get hostname delay =>
    cases ht
    exact ⟨h.distinct, h.short, h.logged, h.kept,
      fun r hr => (h.past r hr).trans (Nat.le_add_right _ _)⟩

/-- The cache answers as it should throughout a run exactly if all calls are careful. -/
theorem cache_correct_iff (server : Ipv4Address) (calls : List Call) :
    Meets step Correct (Session.init server) calls ↔
      Meets step Careful (Session.init server) calls :=
  meets_congr step (fun _ _ _ h hok ht => h.step hok ht) (fun _ c h => h.correct_iff c)
    (inv_init server) calls

def minute (hostname : CString) : Call := .cache hostname ⟨10, 0, 0, 1⟩ 60 fun _ => 0

def letters (n : ℕ) : List Call := (List.range n).map fun i => minute [UInt8.ofNat (65 + i)]

/-- The cache has thirty-two entries, and the result of the next name is not found again. After
`2 ^ 32` milliseconds a result of a minute is valid. -/
theorem thirty_third_not_found : ((exec step (Session.init ⟨8, 8, 8, 8⟩) (letters 33)).map fun t =>
      getCached t.state [UInt8.ofNat 97] (getTimeMs t.now)) = some .notFound ∧
    ((exec step (Session.init ⟨8, 8, 8, 8⟩) (letters 1)).map fun t =>
      getCached t.state [65] (getTimeMs (t.now + 2 ^ 32))) = some (.valid ⟨10, 0, 0, 1⟩) := by
  decide +kernel

end UintOS.Dns.Caching
