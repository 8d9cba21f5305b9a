import Mathlib.Tactic

/-!
# Addresses and dynamic ports

The parts of the network stack that its protocols share: addresses as their bytes,
C strings, numbers in network byte order, and the search for a free dynamic port, which
`udp_get_free_port` and `tcp_get_free_port` make in the same way over their own socket
tables.
-/

namespace UintOS.Network

/-- `ipv4_address_t`: the bytes `addr[0]` to `addr[3]`. -/
structure Ipv4Address where
  b0 : UInt8
  b1 : UInt8
  b2 : UInt8
  b3 : UInt8
deriving DecidableEq, Repr

structure MacAddress where
  m0 : UInt8
  m1 : UInt8
  m2 : UInt8
  m3 : UInt8
  m4 : UInt8
  m5 : UInt8
deriving DecidableEq, Repr

/-- A C string, without the null byte at its end. -/
abbrev CString := List UInt8

def ipAddrAny : Ipv4Address := ⟨0, 0, 0, 0⟩

def ipAddrIsAny (a : Ipv4Address) : Bool := a = ipAddrAny

def ipAddrCmp (a b : Ipv4Address) : Bool := a = b

@[simp] theorem ipAddrIsAny_iff (a : Ipv4Address) : ipAddrIsAny a = true ↔ a = ipAddrAny := by
  simp [ipAddrIsAny]

@[simp] theorem ipAddrCmp_iff (a b : Ipv4Address) : ipAddrCmp a b = true ↔ a = b := by
  simp [ipAddrCmp]

def byteAt (bytes : List UInt8) (pos : ℕ) : UInt8 := bytes.getD pos 0

/-- `ntohs` of the two bytes at `pos`. -/
def read16 (bytes : List UInt8) (pos : ℕ) : UInt16 :=
  UInt16.ofNat ((byteAt bytes pos).toNat * 256 + (byteAt bytes (pos + 1)).toNat)

/-- `ntohl` of the four bytes at `pos`. -/
def read32 (bytes : List UInt8) (pos : ℕ) : UInt32 :=
  UInt32.ofNat ((((byteAt bytes pos).toNat * 256 + (byteAt bytes (pos + 1)).toNat) * 256 +
    (byteAt bytes (pos + 2)).toNat) * 256 + (byteAt bytes (pos + 3)).toNat)

/-- `htons`, as the bytes in memory. -/
def bytes16 (n : ℕ) : List UInt8 := [UInt8.ofNat (n / 256), UInt8.ofNat n]

/-- `htonl`, as the bytes in memory. -/
def bytes32 (n : ℕ) : List UInt8 :=
  [UInt8.ofNat (n / 16777216), UInt8.ofNat (n / 65536), UInt8.ofNat (n / 256), UInt8.ofNat n]

/-- `UDP_DYNAMIC_PORT_START`, `TCP_DYNAMIC_PORT_START`. -/
def dynamicPortStart : UInt16 := 49152

/-- `UDP_DYNAMIC_PORT_END`, `TCP_DYNAMIC_PORT_END`. -/
def dynamicPortEnd : ℕ := 65535

/-- The value `last_dynamic_port` is advanced to. -/
def nextDynamicPort (last : UInt16) : UInt16 :=
  if dynamicPortEnd < (last + 1).toNat ∨ last + 1 < dynamicPortStart then dynamicPortStart
  else last + 1

/-- The `do`-`while` loop of `udp_get_free_port` and `tcp_get_free_port`: `some 0`
when the search came back to `startPort`, `none` when the rounds do not suffice. -/
def searchPort (inUse : UInt16 → Bool) (startPort : UInt16) : ℕ → UInt16 → Option UInt16
  | 0, _ => none
  | rounds + 1, port =>
    if inUse port = false then some port
    else
      -- `++port` wraps at 16 bits, so the test against the end of the range never succeeds
      let next := if dynamicPortEnd < (port + 1).toNat then dynamicPortStart else port + 1
      if next ≠ startPort then searchPort inUse startPort rounds next else some 0

variable (inUse : UInt16 → Bool)

/-- `udp_get_free_port`, `tcp_get_free_port`: the port and the new last one. -/
def getFreePort (last : UInt16) : Option (UInt16 × UInt16) :=
  (searchPort inUse last 65536 (nextDynamicPort last)).map fun port => (port, nextDynamicPort last)

theorem searchPort_succ (startPort port : UInt16) (rounds : ℕ) :
    searchPort inUse startPort (rounds + 1) port =
      if inUse port = false then some port
      else if port + 1 ≠ startPort then searchPort inUse startPort rounds (port + 1)
      else some 0 := by
  have hlt : ¬ dynamicPortEnd < (port + 1).toNat := by
    have := (port + 1).toNat_lt
    unfold dynamicPortEnd
    omega
  simp only [searchPort, if_neg hlt]

variable {inUse : UInt16 → Bool} {startPort port : UInt16} {rounds : ℕ}

theorem portsLeft_succ (h : port + 1 ≠ startPort) :
    (startPort - port - 1).toNat = (startPort - (port + 1) - 1).toNat + 1 := by
  have hne := mt UInt16.toNat_inj.mp h
  have := port.toNat_lt
  have := startPort.toNat_lt
  simp only [UInt16.toNat_sub, UInt16.toNat_add, UInt16.toNat_one] at hne ⊢
  omega

/-- The ports are tried from `port` on, around the end of the 16 bits and up to `startPort`: the
first free one is returned, or 0. -/
theorem searchPort_spec (h : (startPort - port - 1).toNat < rounds) :
    ∃ r, searchPort inUse startPort rounds port = some r ∧
      (inUse r = false ∧ (r - port).toNat ≤ (startPort - port - 1).toNat ∧
          (∀ q : UInt16, (q - port).toNat < (r - port).toNat → inUse q = true) ∨
        r = 0 ∧ ∀ q : UInt16, (q - port).toNat ≤ (startPort - port - 1).toNat →
          inUse q = true) := by
  induction rounds generalizing port with
  | zero => omega
  | succ rounds ih =>
    rw [searchPort_succ]
    by_cases hfree : inUse port = false
    · exact ⟨port, if_pos hfree, .inl ⟨hfree, by simp, by simp⟩⟩
    rw [if_neg hfree]
    rw [Bool.not_eq_false] at hfree
    have hport : ∀ q : UInt16, q ≠ port → (q - port).toNat = (q - (port + 1)).toNat + 1 := by
      intro q hq
      have hne := mt UInt16.toNat_inj.mp hq
      have := q.toNat_lt
      have := port.toNat_lt
      simp only [UInt16.toNat_sub, UInt16.toNat_add, UInt16.toNat_one]
      omega
    by_cases hnext : port + 1 = startPort
    · have hleft : (startPort - port - 1).toNat = 0 := by
        have := port.toNat_lt
        rw [← hnext]
        simp only [UInt16.toNat_sub, UInt16.toNat_add, UInt16.toNat_one]
        omega
      refine ⟨0, if_neg (not_not.mpr hnext), .inr ⟨rfl, fun q hq => ?_⟩⟩
      rcases eq_or_ne q port with rfl | hne
      · exact hfree
      · rw [hport q hne, hleft] at hq
        omega
    · have hleft := portsLeft_succ hnext
      obtain ⟨r, hr, hcases⟩ := @ih (port + 1) (by omega)
      refine ⟨r, by rw [if_pos hnext, hr], ?_⟩
      rcases hcases with ⟨hfree', hle, hnear⟩ | ⟨hzero, hall⟩
      · have hne : r ≠ port := by
          rintro rfl
          exact absurd hfree' (by simp [hfree])
        refine .inl ⟨hfree', by rw [hport r hne]; omega, fun q hq => ?_⟩
        rcases eq_or_ne q port with rfl | hne'
        · exact hfree
        · rw [hport q hne', hport r hne] at hq
          exact hnear q (by omega)
      · refine .inr ⟨hzero, fun q hq => ?_⟩
        rcases eq_or_ne q port with rfl | hne'
        · exact hfree
        · rw [hport q hne'] at hq
          exact hall q (by omega)

theorem getFreePort_spec (inUse : UInt16 → Bool) (last : UInt16) :
    let next := nextDynamicPort last
    ∃ r, getFreePort inUse last = some (r, next) ∧
      (inUse r = false ∧ (r - next).toNat ≤ (last - next - 1).toNat ∧
          (∀ q : UInt16, (q - next).toNat < (r - next).toNat → inUse q = true) ∨
        r = 0 ∧ ∀ q : UInt16, (q - next).toNat ≤ (last - next - 1).toNat → inUse q = true) := by
  obtain ⟨r, hr, hcases⟩ := @searchPort_spec inUse last (nextDynamicPort last) 65536
    (UInt16.toNat_lt _)
  exact ⟨r, by rw [getFreePort]; exact congrArg _ hr, hcases⟩

theorem getFreePort_isSome (inUse : UInt16 → Bool) (last : UInt16) :
    (getFreePort inUse last).isSome := by
  obtain ⟨r, hr, -⟩ := getFreePort_spec inUse last
  rw [hr]
  rfl

theorem getFreePort_free {last last' p : UInt16}
    (h : getFreePort inUse last = some (p, last')) : p = 0 ∨ inUse p = false := by
  obtain ⟨r, hr, hcases⟩ := getFreePort_spec inUse last
  cases hr.symm.trans h
  exact hcases.symm.imp And.left And.left

/-! ## What the search finds -/

/-- The search returns a free dynamic port, or 0 if there is none. -/
def FindsPort (inUse : UInt16 → Bool) (last : UInt16) : Prop :=
  ∃ p, getFreePort inUse last = some (p, nextDynamicPort last) ∧
    (dynamicPortStart ≤ p ∧ inUse p = false ∨ p = 0 ∧ ∀ q ≥ dynamicPortStart, inUse q = true)

/-- The first port tried and the number of those after it. -/
theorem nextDynamicPort_spec {last : UInt16} (h : dynamicPortStart ≤ last) :
    let next := (nextDynamicPort last).toNat
    let left := (last - nextDynamicPort last - 1).toNat
    last.toNat = 65535 ∧ next = 49152 ∧ left = 16382 ∨
      last.toNat < 65535 ∧ next = last.toNat + 1 ∧ left = 65534 := by
  have hlt := last.toNat_lt
  have hle : 49152 ≤ last.toNat := UInt16.le_iff_toNat_le.mp h
  have hsucc : (last + 1).toNat = (last.toNat + 1) % 65536 := UInt16.toNat_add last 1
  simp only [nextDynamicPort, dynamicPortEnd, UInt16.lt_iff_toNat_lt, hsucc,
    show dynamicPortStart.toNat = 49152 from rfl]
  split_ifs with hwrap
  · exact .inl ⟨by omega, rfl, by simp [UInt16.toNat_sub, dynamicPortStart]; omega⟩
  · refine .inr ⟨by omega, by omega, ?_⟩
    rw [UInt16.toNat_sub, UInt16.toNat_sub, hsucc, UInt16.toNat_one]
    omega

/-- The search goes on at port 0 behind the end of the range, and does not try the last port. So it
is right exactly if a port from the next one on is free; or none below the range and one before the
last port; or none of the range, and the search ends at its end, at port 0 or without success. -/
theorem port_found_iff (inUse : UInt16 → Bool) (last : UInt16) (hlast : dynamicPortStart ≤ last) :
    FindsPort inUse last ↔
      (∃ q ≥ nextDynamicPort last, q ≠ last ∧ inUse q = false) ∨
      (∀ q < dynamicPortStart, inUse q = true) ∧
        (∃ q ≥ dynamicPortStart, q < last ∧ inUse q = false) ∨
      (∀ q ≥ dynamicPortStart, inUse q = true) ∧
        (last = 65535 ∨ inUse 0 = false ∨ ∀ q < dynamicPortStart, inUse q = true) := by
  obtain ⟨r, hr, hcases⟩ := getFreePort_spec inUse last
  have hfinds : FindsPort inUse last ↔ dynamicPortStart ≤ r ∧ inUse r = false ∨
      r = 0 ∧ ∀ q ≥ dynamicPortStart, inUse q = true := by
    simp [FindsPort, hr]
  have hnext := nextDynamicPort_spec hlast
  generalize nextDynamicPort last = next at *
  generalize (last - next - 1).toNat = left at *
  rw [hfinds]
  have hdist : ∀ q : UInt16, (q - next).toNat = (65536 - next.toNat + q.toNat) % 65536 :=
    fun q => UInt16.toNat_sub q next
  have hbound : ∀ q : UInt16, q.toNat < 65536 := UInt16.toNat_lt
  have := hbound last
  have := hbound r
  simp only [hdist, UInt16.lt_iff_toNat_lt, UInt16.le_iff_toNat_le, ge_iff_le, ne_eq,
    ← UInt16.toNat_inj, show dynamicPortStart.toNat = 49152 from rfl,
    show (65535 : UInt16).toNat = 65535 from rfl, UInt16.toNat_zero] at *
  rcases hcases with ⟨hfree, hle, hnear⟩ | ⟨hzero, hall⟩
  · constructor
    · rintro (⟨hge, -⟩ | ⟨hzero, hall⟩)
      · by_cases hn : next.toNat ≤ r.toNat
        · exact .inl ⟨r, hn, by omega, hfree⟩
        · exact .inr (.inl ⟨fun q hq => hnear q (by omega), r, hge, by omega, hfree⟩)
      · rw [show r = 0 from UInt16.toNat_inj.mp hzero] at hfree
        exact .inr (.inr ⟨hall, .inr (.inl hfree)⟩)
    · have hfirst : ∀ q, inUse q = false → ¬ (65536 - next.toNat + q.toNat) % 65536 <
          (65536 - next.toNat + r.toNat) % 65536 := by
        intro q hq hlt
        exact absurd (hnear q hlt) (by simp [hq])
      have hnot : ∀ {P : UInt16 → Prop}, (∀ q, P q → inUse q = true) → ¬ P r :=
        fun h hr => absurd (h r hr) (by simp [hfree])
      rintro (⟨q, hq, hne, hq'⟩ | ⟨hlow, -⟩ | ⟨hall, hend⟩)
      · have := hfirst q hq'
        have := hbound q
        exact .inl ⟨by omega, hfree⟩
      · exact .inl ⟨not_lt.mp (hnot hlow), hfree⟩
      · have hlt : r.toNat < 49152 := not_le.mp (hnot hall)
        refine .inr ⟨?_, hall⟩
        rcases hend with hend | hzero | hlow
        · omega
        · have := hfirst 0 hzero
          rw [UInt16.toNat_zero] at this
          omega
        · exact absurd hlt (hnot hlow)
  · constructor
    · rintro (⟨hge, -⟩ | ⟨-, hdyn⟩)
      · omega
      · refine .inr (.inr ⟨hdyn, ?_⟩)
        by_cases hend : last.toNat = 65535
        · exact .inl hend
        · exact .inr (.inr fun q hq => hall q (by omega))
    · have htried : ∀ q : UInt16, inUse q = false →
          ¬ (65536 - next.toNat + q.toNat) % 65536 ≤ left :=
        fun q hq hle => absurd (hall q hle) (by simp [hq])
      rintro (⟨q, hq, hne, hq'⟩ | ⟨-, q, hq, hlt, hq'⟩ | ⟨hdyn, -⟩)
      · have := htried q hq'
        have := hbound q
        omega
      · have := htried q hq'
        omega
      · exact .inr ⟨hzero, hdyn⟩

/-- The port after the first call is in use, and the next one is found. -/
theorem second_port_found : FindsPort (fun p => p == 49153) 49152 :=
  (port_found_iff _ _ (by decide)).mpr (.inl ⟨49154, by decide, by decide, rfl⟩)

/-- After 16382 calls, with only the last port in use, none is found. -/
theorem last_port_in_use : getFreePort (fun p => p == 65535) 65534 = some (0, 65535) ∧
    ¬ FindsPort (fun p => p == 65535) 65534 := by
  have hsearch : getFreePort (fun p => p == 65535) 65534 = some (0, 65535) := by decide
  refine ⟨hsearch, ?_⟩
  rintro ⟨p, hp, ⟨hle, -⟩ | ⟨-, hall⟩⟩
  · rw [hsearch] at hp
    cases hp
    exact absurd hle (by decide)
  · exact absurd (hall 49152 (by decide)) (by decide)

end UintOS.Network
