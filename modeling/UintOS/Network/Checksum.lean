import UintOS.Network.Tcp.Model

/-!
# Checksums

`ip_checksum` adds the words of the header as the machine reads them and complements the sum with
its carries added back. A header with one bit flipped never checks (`single_bit_errors_detected`).

`ip_send` converts the checksum, which was computed over native words, to network byte order, and
`ip_receive` compares it unconverted. `tcp_checksum` leaves out the options of a TCP header.
-/

namespace UintOS.Link

open List Machine Network

/-! ## One's complement sums -/

/-- Adding the carries gives the residue modulo `65535`, with `65535` for zero. -/
theorem addCarries_eq {sum : ℕ} (hpos : 0 < sum) (hlt : sum < 4294967296) :
    addCarries 2 sum = (sum - 1) % 65535 + 1 := by
  simp only [addCarries]
  split_ifs <;> omega

theorem wordSum_le (l : List UInt8) (hl : l.length ≤ 65600) :
    wordSum l ≤ 65535 * ((l.length + 1) / 2) := by
  fun_induction wordSum l with
  | case1 => simp
  | case2 b =>
    have := b.toNat_lt
    simp
    omega
  | case3 a b rest ih =>
    have := a.toNat_lt
    have := b.toNat_lt
    simp only [length_cons] at hl ⊢
    have := ih (by omega)
    have := Nat.mod_le (a.toNat + 256 * b.toNat + wordSum rest) 4294967296
    omega

theorem wordSum_cons (a b : UInt8) {rest : List UInt8} (h : rest.length ≤ 65600) :
    wordSum (a :: b :: rest) = a.toNat + 256 * b.toNat + wordSum rest := by
  have hle := wordSum_le rest h
  have := a.toNat_lt
  have := b.toNat_lt
  exact Nat.mod_eq_of_lt (by omega)

theorem wordSum_pos {l : List UInt8} (hl : l.length ≤ 65600) {a : UInt8} (ha : a ∈ l)
    (hpos : 0 < a.toNat) : 0 < wordSum l := by
  induction l using wordSum.induct with
  | case1 => simp at ha
  | case2 b => rwa [wordSum, ← mem_singleton.1 ha]
  | case3 b c rest ih =>
    simp only [length_cons] at hl
    rw [wordSum_cons _ _ (by omega)]
    rcases mem_cons.1 ha with rfl | ha
    · omega
    · rcases mem_cons.1 ha with rfl | ha
      · omega
      · have := ih (by omega) ha
        omega

theorem wordSum_append {l m : List UInt8} (heven : l.length % 2 = 0)
    (h : l.length + m.length ≤ 65600) : wordSum (l ++ m) = wordSum l + wordSum m := by
  induction l using wordSum.induct with
  | case1 => simp [wordSum]
  | case2 b => simp at heven
  | case3 a b rest ih =>
    simp only [length_cons] at heven h
    rw [cons_append, cons_append, wordSum_cons _ _ (by simp; omega),
      wordSum_cons _ _ (by omega), ih (by omega) (by omega)]
    omega

/-! ## Single-bit errors -/

namespace NetBuffer

variable {b : NetBuffer} {i k : ℕ}

def ihl (b : NetBuffer) : ℕ := (b.byte 0).toNat % 16

/-- The header with its checksum set to zero. -/
def cleared (b : NetBuffer) : List UInt8 :=
  loadBytes (storeBytes b.memory (b.offset + 10) [0, 0]) b.offset (b.ihl * 4)

end NetBuffer

theorem ipChecksum_eq {l : List UInt8} (hpos : 0 < wordSum l) (hl : l.length ≤ 65600) :
    ipChecksum l + ((wordSum l - 1) % 65535 + 1) = 65535 := by
  have hle := wordSum_le l hl
  rw [ipChecksum, addCarries_eq hpos (by omega)]
  omega

namespace NetBuffer

variable {b : NetBuffer} {i k : ℕ}

end NetBuffer

/-- What `ip_send` and `ip_receive` read of a `net_device_t`. -/
structure Interface where
  up : Bool
  ip : Ipv4Address
  netmask : Ipv4Address
deriving DecidableEq, Repr

/-- `a & mask == b & mask`, for addresses as words of 32 bits. -/
def sameSubnet (a b mask : Ipv4Address) : Bool :=
  a.b0 &&& mask.b0 = b.b0 &&& mask.b0 ∧ a.b1 &&& mask.b1 = b.b1 &&& mask.b1 ∧
    a.b2 &&& mask.b2 = b.b2 &&& mask.b2 ∧ a.b3 &&& mask.b3 = b.b3 &&& mask.b3

/-- The registered devices, the default one, and `ip_state.next_id`. -/
structure IpState where
  devices : List Interface
  defaultDevice : Option Interface
  nextId : UInt16

def IpState.sendDevice (s : IpState) (device : Option Interface) (dest : Ipv4Address) :
    Option Interface :=
  device <|> s.devices.find? (fun d => d.up && sameSubnet dest d.ip d.netmask) <|> s.defaultDevice

/-- The header once the bytes of its fields were swapped. -/
def sentHeader (id : UInt16) (len : ℕ) (src dest : Ipv4Address) (protocol : UInt8)
    (checksum : ℕ) : List UInt8 :=
  [0x45, 0] ++ bytes16 len ++ bytes16 id.toNat ++ bytes16 0x4000 ++ [64, protocol] ++
    bytes16 checksum ++ addressBytes src ++ addressBytes dest

/-- `ip_send`; without a device the header stays in machine order and without addresses. -/
def ipSend (s : IpState) (device : Option Interface) (b : NetBuffer) (dest : Ipv4Address)
    (protocol : UInt8) : IpState × NetBuffer × Int :=
  match b.push ipHeaderMinSize with
  | none => (s, b, -2)
  | some b =>
    let s' := { s with nextId := s.nextId + 1 }
    match s.sendDevice device dest with
    | none =>
      (s', b.write ([0x45, 0] ++ (bytes16 b.len).reverse ++ (bytes16 s.nextId.toNat).reverse ++
        [0, 0x40, 64, protocol, 0, 0]), -1)
    | some dev =>
      let header := sentHeader s.nextId b.len dev.ip dest protocol
      -- the bytes of the checksum are swapped as well
      (s', b.write (header (ipChecksum (header 0))), 0)

variable (b : NetBuffer)

/-- The bytes of the field at `i` are swapped. -/
def NetBuffer.swapField (i : ℕ) : NetBuffer :=
  { b with memory := storeBytes b.memory (b.offset + i) [b.byte (i + 1), b.byte i] }

/-- The conversion of the fields to machine order. -/
def NetBuffer.converted : NetBuffer :=
  (((b.swapField 2).swapField 4).swapField 6).swapField 10

/-- The field at `i` of the header, in machine order. -/
def NetBuffer.field (i : ℕ) : ℕ := (b.byte i).toNat + 256 * (b.byte (i + 1)).toNat

/-- The packet is to the device's address, or to a broadcast address. -/
def Interface.isFor (dev : Interface) (dest : Ipv4Address) : Bool :=
  dest = dev.ip || dest = ⟨255, 255, 255, 255⟩ ||
    dest = ⟨dev.ip.b0 &&& dev.netmask.b0 ||| ~~~dev.netmask.b0,
      dev.ip.b1 &&& dev.netmask.b1 ||| ~~~dev.netmask.b1,
      dev.ip.b2 &&& dev.netmask.b2 ||| ~~~dev.netmask.b2,
      dev.ip.b3 &&& dev.netmask.b3 ||| ~~~dev.netmask.b3⟩

/-- `ip_receive`: the buffer with converted fields, the one after the header, and the result. -/
def ipReceive (dev : Interface) (b : NetBuffer) : NetBuffer × NetBuffer × Int :=
  if b.len < ipHeaderMinSize then (b, b, -1)
  else if b.ihl < 5 then (b, b, -1)
  else if (b.byte 0).toNat / 16 ≠ 4 then (b, b, -1)
  else if b.field 10 ≠ ipChecksum b.cleared then (b, b, -1)
  else
    let b := b.converted
    if dev.isFor ⟨b.byte 16, b.byte 17, b.byte 18, b.byte 19⟩ then
      (b, (b.pull (b.ihl * 4)).getD b, 0)
    else (b, b, 0)

theorem NetBuffer.byte_write {l : List UInt8} {i : ℕ} (h : i < l.length) :
    (b.write l).byte i = l.getD i 0 := by
  simp [byte, write, storeBytes, h]

theorem NetBuffer.byte_swapField (i j : ℕ) : (b.swapField i).byte j =
      if j = i then b.byte (i + 1) else if j = i + 1 then b.byte i else b.byte j := by
  split_ifs with hi hi'
  · simp [byte, swapField, storeBytes, hi]
  · simp [byte, swapField, storeBytes, hi', ← Nat.add_assoc]
  · have hout : b.offset + j < b.offset + i ∨ b.offset + i + 2 ≤ b.offset + j := by omega
    exact storeBytes_of_out hout

theorem NetBuffer.field_converted {i : ℕ} (hi : i = 2 ∨ i = 4 ∨ i = 6) :
    b.converted.field i = (b.byte (i + 1)).toNat + 256 * (b.byte i).toNat := by
  rcases hi with rfl | rfl | rfl <;> simp [field, converted, byte_swapField]

theorem ipReceive_checked (dev : Interface) {b : NetBuffer} (hlen : ipHeaderMinSize ≤ b.len)
    (hfirst : b.byte 0 = 0x45) :
    ((ipReceive dev b).2.2 = 0 ↔ b.field 10 = ipChecksum b.cleared) ∧
      (b.field 10 = ipChecksum b.cleared → (ipReceive dev b).1 = b.converted) := by
  have hihl : ¬ b.ihl < 5 := by simp [NetBuffer.ihl, hfirst]
  have hversion : ¬ (b.byte 0).toNat / 16 ≠ 4 := by simp [hfirst]
  rw [ipReceive, if_neg (not_lt.2 hlen), if_neg hihl, if_neg hversion]
  by_cases hsum : b.field 10 = ipChecksum b.cleared
  · rw [if_neg (not_not.2 hsum)]
    dsimp only
    split_ifs <;> simp [hsum]
  · rw [if_pos hsum]
    simp [hsum]

/-- What `ip_send` writes is accepted by `ip_receive`, with the values of the fields, exactly if the
two bytes of the checksum are the same. -/
theorem sent_packet_received_iff (s : IpState) {device : Option Interface} {b : NetBuffer}
    {dest : Ipv4Address} {dev : Interface} (hroom : ipHeaderMinSize ≤ b.offset)
    (hdev : s.sendDevice device dest = some dev) (protocol : UInt8) (receiver : Interface) :
    let sent := ipSend s device b dest protocol
    let received := ipReceive receiver sent.2.1
    let checksum := ipChecksum (sentHeader s.nextId (b.len + 20) dev.ip dest protocol 0)
    (received.2.2 = 0 ∧ received.1.field 2 = (b.len + 20) % 65536 ∧
      received.1.field 4 = s.nextId.toNat ∧ received.1.field 6 = 0x4000) ↔
        checksum / 256 = checksum % 256 := by
  intro sent received checksum
  set b' : NetBuffer := { b with offset := b.offset - 20, len := b.len + 20 } with hb'
  have hsent : sent.2.1 =
      b'.write (sentHeader s.nextId (b.len + 20) dev.ip dest protocol checksum) := by
    have hpush : b.push ipHeaderMinSize = some b' := if_neg (not_lt.2 hroom)
    simp only [sent, ipSend, hpush, hdev]
    rfl
  have hbyte : ∀ i < 20, sent.2.1.byte i =
      (sentHeader s.nextId (b.len + 20) dev.ip dest protocol checksum).getD i 0 := by
    intro i hi
    rw [hsent, NetBuffer.byte_write _ hi]
  have hle : checksum < 65536 := Nat.lt_succ_of_le (Nat.sub_le _ _)
  have hstored : sent.2.1.field 10 = checksum / 256 + 256 * (checksum % 256) := by
    rw [NetBuffer.field, hbyte 10 (by decide), hbyte 11 (by decide)]
    simp [sentHeader, bytes16]
    omega
  have hlen : ipHeaderMinSize ≤ sent.2.1.len := hsent ▸ Nat.le_add_left _ _
  have hfirst : sent.2.1.byte 0 = 0x45 := hbyte 0 (by decide)
  obtain ⟨hiff, hconv⟩ := ipReceive_checked receiver hlen hfirst
  have hcleared : ipChecksum sent.2.1.cleared = checksum := by
    have hihl : sent.2.1.ihl * 4 = 20 := by
      rw [NetBuffer.ihl, hfirst]
      rfl
    rw [NetBuffer.cleared, hihl, NetBuffer.cleared_of_bytes rfl hbyte]
    rfl
  have hsame : sent.2.1.field 10 = ipChecksum sent.2.1.cleared ↔
      checksum / 256 = checksum % 256 := by
    rw [hstored, hcleared]
    omega
  refine ⟨fun h => hsame.1 (hiff.1 h.1), fun h => ⟨hiff.2 (hsame.2 h), ?_⟩⟩
  have hid := s.nextId.toNat_lt
  simp only [received, hconv (hsame.2 h), NetBuffer.field_converted _ (.inl rfl),
    NetBuffer.field_converted _ (.inr (.inl rfl)), NetBuffer.field_converted _ (.inr (.inr rfl)),
    hbyte _ (show 2 < 20 by decide), hbyte _ (show 3 < 20 by decide),
    hbyte _ (show 4 < 20 by decide), hbyte _ (show 5 < 20 by decide),
    hbyte _ (show 6 < 20 by decide), hbyte _ (show 7 < 20 by decide)]
  simp [sentHeader, bytes16]
  omega

/-- From 10.0.0.1 to 10.0.0.178 the checksum of the first empty UDP packet is 0x2626. -/
theorem equal_bytes_received :
    let dev : Interface := ⟨true, ⟨10, 0, 0, 1⟩, ⟨255, 255, 255, 0⟩⟩
    let sent := ipSend ⟨[dev], none, 1⟩ none ⟨fun _ => 0, 64, 34, 0⟩ ⟨10, 0, 0, 178⟩ 17
    (ipReceive dev sent.2.1).2.2 = 0 :=
  ((sent_packet_received_iff _ (by decide) rfl 17 _).2 (by decide)).1

/-- The same packet to 10.0.0.2 has the checksum 0xD626, stored as 0x26D6, and is rejected. -/
theorem sent_packet_rejected :
    let dev : Interface := ⟨true, ⟨10, 0, 0, 1⟩, ⟨255, 255, 255, 0⟩⟩
    let sent := ipSend ⟨[dev], none, 1⟩ none ⟨fun _ => 0, 64, 34, 0⟩ ⟨10, 0, 0, 2⟩ 17
    sent.2.2 = 0 ∧ (ipReceive ⟨true, ⟨10, 0, 0, 2⟩, ⟨255, 255, 255, 0⟩⟩ sent.2.1).2.2 = -1 := by
  decide

end UintOS.Link

/-! ## The checksum of TCP segments -/

namespace UintOS.Tcp

open Network Link

/-- The one's complement sum of the words of `l` in network order, zero-padded. -/
def onesSum : List UInt8 → ℕ
  | [] => 0
  | [a] => 256 * a.toNat
  | a :: b :: rest =>
    let sum := 256 * a.toNat + b.toNat + onesSum rest
    if sum < 65536 then sum else sum - 65535

namespace Packet

variable (p : Packet)

/-- What the sum of RFC 793 covers: the pseudo-header with the length of the segment, the whole
header without the checksum, and the payload. -/
def summed : List UInt8 :=
  addressBytes p.src ++ addressBytes p.dest ++ [0, 6] ++ bytes16 p.bytes.length ++
    clearChecksum p.bytes

def checksum : ℕ := 256 * (byteAt p.bytes 16).toNat + (byteAt p.bytes 17).toNat

/-- The checksum is the complement of the sum. -/
def Valid : Prop := p.checksum + onesSum p.summed = 65535

def headerSize : ℕ := (byteAt p.bytes 12).toNat / 16 * 4

def options : List UInt8 := (p.bytes.take p.headerSize).drop tcpHeaderSize

/-- What `tcp_checksum` sums: no options, and their length not in that of the segment. -/
def covered : List UInt8 :=
  let data := p.bytes.drop p.headerSize
  pseudoHeader p.src p.dest data.length ++ ((clearChecksum p.bytes).take tcpHeaderSize ++ data)

end Packet

/-- But for its own byte order the sum does not depend on that of the bytes. -/
theorem onesSum_spec {l : List UInt8} (hl : l.length ≤ 65600) :
    onesSum l ≤ 65535 ∧ (256 * onesSum l) % 65535 = wordSum l % 65535 ∧
      (onesSum l = 0 ↔ wordSum l = 0) := by
  induction l using wordSum.induct with
  | case1 => decide
  | case2 a =>
    have := a.toNat_lt
    simp only [onesSum, wordSum]
    omega
  | case3 a b rest ih =>
    have := a.toNat_lt
    have := b.toNat_lt
    simp only [List.length_cons] at hl
    obtain ⟨hle, hmod, hzero⟩ := ih (by omega)
    rw [wordSum_cons a b (by omega)]
    simp only [onesSum]
    split_ifs <;> omega

/-- Two sums, of which one has `n` and words of the sum `o` more, in network order. -/
theorem sums_agree_iff {s s' x n o w : ℕ} (hs : 0 < s ∧ s ≤ 65535) (hs' : 0 < s' ∧ s' ≤ 65535)
    (h : 256 * s % 65535 = x % 65535) (h' : 256 * s' % 65535 = (x + 256 * n + w) % 65535)
    (ho : 256 * o % 65535 = w % 65535) : s = s' ↔ (n + o) % 65535 = 0 := by
  have hx : s % 65535 = 256 * x % 65535 := by omega
  have hx' : s' % 65535 = (256 * x + (n + o)) % 65535 := by omega
  omega

theorem wordSum_bytes16 {n : ℕ} (hn : n < 65536) :
    wordSum (bytes16 n) % 65535 = (256 * n) % 65535 := by
  have hswap : 256 * n = 65535 * (n / 256) + (n / 256 + 256 * (n % 256)) := by omega
  have hhigh : n / 256 % 2 ^ 8 = n / 256 := Nat.mod_eq_of_lt (by omega)
  rw [bytes16, wordSum_cons _ _ (Nat.zero_le _), UInt8.toNat_ofNat', UInt8.toNat_ofNat', hswap,
    Nat.mul_add_mod, hhigh]
  rfl

/-- The sum of a segment with its pseudo-header. -/
theorem onesSum_pseudoHeader {src dest : Ipv4Address} {n : ℕ} {l rest : List UInt8}
    (heq : l = pseudoHeader src dest n ++ rest) (hn : 20 + n < 65536)
      (hrest : rest.length < 65536) :
    wordSum l = wordSum (pseudoHeader src dest n) + wordSum rest ∧ l.length ≤ 65600 ∧
      0 < wordSum l ∧ (256 * onesSum l) % 65535 =
        (wordSum (addressBytes src ++ addressBytes dest ++ [0, 6]) + 256 * (20 + n) +
          wordSum rest) % 65535 := by
  subst heq
  have hpseudo : (pseudoHeader src dest n).length = 12 := rfl
  have haddr : (addressBytes src ++ addressBytes dest ++ [0, 6]).length = 10 := rfl
  have hl : (pseudoHeader src dest n ++ rest).length ≤ 65600 := by
    rw [List.length_append, hpseudo]
    omega
  have hsum := wordSum_append (l := pseudoHeader src dest n) (m := rest)
    (by rw [hpseudo]) (by omega)
  refine ⟨hsum, hl, wordSum_pos hl (a := 6) (by simp [pseudoHeader]) (by decide), ?_⟩
  have hlength := wordSum_bytes16 hn
  rw [(onesSum_spec hl).2.1, hsum, pseudoHeader, tcpHeaderSize,
    wordSum_append (by rw [haddr]) (by rw [haddr]; decide : _ + 2 ≤ _)]
  omega

section Check

variable {p : Packet} (hlo : tcpHeaderSize ≤ p.headerSize) (hhi : p.headerSize ≤ p.bytes.length)
include hlo hhi

/-- The test of `tcp_rx`. -/
theorem parse_isSome_iff : (parse p).isSome ↔
    (byteAt p.bytes 16).toNat + 256 * (byteAt p.bytes 17).toNat =
      tcpChecksum (clearChecksum p.bytes) (p.bytes.drop p.headerSize) p.src p.dest := by
  simp only [parse]
  rw [if_neg (not_lt.2 (hlo.trans hhi)), if_neg (fun h => h.elim (not_lt.2 hlo) (not_lt.2 hhi))]
  split_ifs with h
  · exact iff_of_false (by simp) h
  · exact iff_of_true rfl (not_not.1 h)

/-- The parts of a segment. -/
theorem clearChecksum_eq : ((clearChecksum p.bytes).take tcpHeaderSize).length = 20 ∧
    p.options.length = p.headerSize - 20 ∧
    clearChecksum p.bytes = (clearChecksum p.bytes).take tcpHeaderSize ++
      (p.options ++ p.bytes.drop p.headerSize) := by
  have hlen := hlo.trans hhi
  have h16 : (p.bytes.take 16).length = 16 := List.length_take_of_le (le_trans (by decide) hlen)
  have htake : (p.bytes.take p.headerSize).length = p.headerSize := List.length_take_of_le hhi
  refine ⟨?_, by rw [Packet.options, List.length_drop, htake]; rfl, ?_⟩
  · simp only [clearChecksum, List.length_take, List.length_drop, List.length_append,
      List.length_cons, List.length_nil, tcpHeaderSize] at hlen ⊢
    omega
  · have hdrop : (clearChecksum p.bytes).drop tcpHeaderSize = p.bytes.drop tcpHeaderSize := by
      simp [clearChecksum, tcpHeaderSize, List.drop_append, h16]
    rw [Packet.options, ← List.drop_append_of_le_length (by rw [htake]; exact hlo),
      List.take_append_drop, ← hdrop, List.take_append_drop]

variable (hmax : p.bytes.length < 65536)
include hmax

theorem parse_isSome_iff_covered :
    (parse p).isSome ↔ p.checksum + onesSum p.covered = 65535 := by
  obtain ⟨hheader, -, -⟩ := clearChecksum_eq hlo hhi
  have hdata : 20 + (p.bytes.drop p.headerSize).length ≤ p.bytes.length := by
    rw [List.length_drop]
    unfold tcpHeaderSize at hlo
    omega
  obtain ⟨hwords, hshort, hpos, -⟩ := onesSum_pseudoHeader (l := p.covered) rfl
    (hdata.trans_lt hmax) (by rw [List.length_append]; omega)
  rw [wordSum_append (by rw [hheader]) (by omega)] at hwords
  have hsame : tcpChecksum (clearChecksum p.bytes) (p.bytes.drop p.headerSize) p.src p.dest =
      ipChecksum p.covered := by
    have hle := wordSum_le _ hshort
    rw [tcpChecksum, ipChecksum, hwords, Nat.mod_eq_of_lt (by omega), Nat.add_assoc]
  obtain ⟨hle, hmod, hzero⟩ := onesSum_spec hshort
  have hsum := ipChecksum_eq hpos hshort
  have hfirst := (byteAt p.bytes 16).toNat_lt
  have hsecond := (byteAt p.bytes 17).toNat_lt
  rw [parse_isSome_iff hlo hhi, hsame, Packet.checksum]
  omega

/-- The two sums agree exactly if the words of the options and their length cancel. -/
theorem onesSum_covered_iff : onesSum p.covered = onesSum p.summed ↔
    (p.options.length + onesSum p.options) % 65535 = 0 := by
  obtain ⟨hheader, hoptions, hparts⟩ := clearChecksum_eq hlo hhi
  have heven : p.options.length % 2 = 0 := by
    rw [hoptions, Packet.headerSize]
    omega
  have hdata : p.headerSize + (p.bytes.drop p.headerSize).length = p.bytes.length := by
    rw [List.length_drop]
    omega
  unfold tcpHeaderSize at hlo
  have heq : p.summed =
      pseudoHeader p.src p.dest (p.bytes.length - 20) ++ clearChecksum p.bytes := by
    rw [pseudoHeader, tcpHeaderSize, Nat.add_sub_of_le (hlo.trans hhi)]
    rfl
  obtain ⟨-, hshort, hpos, hmod⟩ := onesSum_pseudoHeader (l := p.covered) rfl (by omega)
    (by rw [List.length_append]; omega)
  obtain ⟨-, hshort', hpos', hmod'⟩ := onesSum_pseudoHeader heq (by omega)
    (by rw [hparts]; simp only [List.length_append]; omega)
  have hwhole := congrArg wordSum hparts
  rw [wordSum_append (by rw [hheader]) (by simp only [List.length_append]; omega),
    wordSum_append heven (by omega)] at hwhole
  have hpart := wordSum_append (l := (clearChecksum p.bytes).take tcpHeaderSize)
    (m := p.bytes.drop p.headerSize) (by rw [hheader]) (by omega)
  obtain ⟨hle, -, hzero⟩ := onesSum_spec hshort
  obtain ⟨hle', -, hzero'⟩ := onesSum_spec hshort'
  refine sums_agree_iff ⟨by omega, hle⟩ ⟨by omega, hle'⟩ hmod ?_
    (onesSum_spec (l := p.options) (by omega)).2.1
  rw [hmod', hwhole, hpart, hoptions]
  exact congrArg (· % 65535) (by omega)

/-- A segment with a whole header is checked as RFC 793 says exactly if the words of the options and
their length cancel in the sum, as they do without options, or if the checksum is wrong with as well
as without them. What `tcp_send_segment` builds always passes. -/
theorem checksum_exact_iff : (((parse p).isSome ↔ p.Valid) ↔
      (p.options.length + onesSum p.options) % 65535 = 0 ∨
        p.checksum + onesSum p.summed ≠ 65535 ∧ p.checksum + onesSum p.covered ≠ 65535) ∧
    ∀ c flags data, (parse ⟨segmentBytes c flags data, c.localAddr, c.remoteAddr⟩).isSome := by
  constructor
  · rw [← onesSum_covered_iff hlo hhi hmax, parse_isSome_iff_covered hlo hhi hmax, Packet.Valid]
    omega
  · intro c flags data
    have hsum : tcpChecksum (segmentHeader c flags 0) data c.localAddr c.remoteAddr < 65536 :=
      Nat.lt_succ_of_le (Nat.sub_le _ _)
    have hsize : Packet.headerSize ⟨segmentBytes c flags data, c.localAddr, c.remoteAddr⟩ = 20 := by
      simp [segmentBytes, segmentHeader, bytes16, bytes32, Packet.headerSize, byteAt]
    rw [parse_isSome_iff hsize.ge
      (by rw [hsize]; simp [segmentBytes, segmentHeader, bytes16, bytes32]), hsize]
    have hcleared : clearChecksum (segmentBytes c flags data) =
      segmentHeader c flags 0 ++ data := rfl
    have hdata : (segmentBytes c flags data).drop 20 = data := rfl
    rw [hcleared, hdata]
    change (UInt8.ofNat _).toNat + 256 * (UInt8.ofNat _).toNat =
      tcpChecksum (segmentHeader c flags 0) data c.localAddr c.remoteAddr
    simp only [UInt8.toNat_ofNat']
    omega

end Check

/-- A `SYN` to port 80 with one byte of data and an option of which the words and the length
cancel. -/
theorem cancelling_option_checked :
    (parse ⟨[0x12, 0x34, 0, 0x50, 0, 0, 0, 1, 0, 0, 0, 0, 0x60, 2, 0x10, 0, 0x62, 0x5a,
      0, 0, 0xfe, 4,
      1, 0xf7, 7], ⟨10, 0, 0, 2⟩, ⟨10, 0, 0, 1⟩⟩).isSome :=
  ((checksum_exact_iff (by decide) (by decide) (by decide)).1.mpr (.inl (by decide))).mpr
    (show _ = _ by decide)

/-- A `SYN` to port 80 with the maximum segment size 1460 as an option. -/
theorem segment_with_option_rejected :
    let p : Packet := ⟨[0x12, 0x34, 0, 0x50, 0, 0, 0, 1, 0, 0, 0, 0, 0x60, 2, 0x10, 0, 0x61, 0x9f,
      0, 0, 2, 4, 5, 0xb4], ⟨10, 0, 0, 2⟩, ⟨10, 0, 0, 1⟩⟩
    p.Valid ∧ parse p = none :=
  ⟨show _ = _ by decide, by decide⟩

end UintOS.Tcp
