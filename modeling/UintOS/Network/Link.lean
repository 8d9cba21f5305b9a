import UintOS.Library.Machine
import UintOS.Network.Basic

/-!
# Frames from `ip_tx` to `ip_rx`

The packet buffers of `network.c`, the Ethernet layer and the IP layer, from `ip_alloc_packet` on
the sending host to the protocol handler on the receiving one.

The layers do not fit together. `ip_alloc_packet` asks `net_buffer_reserve` for room for the IP
header; that replaces the room reserved for the Ethernet header, so `ethernet_tx` finds none left
and sends nothing. On the other side the protocol handlers are indexed by the first byte of the
EtherType, which IP and ARP share, so an IP packet is given to the ARP handler. The IP layer alone
does deliver what it encodes (`ipRx_packet`).
-/

namespace UintOS.Link

open List Machine Network

/-! ## Buffers -/

/-- An allocated `net_buffer_t`: `data` points to the byte `offset` of the block. -/
structure NetBuffer where
  memory : ℕ → UInt8
  size : ℕ
  offset : ℕ
  len : ℕ

namespace NetBuffer

variable (b : NetBuffer)

def bytes : List UInt8 := loadBytes b.memory b.offset b.len

/-- `data[i]`. -/
def byte (i : ℕ) : UInt8 := b.memory (b.offset + i)

def write (l : List UInt8) : NetBuffer :=
  { b with memory := storeBytes b.memory b.offset l }

/-- `net_buffer_alloc`, with enough memory; `heap` is what the block contains. -/
def alloc (heap : ℕ → UInt8) (size reserveHeader : ℕ) : Option NetBuffer :=
  if size = 0 then none else some ⟨heap, size, reserveHeader, 0⟩

def push (len : ℕ) : Option NetBuffer :=
  if b.offset < len then none else some { b with offset := b.offset - len, len := b.len + len }

def pull (len : ℕ) : Option NetBuffer :=
  if b.len < len then none else some { b with offset := b.offset + len, len := b.len - len }

def reserve (len : ℕ) : NetBuffer × Int :=
  if 0 < b.len then (b, -1) else if b.size < len then (b, -2) else ({ b with offset := len }, 0)

def trim (n : ℕ) : NetBuffer := { b with len := b.len - n }

def fill (payload : List UInt8) : NetBuffer :=
  { b.write payload with len := payload.length }

end NetBuffer

/-! ## Ethernet -/

def ethHeaderSize : ℕ := 14

def ethTypeIp : ℕ := 0x0800

def ethTypeArp : ℕ := 0x0806

/-- A device: whether it is up, and its `transmit` operation, if any. -/
structure Device where
  up : Bool
  mac : MacAddress
  transmit : Option (List UInt8 → Int)

def MacAddress.bytes (m : MacAddress) : List UInt8 := [m.m0, m.m1, m.m2, m.m3, m.m4, m.m5]

def ethernetAllocFrame (heap : ℕ → UInt8) (payloadSize : ℕ) : Option NetBuffer :=
  NetBuffer.alloc heap (ethHeaderSize + payloadSize) ethHeaderSize

/-- `ethernet_tx`: the buffer, the result, and the frames given to the device. -/
def ethernetTx (dev : Device) (b : NetBuffer) (dest : MacAddress) (ethertype : ℕ) :
    NetBuffer × Int × List (List UInt8) :=
  if dev.up = false then (b, -4, [])
  else if b.offset < ethHeaderSize then (b, -2, [])
  else
    match b.push ethHeaderSize with
    | none => (b, -2, [])
    | some b =>
      let b := b.write (MacAddress.bytes dest ++ MacAddress.bytes dev.mac ++
        [UInt8.ofNat (ethertype / 256), UInt8.ofNat ethertype])
      match dev.transmit with
      | none => (b, -1, [])
      | some transmit => (b, transmit b.bytes, [b.bytes])

/-! ## IP -/

def ipHeaderMinSize : ℕ := 20

/-- The IP configuration of a host and its protocol handlers, by number. -/
structure Host where
  localIp : Ipv4Address
  subnetMask : Ipv4Address
  defaultGateway : Ipv4Address
  handlers : List (UInt8 × ℕ)

def addressBytes (a : Ipv4Address) : List UInt8 := [a.b0, a.b1, a.b2, a.b3]

def ipFindProtocolHandler (h : Host) (protocol : UInt8) : Option ℕ :=
  (h.handlers.find? fun p => p.1 = protocol).map Prod.snd

/-- The sum of the 16-bit words of `ip_checksum`, in machine order. -/
def wordSum : List UInt8 → ℕ
  | [] => 0
  | [b] => b.toNat
  | a :: b :: rest => (a.toNat + 256 * b.toNat + wordSum rest) % 4294967296

/-- The loop that adds the carries; two rounds do for 32 bits. -/
def addCarries : ℕ → ℕ → ℕ
  | 0, sum => sum
  | rounds + 1, sum =>
    if 0 < sum / 65536 then addCarries rounds (sum % 65536 + sum / 65536) else sum

def ipChecksum (data : List UInt8) : ℕ := 65535 - addCarries 2 (wordSum data)

/-- The header `ip_tx` writes for a packet of `len` bytes. -/
def ipHeader (h : Host) (len : ℕ) (dest : Ipv4Address) (protocol : UInt8) (checksum : ℕ) :
    List UInt8 :=
  [0x45, 0, UInt8.ofNat (len / 256), UInt8.ofNat len, 0, 0, 0x40, 0, 64, protocol,
    UInt8.ofNat checksum, UInt8.ofNat (checksum / 256)] ++ addressBytes h.localIp ++
      addressBytes dest

def ipHeaderSummed (h : Host) (len : ℕ) (dest : Ipv4Address) (protocol : UInt8) : List UInt8 :=
  ipHeader h len dest protocol (ipChecksum (ipHeader h len dest protocol 0))

def ipIsOnLocalSubnet (h : Host) (a : Ipv4Address) : Bool :=
  ipAddrIsAny h.subnetMask || (a.b0 &&& h.subnetMask.b0 = h.localIp.b0 &&& h.subnetMask.b0 ∧
      a.b1 &&& h.subnetMask.b1 = h.localIp.b1 &&& h.subnetMask.b1 ∧
      a.b2 &&& h.subnetMask.b2 = h.localIp.b2 &&& h.subnetMask.b2 ∧
      a.b3 &&& h.subnetMask.b3 = h.localIp.b3 &&& h.subnetMask.b3)

def ipIsLocalAddress (h : Host) (a : Ipv4Address) : Bool :=
  ipAddrCmp a h.localIp || a.b0 = 127

def ipIsBroadcast (h : Host) (a : Ipv4Address) : Bool :=
  a = ⟨255, 255, 255, 255⟩ ||
    ipAddrCmp a ⟨h.localIp.b0 ||| ~~~h.subnetMask.b0, h.localIp.b1 ||| ~~~h.subnetMask.b1,
      h.localIp.b2 ||| ~~~h.subnetMask.b2, h.localIp.b3 ||| ~~~h.subnetMask.b3⟩

/-- `ip_alloc_packet`; the result of `netbuf_reserve` is ignored. -/
def ipAllocPacket (heap : ℕ → UInt8) (payloadSize : ℕ) : Option NetBuffer :=
  (ethernetAllocFrame heap (ipHeaderMinSize + payloadSize)).map fun b =>
    (b.reserve ipHeaderMinSize).1

def ipTx (h : Host) (dev : Device) (b : NetBuffer) (dest : Ipv4Address) (protocol : UInt8) :
    NetBuffer × Int × List (List UInt8) :=
  match b.push ipHeaderMinSize with
  | none => (b, -1, [])
  | some b =>
    let b := b.write (ipHeaderSummed h b.len dest protocol)
    let nextHop := if ipIsOnLocalSubnet h dest then dest else h.defaultGateway
    if ¬ ipIsOnLocalSubnet h dest ∧ ipAddrIsAny nextHop then (b, -1, [])
    else ethernetTx dev b ⟨0x12, 0x34, 0x56, 0x78, 0x9A, 0xBC⟩ ethTypeIp

structure Delivery where
  handler : ℕ
  payload : List UInt8
  src : Ipv4Address
  dest : Ipv4Address
deriving DecidableEq, Repr

/-- The handlers' results, and the calls of handlers. -/
abbrev Received := Int × List Delivery

/-- `ip_rx`; `result` is what a handler returns. -/
def ipRx (result : Delivery → Int) (h : Host) (b : NetBuffer) : Received :=
  if b.len < ipHeaderMinSize then (-1, [])
  else if (b.byte 0).toNat / 16 ≠ 4 then (-1, [])
  else
    let ihl := (b.byte 0).toNat % 16
    if ihl < 5 then (-1, [])
    else
      let hdrLen := ihl * 4
      if b.len < hdrLen then (-1, [])
      else
        let checksum := (b.byte 10).toNat + 256 * (b.byte 11).toNat
        let cleared := loadBytes (storeBytes b.memory (b.offset + 10) [0, 0]) b.offset hdrLen
        if checksum ≠ ipChecksum cleared then (-1, [])
        else
          let totalLen := (b.byte 2).toNat * 256 + (b.byte 3).toNat
          if b.len < totalLen then (-1, [])
          else
            let b := if totalLen < b.len then b.trim (b.len - totalLen) else b
            let flagsAndOffset := (b.byte 6).toNat * 256 + (b.byte 7).toNat
            if flagsAndOffset % 8192 ≠ 0 ∨ flagsAndOffset / 8192 &&& 4 ≠ 0 then (-1, [])
            else
              let src : Ipv4Address := ⟨b.byte 12, b.byte 13, b.byte 14, b.byte 15⟩
              let dest : Ipv4Address := ⟨b.byte 16, b.byte 17, b.byte 18, b.byte 19⟩
              if ¬ ipIsLocalAddress h dest ∧ ¬ ipIsBroadcast h dest then (-1, [])
              else
                match ipFindProtocolHandler h (b.byte 9) with
                | none => (-1, [])
                | some handler =>
                  let b := (b.pull hdrLen).getD b
                  let call : Delivery := ⟨handler, b.bytes, src, dest⟩
                  (result call, [call])

/-! ## Dispatch -/

inductive EthHandler
  | ip
  | arp
deriving DecidableEq, Repr

/-- `protocol_handlers`: of two initialisers for one index the later counts. -/
def protocolHandlers : ℕ → Option EthHandler :=
  Function.update (Function.update (fun _ => none) (ethTypeIp / 256) (some .ip))
    (ethTypeArp / 256) (some .arp)

/-- The number of entries of `protocol_handlers`. -/
def protocolHandlersSize : ℕ := max (ethTypeIp / 256) (ethTypeArp / 256) + 1

def ethernetRx (result : Delivery → Int) (h : Host) (b : NetBuffer) : Received :=
  if b.len < ethHeaderSize then (-1, [])
  else
    let ethertype := (b.byte 12).toNat * 256 + (b.byte 13).toNat
    let protoIndex := ethertype / 256
    if protocolHandlersSize ≤ protoIndex then (-3, [])
    else
      match protocolHandlers protoIndex with
      | none => (-3, [])
      | some .ip => ipRx result h ((b.pull ethHeaderSize).getD b)
      | some .arp => (0, [])

/-- The buffer `network_receive_packet` puts a frame in. -/
def receiveBuffer (heap : ℕ → UInt8) (frame : List UInt8) : NetBuffer :=
  ⟨storeBytes heap 0 frame, frame.length + 64, 0, frame.length⟩

variable (heap heap' : ℕ → UInt8) (result : Delivery → Int)

/-- What the receiver's handlers get when the sender sends the payload. -/
def deliveries (sender receiver : Host)
    (dev : Device) (dest : Ipv4Address) (protocol : UInt8) (payload : List UInt8) : List Delivery :=
  match ipAllocPacket heap payload.length with
  | none => []
  | some b =>
    (ipTx sender dev (b.fill payload) dest protocol).2.2.flatMap fun frame =>
      (ethernetRx result receiver (receiveBuffer heap' frame)).2

/-- The payload arrives once, at the handler for its protocol. -/
def Delivered (sender receiver : Host)
    (dev : Device) (dest : Ipv4Address) (protocol : UInt8) (payload : List UInt8) : Prop :=
  ∃ handler, ipFindProtocolHandler receiver protocol = some handler ∧
    (deliveries heap heap' result sender receiver dev dest protocol payload).map
      (fun d => (d.handler, d.payload)) = [(handler, payload)]

/-! ## The sender -/

theorem ipAllocPacket_eq (heap : ℕ → UInt8) (payloadSize : ℕ) : ipAllocPacket heap payloadSize =
      some ⟨heap, ethHeaderSize + (ipHeaderMinSize + payloadSize), ipHeaderMinSize, 0⟩ := by
  have hsize : ethHeaderSize + (ipHeaderMinSize + payloadSize) ≠ 0 := by
    unfold ethHeaderSize
    omega
  have hfit : ¬ ethHeaderSize + (ipHeaderMinSize + payloadSize) < ipHeaderMinSize := by omega
  rw [ipAllocPacket, ethernetAllocFrame, NetBuffer.alloc, if_neg hsize]
  simp [NetBuffer.reserve, hfit]

/-- Without headroom `ethernet_tx` gives the device nothing. -/
theorem ethernetTx_noHeadroom {dev : Device} {b : NetBuffer} (h : b.offset < ethHeaderSize)
    (dest : MacAddress) (ethertype : ℕ) : (ethernetTx dev b dest ethertype).2.2 = [] := by
  unfold ethernetTx
  split_ifs <;> rfl

/-- The IP header takes all the headroom there is. -/
theorem ipTx_frames {h : Host} {dev : Device} {b : NetBuffer} (hb : b.offset = ipHeaderMinSize)
    (dest : Ipv4Address) (protocol : UInt8) : (ipTx h dev b dest protocol).2.2 = [] := by
  have hpush : b.push ipHeaderMinSize =
    some { b with offset := 0, len := b.len + ipHeaderMinSize } := by
    simp [NetBuffer.push, hb]
  unfold ipTx
  rw [hpush]
  dsimp only
  generalize (if ipIsOnLocalSubnet h dest then dest else h.defaultGateway) = nextHop
  split
  · rfl
  · apply ethernetTx_noHeadroom
    simp [NetBuffer.write, ethHeaderSize]

/-! ## The receiver -/

theorem protocolHandlers_ip : protocolHandlers (ethTypeIp / 256) = some .arp := by decide

/-- A frame with the EtherType of IP never reaches IP. -/
theorem ethernetRx_ip {result : Delivery → Int} {h : Host} {b : NetBuffer}
    (htype : (b.byte 12).toNat * 256 + (b.byte 13).toNat = ethTypeIp) :
    (ethernetRx result h b).2 = [] := by
  unfold ethernetRx
  split_ifs with hlen
  · rfl
  · dsimp only
    rw [htype, protocolHandlers_ip]
    split_ifs <;> rfl

/-! ## The IP layer alone -/

structure HoldsPacket (b : NetBuffer) (sender : Host) (dest : Ipv4Address) (protocol : UInt8)
    (payload : List UInt8) : Prop where
  len : b.len = ipHeaderMinSize + payload.length
  bytes : b.bytes = ipHeaderSummed sender b.len dest protocol ++ payload

section Packet

variable {b : NetBuffer} {sender : Host} {dest : Ipv4Address} {protocol : UInt8}
  {payload : List UInt8} {i : ℕ}

theorem NetBuffer.bytes_getElem? (h : i < b.len) : b.bytes[i]? = some (b.byte i) :=
  getElem?_loadBytes h

theorem length_ipHeader (h : Host) (len : ℕ) (dest : Ipv4Address) (protocol : UInt8)
    (checksum : ℕ) : (ipHeader h len dest protocol checksum).length = ipHeaderMinSize := rfl

/-- What `ip_tx` makes of a payload with room before it. -/
theorem holdsPacket_encoded {b' : NetBuffer} (hpayload : b.bytes = payload)
    (hpush : b.push ipHeaderMinSize = some b') :
    HoldsPacket (b'.write (ipHeaderSummed sender b'.len dest protocol)) sender dest protocol
      payload := by
  unfold NetBuffer.push at hpush
  split_ifs at hpush with hroom
  cases hpush
  have hlen : payload.length = b.len := by simp [← hpayload, NetBuffer.bytes]
  have hoff : b.offset - ipHeaderMinSize + ipHeaderMinSize = b.offset := by omega
  refine ⟨by simp [NetBuffer.write, hlen, Nat.add_comm], ?_⟩
  simp only [NetBuffer.bytes, NetBuffer.write, Nat.add_comm b.len ipHeaderMinSize, loadBytes_add]
  congr 1
  · exact loadBytes_storeBytes _ _ (ipHeaderSummed sender (ipHeaderMinSize + b.len) dest protocol)
  · rw [loadBytes_storeBytes_of_out (Or.inr (by rw [hoff]; exact hoff.le)), hoff]
    exact hpayload

theorem NetBuffer.byte_cleared (b : NetBuffer) (i : ℕ) :
    storeBytes b.memory (b.offset + 10) [0, 0] (b.offset + i) =
      if i = 10 ∨ i = 11 then 0 else b.byte i := by
  split_ifs with hsum
  · rcases hsum with rfl | rfl <;> simp [storeBytes]
  · rw [storeBytes_of_out (by simp; omega)]
    rfl

/-- The header without options, with its checksum cleared. -/
theorem NetBuffer.cleared_of_bytes {header : List UInt8} (hlen : header.length = 20)
    (hbyte : ∀ i < 20, b.byte i = header.getD i 0) :
    loadBytes (storeBytes b.memory (b.offset + 10) [0, 0]) b.offset 20 =
      (header.set 10 0).set 11 0 := by
  apply ext_getElem (by simp [hlen])
  intro i hi hi'
  have hlt : i < header.length := by simpa using hi'
  simp only [loadBytes, getElem_map, getElem_range, b.byte_cleared, hbyte i (hlen ▸ hlt)]
  simp only [getElem_set, getD_eq_getElem?_getD, getElem?_eq_getElem hlt, Option.getD_some]
  split_ifs <;> first | rfl | omega

section

variable (h : HoldsPacket b sender dest protocol payload)
include h

theorem HoldsPacket.byte (hi : i < ipHeaderMinSize) :
    b.byte i = (ipHeaderSummed sender b.len dest protocol).getD i 0 := by
  have hlen : i < (ipHeaderSummed sender b.len dest protocol).length := hi
  have hget : b.bytes[i]? = some (b.byte i) := b.bytes_getElem? (by rw [h.len]; omega)
  rw [h.bytes, getElem?_append_left hlen] at hget
  rw [List.getD, hget]
  rfl

/-- The header with its checksum cleared is what the checksum is of. -/
theorem HoldsPacket.cleared : loadBytes (storeBytes b.memory (b.offset + 10) [0, 0]) b.offset 20 =
      ipHeader sender b.len dest protocol 0 := by
  rw [NetBuffer.cleared_of_bytes (length_ipHeader ..) (fun i hi => h.byte hi)]
  rfl

theorem HoldsPacket.behind :
    (b.pull 20).getD b = { b with offset := b.offset + 20, len := payload.length } ∧
      NetBuffer.bytes { b with offset := b.offset + 20, len := payload.length } = payload := by
  have hlen : b.len = 20 + payload.length := h.len
  constructor
  · simp [NetBuffer.pull, hlen]
  · have hbytes := h.bytes
    rw [NetBuffer.bytes, hlen, loadBytes_add] at hbytes
    exact (append_inj hbytes (by simp [ipHeaderSummed, length_ipHeader, ipHeaderMinSize])).2

theorem HoldsPacket.checksum : (b.byte 10).toNat + 256 * (b.byte 11).toNat =
      ipChecksum (ipHeader sender b.len dest protocol 0) := by
  have hlt : ipChecksum (ipHeader sender b.len dest protocol 0) < 65536 := by
    unfold ipChecksum
    omega
  have h10 : b.byte 10 = UInt8.ofNat (ipChecksum (ipHeader sender b.len dest protocol 0)) :=
    h.byte (by decide)
  have h11 : b.byte 11 = UInt8.ofNat (ipChecksum (ipHeader sender b.len dest protocol 0) / 256) :=
    h.byte (by decide)
  rw [h10, h11]
  simp only [UInt8.toNat_ofNat']
  omega

end

/-- `ip_rx` on a packet of `ip_tx` for the receiver's address calls the handler of the protocol
once, with the payload. -/
theorem ipRx_packet {receiver : Host} {handler : ℕ}
    (h : HoldsPacket b sender dest protocol payload) (hlen : payload.length ≤ 65515)
    (hdest : dest = receiver.localIp)
    (hhandler : ipFindProtocolHandler receiver protocol = some handler) :
    (ipRx result receiver b).2 = [⟨handler, payload, sender.localIp, dest⟩] := by
  have h0 : b.byte 0 = 0x45 := h.byte (by decide)
  have h2 : b.byte 2 = UInt8.ofNat (b.len / 256) := h.byte (by decide)
  have h3 : b.byte 3 = UInt8.ofNat b.len := h.byte (by decide)
  have h6 : b.byte 6 = 0x40 := h.byte (by decide)
  have h7 : b.byte 7 = 0 := h.byte (by decide)
  have h9 : b.byte 9 = protocol := h.byte (by decide)
  have hsrc : (⟨b.byte 12, b.byte 13, b.byte 14, b.byte 15⟩ : Ipv4Address) = sender.localIp := by
    rw [h.byte (by decide), h.byte (by decide), h.byte (by decide), h.byte (by decide)]
    rfl
  have hdst : (⟨b.byte 16, b.byte 17, b.byte 18, b.byte 19⟩ : Ipv4Address) = dest := by
    rw [h.byte (by decide), h.byte (by decide), h.byte (by decide), h.byte (by decide)]
    rfl
  have htotal : (b.byte 2).toNat * 256 + (b.byte 3).toNat = b.len := by
    have hb := h.len
    rw [ipHeaderMinSize] at hb
    rw [h2, h3]
    simp only [UInt8.toNat_ofNat']
    omega
  have hmin : ¬ b.len < ipHeaderMinSize := by
    have hb := h.len
    omega
  have hver : ¬ (0x45 : UInt8).toNat / 16 ≠ 4 := by decide
  have hihl : (0x45 : UInt8).toNat % 16 = 5 := by decide
  have hfrag : ¬ (((0x40 : UInt8).toNat * 256 + (0 : UInt8).toNat) % 8192 ≠ 0 ∨
      ((0x40 : UInt8).toNat * 256 + (0 : UInt8).toNat) / 8192 &&& 4 ≠ 0) := by decide
  have hlocal : ipIsLocalAddress receiver dest = true := by simp [ipIsLocalAddress, hdest]
  unfold ipRx
  rw [if_neg hmin, h0, if_neg hver]
  simp only [hihl, Nat.reduceMul, if_false, h.checksum, h.cleared, htotal,
    lt_irrefl, ne_eq, not_true_eq_false, h6, h7, h9, hsrc, hdst, hlocal, false_and, hhandler,
    h.behind.1, h.behind.2]
  rw [if_neg (by unfold ipHeaderMinSize at hmin; omega), if_neg hfrag]

/-- With headroom `ethernet_tx` gives the device one frame, which ends in the contents of the
buffer. -/
theorem ethernetTx_frame {dev : Device} {transmit : List UInt8 → Int} (hup : dev.up = true)
    (htransmit : dev.transmit = some transmit) (hroom : ethHeaderSize ≤ b.offset)
    (mac : MacAddress) (ethertype : ℕ) : ∃ header, header.length = ethHeaderSize ∧
      (ethernetTx dev b mac ethertype).2 = (transmit (header ++ b.bytes), [header ++ b.bytes]) := by
  have hoff : b.offset - ethHeaderSize + ethHeaderSize = b.offset := by omega
  simp only [ethernetTx, hup, Bool.true_eq_false, if_false, NetBuffer.push, if_neg hroom.not_gt,
    htransmit]
  refine ⟨MacAddress.bytes mac ++ MacAddress.bytes dev.mac ++
    [UInt8.ofNat (ethertype / 256), UInt8.ofNat ethertype], rfl, ?_⟩
  generalize hheader : MacAddress.bytes mac ++ MacAddress.bytes dev.mac ++ _ = header
  have hlen : header.length = ethHeaderSize := by rw [← hheader]; rfl
  simp only [NetBuffer.bytes, NetBuffer.write, Nat.add_comm b.len, loadBytes_add]
  rw [← hlen, loadBytes_storeBytes, hlen, loadBytes_storeBytes_of_out (by omega), hoff]

/-- On a buffer with room for both headers `ip_tx` gives the device one frame. A receiver that has
what is behind its Ethernet header in a buffer calls the handler of the protocol once, with the
payload and the addresses. -/
theorem ipTx_frame_delivered {receiver : Host} {dev : Device} {transmit : List UInt8 → Int}
    {handler : ℕ} (hroom : ethHeaderSize + ipHeaderMinSize ≤ b.offset) (hlen : b.len ≤ 65515)
    (hup : dev.up = true) (htransmit : dev.transmit = some transmit)
    (hroute : ipIsOnLocalSubnet sender dest ∨ ¬ ipAddrIsAny sender.defaultGateway)
    (hdest : dest = receiver.localIp)
    (hhandler : ipFindProtocolHandler receiver protocol = some handler) :
    ∃ frame, (ipTx sender dev b dest protocol).2 = (transmit frame, [frame]) ∧
      ∀ p : NetBuffer, p.bytes = frame.drop ethHeaderSize →
        (ipRx result receiver p).2 = [⟨handler, b.bytes, sender.localIp, dest⟩] := by
  obtain ⟨b', hpush⟩ : ∃ b', b.push ipHeaderMinSize = some b' := ⟨_, if_neg (by omega)⟩
  have hpacket : HoldsPacket (b'.write (ipHeaderSummed sender b'.len dest protocol)) sender dest
      protocol b.bytes := holdsPacket_encoded rfl hpush
  have hroom' : ethHeaderSize ≤ b'.offset := by
    rw [NetBuffer.push, if_neg (by omega)] at hpush
    cases hpush
    exact Nat.le_sub_of_add_le hroom
  generalize hw : b'.write (ipHeaderSummed sender b'.len dest protocol) = w at hpacket
  have hhop : ¬ (¬ ipIsOnLocalSubnet sender dest ∧ ipAddrIsAny
      (if ipIsOnLocalSubnet sender dest then dest else sender.defaultGateway)) := by
    rintro ⟨hfar, hany⟩
    rw [if_neg hfar] at hany
    exact hroute.elim hfar (· hany)
  simp only [ipTx, hpush, if_neg hhop, hw]
  obtain ⟨header, hheader, htx⟩ := ethernetTx_frame hup htransmit (b := w) (hw ▸ hroom')
    ⟨0x12, 0x34, 0x56, 0x78, 0x9A, 0xBC⟩ ethTypeIp
  refine ⟨_, htx, fun p hbytes => ?_⟩
  rw [← hheader, drop_left] at hbytes
  have hplen : p.len = w.len := by simpa [NetBuffer.bytes] using congrArg length hbytes
  exact ipRx_packet result ⟨hplen.trans hpacket.len, by rw [hbytes, hplen, hpacket.bytes]⟩
    (by simpa [NetBuffer.bytes] using hlen) hdest hhandler

/-- Three bytes with 34 bytes of room before them, from a host to itself. -/
theorem three_bytes_delivered :
    let host : Host := ⟨⟨10, 0, 0, 1⟩, ⟨255, 255, 255, 0⟩, ipAddrAny, [(17, 1)]⟩
    ∃ frame, (ipTx host ⟨true, ⟨2, 0, 0, 0, 0, 1⟩, some fun _ => 0⟩ ⟨UInt8.ofNat, 64, 34, 3⟩
        host.localIp 17).2 = (0, [frame]) ∧
      ∀ p : NetBuffer, p.bytes = frame.drop ethHeaderSize →
        (ipRx (fun _ => 0) host p).2 = [⟨1, [34, 35, 36], host.localIp, host.localIp⟩] :=
  ipTx_frame_delivered _ (by decide) (by decide) rfl rfl (.inl (by decide)) rfl (by decide)

end Packet

/-- No packet sent on a buffer from `ip_alloc_packet` is delivered: the sender transmits no frame;
and a receiver that is given a frame with an IP packet by other means delivers nothing either. -/
theorem packets_never_delivered (heap heap' : ℕ → UInt8) (result : Delivery → Int)
    (sender receiver : Host) (dev : Device) (dest : Ipv4Address) (protocol : UInt8)
    (payload : List UInt8) :
    ¬ Delivered heap heap' result sender receiver dev dest protocol payload ∧
      ∀ b : NetBuffer, (b.byte 12).toNat * 256 + (b.byte 13).toNat = ethTypeIp →
        (ethernetRx result receiver b).2 = [] := by
  refine ⟨?_, fun b hb => ethernetRx_ip hb⟩
  rintro ⟨handler, -, hone⟩
  rw [deliveries, ipAllocPacket_eq] at hone
  dsimp only at hone
  rw [ipTx_frames rfl] at hone
  cases hone

/-- A host with a handler for protocol 17 sends three bytes to itself, over a device that is up:
`ip_tx` returns `NET_ERR_NOMEM` and nothing arrives. -/
theorem udp_packet_lost : ∃ b, ipAllocPacket (fun _ => 0) 3 = some b ∧
      (ipTx ⟨⟨10, 0, 0, 1⟩, ⟨255, 255, 255, 0⟩, ipAddrAny, [(17, 1)]⟩
        ⟨true, ⟨2, 0, 0, 0, 0, 1⟩, some fun _ => 0⟩ (b.fill [1, 2, 3])
          ⟨10, 0, 0, 1⟩ 17).2 = (-2, []) ∧
      deliveries (fun _ => 0) (fun _ => 0) (fun _ => 0)
        ⟨⟨10, 0, 0, 1⟩, ⟨255, 255, 255, 0⟩, ipAddrAny, [(17, 1)]⟩
        ⟨⟨10, 0, 0, 1⟩, ⟨255, 255, 255, 0⟩, ipAddrAny, [(17, 1)]⟩
        ⟨true, ⟨2, 0, 0, 0, 0, 1⟩, some fun _ => 0⟩ ⟨10, 0, 0, 1⟩ 17 [1, 2, 3] = [] := by
  refine ⟨_, ipAllocPacket_eq _ 3, ?_, ?_⟩ <;> decide

end UintOS.Link
