import UintOS.Library.RingBuffer
import UintOS.Library.Runs
import UintOS.Network.Link

/-!
# TCP sockets

A model of `tcp.c`: the socket table, the table of `TIME_WAIT` timers, the functions that serve a
received segment, the socket calls and the timer. A socket is its slot in the table; a listener is
kept in the one socket that points to it.

What a call finds outside (memory, packet buffers, the result of `ip_tx`, the default device, the
clock) is an argument. Callbacks are not registered. The header does not declare the field
`retransmit.timer` that `tcp_timer` counts down; it is a field here, which only `tcp_timer` sets.
-/

namespace UintOS.Tcp

open Network Link

/-! ## Sockets -/

inductive TcpState
  | closed
  | listen
  | synSent
  | synReceived
  | established
  | finWait1
  | finWait2
  | closing
  | timeWait
  | closeWait
  | lastAck
deriving DecidableEq, Repr

/-- A pointer into `tcp_sockets`, of `TCP_MAX_SOCKETS` entries. -/
abbrev Slot := Fin 16

/-- `tcp_connection_t` with the fields of `tcp_retransmit_t` that are used. -/
structure Connection where
  sndUna : UInt32
  sndNxt : UInt32
  sndWnd : UInt32
  rcvNxt : UInt32
  rcvWnd : UInt32
  mss : UInt16
  rto : UInt32
  attempts : UInt8
  timer : Int32

structure Listener where
  backlog : UInt16
  pendingCount : UInt16
  pendingConnections : Option Slot
deriving DecidableEq, Repr

/-- `tcp_buffer_t`: whether `data` points to memory, and the memory with the other fields. -/
structure RxBuffer where
  allocated : Bool
  ring : RingBuffer UInt8

structure Socket where
  state : TcpState
  localPort : UInt16
  remotePort : UInt16
  localAddr : Ipv4Address
  remoteAddr : Ipv4Address
  conn : Connection
  listener : Option Listener
  next : Option Slot
  rxBuffer : RxBuffer

def Socket.zero : Socket where
  state := .closed
  localPort := 0
  remotePort := 0
  localAddr := ipAddrAny
  remoteAddr := ipAddrAny
  conn := ⟨0, 0, 0, 0, 0, 0, 0, 0, 0⟩
  listener := none
  next := none
  rxBuffer := ⟨false, ⟨fun _ => 0, 0, 0, 0, 0⟩⟩

structure TimeWait where
  startTime : UInt32
  duration : UInt32
  socket : Option Slot
deriving DecidableEq, Repr

abbrev Sockets := Slot → Socket

structure State where
  sockets : Sockets
  timeWait : Fin 32 → TimeWait
  lastDynamicPort : UInt16

def init : State := ⟨fun _ => Socket.zero, fun _ => ⟨0, 0, none⟩, dynamicPortStart⟩

/-- `tcp_initial_seq` as `tcp_init` sets it. -/
def tcpInitialSeq : UInt32 := 0x01020304

def tcpMsl : UInt32 := 120000

def tcpRetransmitTimeout : UInt32 := 500

def tcpMaxRetransmits : UInt8 := 5

def tcpDefaultBufferSize : ℕ := 8192

def tcpDefaultWindow : UInt32 := 4096

def tcpDefaultMss : UInt16 := 536

def tcpHeaderSize : ℕ := 20

def tcpFlagFin : UInt8 := 0x01

def tcpFlagSyn : UInt8 := 0x02

def tcpFlagRst : UInt8 := 0x04

def tcpFlagPsh : UInt8 := 0x08

def tcpFlagAck : UInt8 := 0x10

/-- What `ip_alloc_packet` and `ip_tx` do with one segment. -/
structure Transmit where
  allocated : Bool
  ipTx : List UInt8 → Int

/-- What a call finds outside: the block `malloc` returns for a receive buffer, whether it returns
one for a listener, the address of the default device, the clock, and what happens to its segments.
-/
structure Outside where
  block : Option (ℕ → UInt8)
  listener : Bool
  device : Option Ipv4Address
  now : UInt32
  send : ℕ → Transmit

variable (s : State) (i : Slot) (c : Socket)

def setSocket : State :=
  { s with sockets := Function.update s.sockets i c }

variable (t : Sockets)

def firstClosed : Option Slot := Fin.find? fun i => (t i).state = .closed

/-! ## Receive buffers -/

def bufferInit (size : ℕ) (block : Option (ℕ → UInt8)) : Socket × Int :=
  match block with
  | none => ({ c with rxBuffer := { c.rxBuffer with allocated := false } }, -1)
  | some cells => ({ c with rxBuffer := ⟨true, ⟨cells, size, 0, 0, 0⟩⟩ }, 0)

variable (b : RxBuffer)

def bufferWrite (data : List UInt8) : RxBuffer × Int :=
  if b.allocated = false then (b, -1)
  else if b.ring.size < (b.ring.count + data.length) % 4294967296 then (b, -1)
  else ({ b with ring := b.ring.write data }, data.length)

/-- `tcp_buffer_read`: the buffer, the result, and the bytes copied. -/
def bufferRead (len : ℕ) : RxBuffer × Int × List UInt8 :=
  if b.allocated = false then (b, -1, [])
  else
    let readLen := if b.ring.count < len then b.ring.count else len
    if readLen = 0 then (b, 0, [])
    else ({ b with ring := (b.ring.read readLen).2 }, readLen, (b.ring.read readLen).1)

/-- `tcp_buffer_peek`: the result, and the bytes copied. -/
def bufferPeek (len : ℕ) : Int × List UInt8 :=
  if b.allocated = false then (-1, [])
  else
    let readLen := if b.ring.count < len then b.ring.count else len
    if readLen = 0 then (0, []) else (readLen, (RingBuffer.fetch readLen b.ring).1)

/-! ## Segments -/

/-- A received buffer with the addresses in `protocol_data`. -/
structure Packet where
  bytes : List UInt8
  src : Ipv4Address
  dest : Ipv4Address
deriving DecidableEq, Repr

/-- What `tcp_rx` reads from a packet. -/
structure Segment where
  src : Ipv4Address
  dest : Ipv4Address
  srcPort : UInt16
  destPort : UInt16
  seqNum : UInt32
  ackNum : UInt32
  flags : UInt8
  window : UInt16
  data : List UInt8
deriving DecidableEq, Repr

variable (seg : Segment)

def Segment.has (flag : UInt8) : Prop := seg.flags &&& flag ≠ 0

instance (flag : UInt8) : Decidable (seg.has flag) :=
  inferInstanceAs (Decidable (seg.flags &&& flag ≠ 0))

def pseudoHeader (src dest : Ipv4Address) (dataLen : ℕ) : List UInt8 :=
  addressBytes src ++ addressBytes dest ++ [0, 6] ++ bytes16 (tcpHeaderSize + dataLen)

/-- `tcp_checksum`; of the header only `TCP_HEADER_SIZE` bytes are summed. -/
def tcpChecksum (header data : List UInt8) (src dest : Ipv4Address) : ℕ :=
  65535 - addCarries 2
    ((wordSum (pseudoHeader src dest data.length) + wordSum (header.take tcpHeaderSize) +
      wordSum data) % 4294967296)

def clearChecksum (bytes : List UInt8) : List UInt8 := bytes.take 16 ++ [0, 0] ++ bytes.drop 18

/-- The checks of `tcp_rx` on a packet and the fields it reads. -/
def parse (p : Packet) : Option Segment :=
  if p.bytes.length < tcpHeaderSize then none
  else
    let hdrSize := (byteAt p.bytes 12).toNat / 16 * 4
    if hdrSize < tcpHeaderSize ∨ p.bytes.length < hdrSize then none
    else
      let checksum := (byteAt p.bytes 16).toNat + 256 * (byteAt p.bytes 17).toNat
      let data := p.bytes.drop hdrSize
      if checksum ≠ tcpChecksum (clearChecksum p.bytes) data p.src p.dest then none
      else
        some {
          src := p.src
          dest := p.dest
          srcPort := read16 p.bytes 0
          destPort := read16 p.bytes 2
          seqNum := read32 p.bytes 4
          ackNum := read32 p.bytes 8
          flags := byteAt p.bytes 13
          window := read16 p.bytes 14
          data := data }

/-- The header `tcp_send_segment` fills in. -/
def segmentHeader (flags : UInt8) (checksum : ℕ) : List UInt8 :=
  bytes16 c.localPort.toNat ++ bytes16 c.remotePort.toNat ++ bytes32 c.conn.sndNxt.toNat ++
    bytes32 (if flags &&& tcpFlagAck ≠ 0 then c.conn.rcvNxt.toNat else 0) ++ [0x50, flags] ++
    bytes16 c.conn.rcvWnd.toNat ++ [UInt8.ofNat checksum, UInt8.ofNat (checksum / 256), 0, 0]

/-- The bytes `tcp_send_segment` gives to `ip_tx`. -/
def segmentBytes (flags : UInt8) (data : List UInt8) : List UInt8 :=
  segmentHeader c flags
    (tcpChecksum (segmentHeader c flags 0) data c.localAddr c.remoteAddr) ++ data

def consumed (flags : UInt8) (data : List UInt8) : UInt32 :=
  if 0 < data.length ∨ flags &&& (tcpFlagSyn ||| tcpFlagFin) ≠ 0 then
    UInt32.ofNat data.length + (if flags &&& tcpFlagSyn ≠ 0 then 1 else 0) +
      (if flags &&& tcpFlagFin ≠ 0 then 1 else 0)
  else 0

def sendSegment (w : Transmit) (c : Socket) (flags : UInt8) (data : List UInt8) : Socket × Int :=
  if w.allocated = false then (c, -1)
  else
    ({ c with conn.sndNxt := c.conn.sndNxt + consumed flags data },
      w.ipTx (segmentBytes c flags data))

/-! ## Lookups -/

/-- The test `tcp_find_socket` makes on a socket. -/
def eligible (localPort : UInt16) (localAddr : Ipv4Address) (remotePort : UInt16)
    (remoteAddr : Ipv4Address) : Bool :=
  match c.state with
  | .closed => false
  | .listen =>
    c.localPort = localPort && (ipAddrIsAny c.localAddr || ipAddrCmp c.localAddr localAddr)
  | _ =>
    c.localPort = localPort && c.remotePort = remotePort && ipAddrCmp c.localAddr localAddr &&
      ipAddrCmp c.remoteAddr remoteAddr

def findSocket (localPort : UInt16) (localAddr : Ipv4Address) (remotePort : UInt16)
    (remoteAddr : Ipv4Address) : Option Slot :=
  Fin.find? fun i => eligible (t i) localPort localAddr remotePort remoteAddr

def Segment.target : Option Slot :=
  findSocket t seg.destPort seg.dest seg.srcPort seg.src

def onPort (port : UInt16) (i : Slot) : Bool :=
  (t i).state ≠ .closed ∧ (t i).localPort = port

/-- The port `tcp_get_free_port` returns. -/
def freePort : UInt16 :=
  ((Network.getFreePort (fun port => decide (∃ i, onPort s.sockets port i)) s.lastDynamicPort).get
    (Network.getFreePort_isSome _ _)).1

/-- `tcp_get_free_port`: the port, and the state with the last port advanced. -/
def getFreePort : UInt16 × State :=
  (freePort s, { s with lastDynamicPort := nextDynamicPort s.lastDynamicPort })

/-- `port_in_use`: another socket has the port and passes the address test. -/
def portInUse (i : Slot) (port : UInt16) (sameAddr : Ipv4Address → Bool) : Bool :=
  decide (∃ j, j ≠ i ∧ onPort t port j ∧ sameAddr (t j).localAddr)

/-! ## Received segments -/

def startTimeWait (now : UInt32) : State :=
  match Fin.find? fun k => (s.timeWait k).socket = none with
  | none => setSocket s i { s.sockets i with state := .closed }
  | some k => { s with timeWait := Function.update s.timeWait k ⟨now, 2 * tcpMsl, some i⟩ }

/-- The socket `tcp_process_syn` sets up for a connection request. -/
def synSocket : Socket :=
  { Socket.zero with
    state := .synReceived
    localPort := seg.destPort
    remotePort := seg.srcPort
    localAddr := seg.dest
    remoteAddr := seg.src
    conn := {
      sndUna := tcpInitialSeq
      sndNxt := tcpInitialSeq
      sndWnd := seg.window.toUInt32
      rcvNxt := seg.seqNum + 1
      rcvWnd := tcpDefaultWindow
      mss := tcpDefaultMss
      rto := tcpRetransmitTimeout
      attempts := 0
      timer := 0 } }

/-- `tcp_process_syn`; without memory the new socket stays `SYN_RECEIVED`. -/
def processSyn (l : Slot) (seg : Segment) (out : Outside) : State × Int :=
  if (s.sockets l).state ≠ .listen then (s, -1)
  else
    match (s.sockets l).listener with
    | none => (s, -1) -- a listening socket has a listener
    | some q =>
      if q.backlog ≤ q.pendingCount then (s, -1)
      else
        match firstClosed s.sockets with
        | none => (s, -1)
        | some j =>
          let r := bufferInit (synSocket seg) tcpDefaultBufferSize out.block
          if r.2 ≠ 0 then (setSocket s j r.1, -1)
          else
            let s := setSocket s l { s.sockets l with
              listener := some ⟨q.backlog, q.pendingCount + 1, some j⟩ }
            let r := sendSegment (out.send 0) { r.1 with next := q.pendingConnections }
              (tcpFlagSyn ||| tcpFlagAck) []
            (setSocket s j r.1, r.2)

def processAck (ackNum : UInt32) (window : UInt16) (out : Outside) : State × Int :=
  let c := { s.sockets i with conn.sndWnd := window.toUInt32 }
  if ackNum ≤ c.conn.sndUna ∨ c.conn.sndNxt < ackNum then (setSocket s i c, 0)
  else
    let c := { c with conn.sndUna := ackNum }
    match c.state with
    | .synSent =>
      (setSocket s i (sendSegment (out.send 0) { c with state := .closed } tcpFlagRst []).1, -1)
    | .synReceived => (setSocket s i { c with state := .established }, 0)
    | .finWait1 => (setSocket s i { c with state := .finWait2 }, 0)
    | .closing => (startTimeWait (setSocket s i { c with state := .timeWait }) i out.now, 0)
    | .lastAck => (setSocket s i { c with state := .closed }, 0)
    | _ => (setSocket s i c, 0)

def processData (data : List UInt8) (seqNum : UInt32) (out : Outside) : State × Int :=
  let c := s.sockets i
  if seqNum ≠ c.conn.rcvNxt then
    (setSocket s i (sendSegment (out.send 1) c tcpFlagAck []).1, -1)
  else
    let c := { c with conn.rcvNxt := c.conn.rcvNxt + UInt32.ofNat data.length }
    let r := bufferWrite c.rxBuffer data
    let c := { c with rxBuffer := r.1 }
    if r.2 ≠ data.length then (setSocket s i c, -1)
    else (setSocket s i (sendSegment (out.send 1) c tcpFlagAck []).1, 0)

def processFin (seqNum : UInt32) (out : Outside) : State × Int :=
  let c := { s.sockets i with conn.rcvNxt := seqNum + 1 }
  let ack := fun c : Socket => (sendSegment (out.send 2) c tcpFlagAck []).1
  match c.state with
  | .established => (setSocket s i (ack { c with state := .closeWait }), 0)
  | .finWait1 => (setSocket s i (ack { c with state := .closing }), 0)
  | .finWait2 =>
    (startTimeWait (setSocket s i (ack { c with state := .timeWait })) i out.now, 0)
  | _ => (setSocket s i (ack c), -1)

/-- `tcp_rx` on a segment with `SYN`. -/
def rxSyn (out : Outside) : State × Int :=
  match seg.target s.sockets with
  | none => (s, -1)
  | some i =>
    let c := s.sockets i
    if seg.has tcpFlagAck ∧ c.state = .synSent then
      if seg.ackNum ≠ c.conn.sndNxt then (s, -1)
      else
        let c := { c with
          state := .established
          conn := { c.conn with
            sndUna := seg.ackNum
            rcvNxt := seg.seqNum + 1
            sndWnd := seg.window.toUInt32 } }
        (setSocket s i (sendSegment (out.send 0) c tcpFlagAck []).1, 0)
    else if c.state = .listen then processSyn s i seg out
    else (s, -1)

/-- The part of `tcp_rx` for the acknowledgement of a segment. -/
def rxAck (out : Outside) : State :=
  if seg.has tcpFlagAck then (processAck s i seg.ackNum seg.window out).1 else s

/-- The part of `tcp_rx` for the data of a segment. -/
def rxData (out : Outside) : State :=
  if 0 < seg.data.length then (processData s i seg.data seg.seqNum out).1 else s

/-- The part of `tcp_rx` for the end of the stream. -/
def rxFin (out : Outside) : State :=
  if seg.has tcpFlagFin then
    (processFin s i (seg.seqNum + UInt32.ofNat seg.data.length) out).1
  else s

/-- `tcp_rx` after the checks on the packet. -/
def rxSegment (out : Outside) : State × Int :=
  if seg.has tcpFlagRst then
    match seg.target s.sockets with
    | none => (s, 0)
    | some i => (setSocket s i { s.sockets i with state := .closed }, 0)
  else if seg.has tcpFlagSyn then rxSyn s seg out
  else
    match seg.target s.sockets with
    | none => (s, -1)
    | some i => (rxFin (rxData (rxAck s i seg out) i seg out) i seg out, 0)

def rx (buffer : Option Packet) (out : Outside) : State × Int :=
  match buffer.bind parse with
  | none => (s, -1)
  | some seg => rxSegment s seg out

/-! ## Socket calls -/

/-- The end of `tcp_socket_create`, after the port was chosen. -/
def finishCreate (out : Outside) : State × Option Slot :=
  let r := bufferInit { c with conn.rcvWnd := tcpDefaultWindow, conn.mss := tcpDefaultMss }
    tcpDefaultBufferSize out.block
  (setSocket s i r.1, if r.2 ≠ 0 then none else some i)

/-- `tcp_socket_create`; a missing address is the null pointer. -/
def socketCreate (localAddr : Option Ipv4Address) (localPort : UInt16)
    (out : Outside) : State × Option Slot :=
  match firstClosed s.sockets with
  | none => (s, none)
  | some i =>
    let addr := localAddr.getD ipAddrAny
    let c := { Socket.zero with localAddr := addr }
    let s := setSocket s i c
    if 0 < localPort then
      if portInUse s.sockets i localPort fun other =>
          ipAddrIsAny other || ipAddrIsAny addr || ipAddrCmp other addr then (s, none)
      else finishCreate s i { c with localPort := localPort } out
    else
      let (port, s) := getFreePort s
      let c := { c with localPort := port }
      if port = 0 then (setSocket s i c, none) else finishCreate s i c out

/-- The end of `tcp_socket_bind`: set the address if one is given. -/
def setAddr (port : UInt16) (addr : Option Ipv4Address) : State :=
  setSocket s i { s.sockets i with
    localPort := port
    localAddr := addr.getD (s.sockets i).localAddr }

variable (socket : Option Slot) (addr : Option Ipv4Address)

def socketBind (port : UInt16) : State × Int :=
  match socket with
  | none => (s, -1)
  | some i =>
    if (s.sockets i).state ≠ .closed then (s, -1)
    else if 0 < port then
      if portInUse s.sockets i port fun other =>
          addr.isNone || ipAddrIsAny other || addr.any (ipAddrCmp · other) then (s, -1)
      else (setAddr s i port addr, 0)
    else if (s.sockets i).localPort = 0 then
      let (p, s) := getFreePort s
      if p = 0 then (s, -1) else (setAddr s i p addr, 0)
    else (setAddr s i (s.sockets i).localPort addr, 0)

def socketListen (backlog : UInt16) (out : Outside) : State × Int :=
  match socket with
  | none => (s, -1)
  | some i =>
    if (s.sockets i).state ≠ .closed then (s, -1)
    else if out.listener = false then (s, -1)
    else
      (setSocket s i { s.sockets i with
        state := .listen
        listener := some ⟨if 0 < backlog then backlog else 1, 0, none⟩ }, 0)

def socketAccept : State × Option Slot :=
  match socket with
  | none => (s, none)
  | some i =>
    if (s.sockets i).state ≠ .listen then (s, none)
    else
      match (s.sockets i).listener with
      | none => (s, none)
      | some q =>
        match q.pendingConnections with
        | none => (s, none)
        | some j =>
          let s := setSocket s i { s.sockets i with
            listener := some ⟨q.backlog, q.pendingCount - 1, (s.sockets j).next⟩ }
          let c : Socket := { s.sockets j with next := none }
          let c := if c.state = .synReceived then { c with state := .established } else c
          (setSocket s j c, some j)

/-- The end of `tcp_socket_connect`, after the local address and port were chosen. -/
def startConnect (out : Outside) : State × Int :=
  let c := { c with
    state := .synSent
    conn := { c.conn with
      sndUna := tcpInitialSeq
      sndNxt := tcpInitialSeq
      rcvNxt := 0
      rto := tcpRetransmitTimeout
      attempts := 0 } }
  let r := bufferInit c tcpDefaultBufferSize out.block
  if r.2 ≠ 0 then (setSocket s i r.1, -1)
  else
    let r := sendSegment (out.send 0) r.1 tcpFlagSyn []
    (setSocket s i r.1, r.2)

def socketConnect (port : UInt16) (out : Outside) : State × Int :=
  match socket, addr with
  | some i, some addr =>
    if (s.sockets i).state ≠ .closed then (s, -1)
    else
      let c := { s.sockets i with
        remoteAddr := addr
        remotePort := port }
      match if ipAddrIsAny c.localAddr then out.device else some c.localAddr with
      | none => (setSocket s i c, -1)
      | some localAddr =>
        let c := { c with localAddr := localAddr }
        if c.localPort = 0 then
          let (p, s) := getFreePort (setSocket s i c)
          let c := { c with localPort := p }
          if p = 0 then (setSocket s i c, -1) else startConnect s i c out
        else startConnect s i c out
  | _, _ => (s, -1)

/-- The `FIN` that `tcp_socket_close` sends. -/
def closeWith (state : TcpState) (out : Outside) : State × Int :=
  let r := sendSegment (out.send 0) { s.sockets i with state := state }
    (tcpFlagFin ||| tcpFlagAck) []
  (setSocket s i r.1, r.2)

def socketClose (out : Outside) : State × Int :=
  match socket with
  | none => (s, -1)
  | some i =>
    match (s.sockets i).state with
    | .closed => (s, 0)
    | .listen =>
      (setSocket s i { s.sockets i with
        listener := none
        state := .closed }, 0)
    | .synSent => (setSocket s i { s.sockets i with state := .closed }, 0)
    | .synReceived => closeWith s i .finWait1 out
    | .established => closeWith s i .finWait1 out
    | .closeWait => closeWith s i .lastAck out
    | _ => (s, -1)

def socketSend (data : Option (List UInt8)) (out : Outside) : State × Int :=
  match socket, data with
  | some i, some data =>
    if (s.sockets i).state ≠ .established then (s, -1)
    else
      let r := sendSegment (out.send 0) (s.sockets i) (tcpFlagPsh ||| tcpFlagAck) data
      (setSocket s i r.1, if r.2 = 0 then data.length else r.2)
  | _, _ => (s, -1)

/-- `tcp_socket_recv`, with whether the caller's buffer is there: the state, the result, and
the bytes that were copied. -/
def socketRecv (buffer : Bool) (len : ℕ) : State × Int × List UInt8 :=
  match socket, buffer with
  | some i, true =>
    if (s.sockets i).state ≠ .established ∧ (s.sockets i).state ≠ .finWait1 ∧
        (s.sockets i).state ≠ .finWait2 ∧ (s.sockets i).state ≠ .closeWait then (s, -1, [])
    else
      let r := bufferRead (s.sockets i).rxBuffer len
      (setSocket s i { s.sockets i with rxBuffer := r.1 }, r.2)
  | _, _ => (s, -1, [])

/-! ## The timer -/

/-- One round of the first loop of `tcp_timer`. -/
def expire (now : UInt32) (s : State) (k : Fin 32) : State :=
  match (s.timeWait k).socket with
  | none => s
  | some i =>
    if (s.timeWait k).duration ≤ now - (s.timeWait k).startTime then
      { setSocket s i { s.sockets i with state := .closed } with
        timeWait := Function.update s.timeWait k { s.timeWait k with socket := none } }
    else s

/-- The second loop of `tcp_timer` on one socket. -/
def countDown (msec : UInt32) (c : Socket) : Socket :=
  if (c.state = .synSent ∨ c.state = .synReceived ∨ c.state = .established) ∧ 0 < c.conn.timer then
    let c := { c with conn.timer := c.conn.timer - msec.toInt32 }
    if c.conn.timer ≤ 0 then
      let c := { c with
        conn.attempts := c.conn.attempts + 1
        conn.rto := c.conn.rto * 2 }
      if tcpMaxRetransmits < c.conn.attempts then { c with state := .closed }
      else { c with conn.timer := c.conn.rto.toInt32 }
    else c
  else c

def timer (msec now : UInt32) : State :=
  let s := (List.finRange 32).foldl (expire now) s
  { s with sockets := fun i => countDown msec (s.sockets i) }

/-! ## Requests -/

inductive Request
  | create (localAddr : Option Ipv4Address) (localPort : UInt16)
  | bind (socket : Option Slot) (addr : Option Ipv4Address) (port : UInt16)
  | listen (socket : Option Slot) (backlog : UInt16)
  | accept (socket : Option Slot)
  | connect (socket : Option Slot) (addr : Option Ipv4Address) (port : UInt16)
  | close (socket : Option Slot)
  | send (socket : Option Slot) (data : Option (List UInt8))
  | recv (socket : Option Slot) (buffer : Bool) (len : ℕ)
  | rx (buffer : Option Packet)
  | timer (msec : UInt32)
deriving DecidableEq, Repr

def perform (out : Outside) : Request → State
  | .create localAddr localPort => (socketCreate s localAddr localPort out).1
  | .bind socket addr port => (socketBind s socket addr port).1
  | .listen socket backlog => (socketListen s socket backlog out).1
  | .accept socket => (socketAccept s socket).1
  | .connect socket addr port => (socketConnect s socket addr port out).1
  | .close socket => (socketClose s socket out).1
  | .send socket data => (socketSend s socket data out).1
  | .recv socket buffer len => (socketRecv s socket buffer len).1
  | .rx buffer => (rx s buffer out).1
  | .timer msec => timer s msec out.now

structure Event where
  request : Request
  out : Outside

def step (e : Event) : Option State := some (perform s e.out e.request)

end UintOS.Tcp
