import UintOS.Network.Tcp.Demux

/-!
# The received stream

A peer sends a stream of bytes, cut into segments that arrive in any order and any number of times.
`Reader` is the state with the bytes that the application has received; these and what is still in
the buffer should be the stream up to `rcv_nxt`.

`tcp_process_data` moves `rcv_nxt` before it knows whether the data fits, and `tcp_process_fin` sets
it to the end of the stream wherever that is. The stream is intact exactly as long as the data that
arrives in order fits in the buffer and `FIN` arrives in order.
-/

namespace UintOS.Tcp

open Link List Network Runs

/-! ## Receive buffers -/

def RxBuffer.contents (b : RxBuffer) : List UInt8 := if b.allocated then b.ring.contents else []

/-- A buffer as `tcp_buffer_init` sets it up. -/
structure BufferOk (b : RxBuffer) : Prop where
  wellFormed : b.allocated = true → b.ring.WellFormed
  size : b.allocated = true → b.ring.size = tcpDefaultBufferSize

def RxBuffer.Room (b : RxBuffer) (len : ℕ) : Prop :=
  b.allocated = true ∧ b.ring.count + len ≤ b.ring.size

instance (b : RxBuffer) (len : ℕ) : Decidable (b.Room len) :=
  inferInstanceAs (Decidable (b.allocated = true ∧ b.ring.count + len ≤ b.ring.size))

theorem bufferInit_ok (c : Socket) (block : Option (ℕ → UInt8)) :
    BufferOk (bufferInit c tcpDefaultBufferSize block).1.rxBuffer := by
  cases block with
  | none => exact ⟨nofun, nofun⟩
  | some cells =>
    constructor
    · exact fun _ => RingBuffer.wellFormed_empty
        (show 0 < tcpDefaultBufferSize by decide) rfl rfl rfl
    · exact fun _ => rfl

variable {b : RxBuffer} {s : State} {i : Slot} {seg : Segment} {c d : Socket} {τ : FourTuple}
  {data q : List UInt8} {n : ℕ}

/-- The buffer has `n` cells, its indices agree, and it holds `q`. -/
structure HoldsQueue (n : ℕ) (b : RxBuffer) (q : List UInt8) : Prop where
  allocated : b.allocated = true
  size : b.ring.size = n
  wellFormed : b.ring.WellFormed
  contents : b.ring.contents = q

section Queue

variable {n : ℕ} {q data : List UInt8}

section

variable (h : HoldsQueue n b q)
include h

theorem HoldsQueue.count : b.ring.count = q.length := by
  rw [← h.contents, RingBuffer.length_contents]

theorem HoldsQueue.length_le : q.length ≤ n := by
  rw [← h.count, ← h.size]
  exact h.wellFormed.count_le

theorem HoldsQueue.write (hfits : q.length + data.length ≤ n)
    (hlen : data.length + n < 4294967296) :
    ∃ b', bufferWrite b data = (b', (data.length : ℤ)) ∧ HoldsQueue n b' (q ++ data) := by
  have hnot : ¬ b.ring.size < (b.ring.count + data.length) % 4294967296 := by
    rw [h.size, h.count, Nat.mod_eq_of_lt (by omega)]
    omega
  obtain ⟨hwell, hcont⟩ := h.wellFormed.write (l := data) (by rw [h.count, h.size]; exact hfits)
  rw [h.contents] at hcont
  refine ⟨{ b with ring := b.ring.write data }, ?_, h.allocated, ?_, hwell, hcont⟩
  · rw [bufferWrite, if_neg (by simp [h.allocated]), if_neg hnot]
  · exact (RingBuffer.write_size _ _).trans h.size

theorem HoldsQueue.refuse (hfits : ¬ q.length + data.length ≤ n)
    (hlen : data.length + n < 4294967296) : bufferWrite b data = (b, -1) := by
  have hle := h.length_le
  have hover : b.ring.size < (b.ring.count + data.length) % 4294967296 := by
    rw [h.size, h.count, Nat.mod_eq_of_lt (by omega)]
    omega
  rw [bufferWrite, if_neg (by simp [h.allocated]), if_pos hover]

theorem HoldsQueue.read (len : ℕ) :
    ∃ b', bufferRead b len = (b', ((q.take len).length : ℤ), q.take len) ∧
      HoldsQueue n b' (q.drop len) := by
  have hmin : (if b.ring.count < len then b.ring.count else len) = min len q.length := by
    rw [h.count]
    split_ifs <;> omega
  simp only [bufferRead, h.allocated, hmin, length_take]
  rw [if_neg (by simp)]
  by_cases hzero : min len q.length = 0
  · have hnil : q.take len = [] ∧ q.drop len = q := by
      rcases Nat.min_eq_zero_iff.mp hzero with rfl | hq
      · simp
      · simp [eq_nil_of_length_eq_zero hq]
    rw [if_pos hzero, hnil.1, hnil.2, hzero]
    exact ⟨b, rfl, h⟩
  · have hle : min len q.length ≤ b.ring.count := by
      rw [h.count]
      exact Nat.min_le_right _ _
    obtain ⟨hwell, hcont⟩ := h.wellFormed.read hle
    have hlength := congrArg List.length hcont
    rw [length_append, RingBuffer.length_contents, RingBuffer.length_contents] at hlength
    have hfirst : (b.ring.read (min len q.length)).1.length = min len q.length := by
      change b.ring.count = _ + (b.ring.count - min len q.length) at hlength
      omega
    rw [h.contents] at hcont
    obtain ⟨htake, hdrop⟩ := append_inj ((take_append_drop len q).trans hcont)
      (by rw [hfirst, length_take])
    rw [if_neg hzero, htake, hdrop]
    exact ⟨_, rfl, rfl, (RingBuffer.read_size _ _).trans h.size, hwell, rfl⟩

end

theorem bufferPeek_eq (b : RxBuffer) (len : ℕ) : bufferPeek b len = (bufferRead b len).2 := by
  simp only [bufferPeek, bufferRead]
  split_ifs <;> rfl

theorem BufferOk.holds (h : BufferOk b) (halloc : b.allocated = true) :
    HoldsQueue tcpDefaultBufferSize b b.contents :=
  ⟨halloc, h.size halloc, h.wellFormed halloc, by rw [RxBuffer.contents, if_pos halloc]⟩

theorem HoldsQueue.ok (h : HoldsQueue tcpDefaultBufferSize b q) : BufferOk b ∧ b.contents = q :=
  ⟨⟨fun _ => h.wellFormed, fun _ => h.size⟩,
    by rw [RxBuffer.contents, if_pos h.allocated, h.contents]⟩

end Queue

theorem bufferWrite_of_room (h : BufferOk b) (hroom : b.Room data.length) :
    (bufferWrite b data).2 = data.length ∧ BufferOk (bufferWrite b data).1 ∧
      (bufferWrite b data).1.contents = b.contents ++ data := by
  obtain ⟨halloc, hfits⟩ := hroom
  have hb := h.holds halloc
  rw [hb.count, hb.size] at hfits
  unfold tcpDefaultBufferSize at hb hfits
  obtain ⟨b', heq, hb'⟩ := hb.write hfits (by omega)
  rw [heq]
  exact ⟨rfl, hb'.ok⟩

theorem bufferWrite_of_not_room (h : BufferOk b) (hlen : data.length < 65536)
    (hroom : ¬ b.Room data.length) : bufferWrite b data = (b, -1) := by
  cases halloc : b.allocated with
  | false => rw [bufferWrite, if_pos halloc]
  | true =>
    have hb := h.holds halloc
    rw [RxBuffer.Room, hb.count, hb.size] at hroom
    unfold tcpDefaultBufferSize at hb hroom
    exact hb.refuse (fun hle => hroom ⟨halloc, hle⟩) (by omega)

theorem bufferRead_spec (h : BufferOk b) (len : ℕ) : BufferOk (bufferRead b len).1 ∧
      b.contents = (bufferRead b len).2.2 ++ (bufferRead b len).1.contents := by
  cases halloc : b.allocated with
  | false =>
    rw [bufferRead, if_pos halloc]
    exact ⟨h, rfl⟩
  | true =>
    obtain ⟨b', heq, hb'⟩ := (h.holds halloc).read len
    rw [heq, hb'.ok.2, take_append_drop]
    exact ⟨hb'.ok.1, rfl⟩

/-! ## The buffer as a queue -/

inductive BufferCall
  | write (data : List UInt8)
  | read (len : ℕ)
  | peek (len : ℕ)

def BufferCall.length : BufferCall → ℕ
  | .write data => data.length
  | .read len => len
  | .peek len => len

/-- The buffer after a call, its result, and the bytes copied to the caller. -/
def bufferServe (b : RxBuffer) : BufferCall → RxBuffer × Int × List UInt8
  | .write data => ((bufferWrite b data).1, (bufferWrite b data).2, [])
  | .read len => bufferRead b len
  | .peek len => (b, bufferPeek b len)

/-- What the calls do to a queue of at most `n` bytes. -/
def queueServe (n : ℕ) (q : List UInt8) : BufferCall → List UInt8 × Int × List UInt8
  | .write data =>
    if q.length + data.length ≤ n then (q ++ data, data.length, []) else (q, -1, [])
  | .read len => (q.drop len, (q.take len).length, q.take len)
  | .peek len => (q, (q.take len).length, q.take len)

/-- The state after some calls, and what they returned. -/
def serveAll {σ : Type} (serve : σ → BufferCall → σ × Int × List UInt8) (s : σ) :
    List BufferCall → σ × List (Int × List UInt8)
  | [] => (s, [])
  | call :: calls =>
    ((serveAll serve (serve s call).1 calls).1,
      (serve s call).2 :: (serveAll serve (serve s call).1 calls).2)

theorem HoldsQueue.step (h : HoldsQueue n b q) {call : BufferCall}
    (hlen : call.length + n < 4294967296) :
    (bufferServe b call).2 = (queueServe n q call).2 ∧
      HoldsQueue n (bufferServe b call).1 (queueServe n q call).1 := by
  cases call with
  | write data =>
    by_cases hfits : q.length + data.length ≤ n
    · obtain ⟨b', heq, hb'⟩ := h.write hfits hlen
      simp only [bufferServe, queueServe, heq, if_pos hfits]
      exact ⟨trivial, hb'⟩
    · simp only [bufferServe, queueServe, h.refuse hfits hlen, if_neg hfits]
      exact ⟨trivial, h⟩
  | read len =>
    obtain ⟨b', heq, hb'⟩ := h.read len
    simp only [bufferServe, queueServe, heq]
    exact ⟨trivial, hb'⟩
  | peek len =>
    obtain ⟨b', heq, -⟩ := h.read len
    simp only [bufferServe, queueServe, bufferPeek_eq, heq]
    exact ⟨trivial, h⟩

theorem HoldsQueue.run (h : HoldsQueue n b q) {calls : List BufferCall}
    (hlen : ∀ call ∈ calls, call.length + n < 4294967296) :
    (serveAll bufferServe b calls).2 = (serveAll (queueServe n) q calls).2 ∧
      HoldsQueue n (serveAll bufferServe b calls).1 (serveAll (queueServe n) q calls).1 := by
  induction calls generalizing b q with
  | nil => exact ⟨rfl, h⟩
  | cons call calls ih =>
    rw [forall_mem_cons] at hlen
    obtain ⟨hres, hnext⟩ := h.step hlen.1
    obtain ⟨hresults, hlast⟩ := ih hnext hlen.2
    exact ⟨by rw [serveAll, serveAll, hres, hresults], hlast⟩

/-- A buffer of `n` bytes is a queue of at most `n` bytes, over any calls. -/
theorem buffer_is_fifo (c : Socket) (cells : ℕ → UInt8) {n : ℕ} (hn : 0 < n)
    {calls : List BufferCall} (hlen : ∀ call ∈ calls, call.length < 4294967296 - n) :
    let b := serveAll bufferServe (bufferInit c n (some cells)).1.rxBuffer calls
    let q := serveAll (queueServe n) [] calls
    b.2 = q.2 ∧ HoldsQueue n b.1 q.1 ∧ b.1.ring.stop < n ∧ q.1.length ≤ n := by
  have hstart : HoldsQueue n (bufferInit c n (some cells)).1.rxBuffer [] :=
    ⟨rfl, rfl, RingBuffer.wellFormed_empty hn rfl rfl rfl, rfl⟩
  have hshort : ∀ call ∈ calls, call.length + n < 4294967296 := by
    intro call hcall
    have := hlen call hcall
    omega
  obtain ⟨hresults, hlast⟩ := hstart.run hshort
  refine ⟨hresults, hlast, ?_, hlast.length_le⟩
  rw [hlast.wellFormed.stop_eq, hlast.size]
  exact Nat.mod_lt _ hn

theorem three_bytes_are_fifo :
    let calls := [.write [1, 2], .peek 1, .read 1, .write [3, 4], .write [5], .read 9]
    let b := serveAll bufferServe (bufferInit Socket.zero 3 (some fun _ => 0)).1.rxBuffer calls
    b.2 = [(2, []), (1, [1]), (1, [1]), (2, []), (-1, []), (3, [2, 3, 4])] :=
  (buffer_is_fifo Socket.zero (fun _ => 0) (by decide) (by decide)).1

/-! ## The peer and the reader -/

/-- The peer's stream, and the sequence number of its first byte. -/
structure Peer where
  stream : List UInt8
  base : UInt32

variable (peer : Peer)

/-- The segment is cut from the stream: its data is in place, and `FIN` at the end. -/
def Peer.Sends (seg : Segment) : Prop :=
  ∃ k, k ≤ peer.stream.length ∧ seg.seqNum = peer.base + UInt32.ofNat k ∧
    seg.data <+: peer.stream.drop k ∧
    (seg.has tcpFlagFin → k + seg.data.length = peer.stream.length)

/-- The state and the bytes received, from the start of the stream on. -/
structure Reader where
  tcp : State
  received : List UInt8

inductive Input
  | segment (packet : Packet) (out : Outside)
  | recv (buffer : Bool) (len : ℕ)

/-- What the reader of the socket `i` sees: `tcp_rx` on a packet, or `tcp_socket_recv`. -/
def readerStep (i : Slot) (r : Reader) : Input → Option Reader
  | .segment packet out => some { r with tcp := (rx r.tcp (some packet) out).1 }
  | .recv buffer len =>
    some ⟨(socketRecv r.tcp (some i) buffer len).1,
      r.received ++ (socketRecv r.tcp (some i) buffer len).2.2⟩

def Reader.bytes (r : Reader) (i : Slot) : List UInt8 :=
  r.received ++ (r.tcp.sockets i).rxBuffer.contents

def finCount (c : Socket) : UInt32 := if c.state = .closeWait then 1 else 0

/-- What was received is the stream up to `rcv_nxt`. -/
structure Intact (peer : Peer) (i : Slot) (r : Reader) : Prop where
  bytes : r.bytes i <+: peer.stream
  rcvNxt : (r.tcp.sockets i).conn.rcvNxt =
    peer.base + UInt32.ofNat (r.bytes i).length + finCount (r.tcp.sockets i)

/-- A packet that is from the peer if it is for the connection. -/
def FromPeer (τ : FourTuple) : Input → Prop
  | .segment packet _ =>
    ∀ seg, parse packet = some seg → seg.fourTuple = τ →
      ¬ seg.has tcpFlagRst ∧ seg.data.length < 65536 ∧ peer.Sends seg
  | .recv _ _ => True

/-- The segment has data that `tcp_process_data` takes to be the next. -/
def InOrder (c : Socket) (seg : Segment) : Prop :=
  0 < seg.data.length ∧ seg.seqNum = c.conn.rcvNxt

instance (c : Socket) (seg : Segment) : Decidable (InOrder c seg) :=
  inferInstanceAs (Decidable (0 < seg.data.length ∧ seg.seqNum = c.conn.rcvNxt))

/-- The stream is shorter than the space of sequence numbers. -/
def Peer.Short : Prop := peer.stream.length + 1 < 4294967296

/-- The packet holds this segment for the socket, not a `SYN`. -/
def Delivers (s : State) (i : Slot) (packet : Packet) (seg : Segment) : Prop :=
  parse packet = some seg ∧ seg.target s.sockets = some i ∧ ¬ seg.has tcpFlagSyn

/-- Data taken to be the next fits in the buffer (and is the next, which can fail only when sequence
numbers occur twice in the stream), and `FIN` stands where the bytes end. -/
structure Agrees (peer : Peer) (i : Slot) (r : Reader) (seg : Segment) : Prop where
  room : InOrder (r.tcp.sockets i) seg → (r.tcp.sockets i).rxBuffer.Room seg.data.length
  next : InOrder (r.tcp.sockets i) seg → ¬ peer.Short →
    seg.data <+: peer.stream.drop (r.bytes i).length
  fin : seg.has tcpFlagFin → seg.seqNum + UInt32.ofNat seg.data.length =
    peer.base + UInt32.ofNat ((r.bytes i).length +
      if InOrder (r.tcp.sockets i) seg then seg.data.length else 0)

def Accommodated (i : Slot) (r : Reader) : Input → Prop
  | .segment packet _ => ∀ seg, Delivers r.tcp i packet seg → Agrees peer i r seg
  | .recv _ _ => True

/-! ## What a segment does to the stream -/

def Open (c : Socket) : Prop := c.state = .established ∨ c.state = .closeWait

structure SameStream (c d : Socket) : Prop where
  state : d.state = c.state
  rcvNxt : d.conn.rcvNxt = c.conn.rcvNxt
  rxBuffer : d.rxBuffer = c.rxBuffer

theorem rxAck_sameStream (hopen : Open (s.sockets i)) (seg : Segment)
    (out : Outside) : SameStream (s.sockets i) ((rxAck s i seg out).sockets i) := by
  unfold rxAck processAck
  dsimp only
  split_ifs
  · rw [setSocket_self]
    exact ⟨rfl, rfl, rfl⟩
  · rcases hopen with hst | hst
    · rw [hst]
      rw [setSocket_self]
      exact ⟨hst.symm, rfl, rfl⟩
    · rw [hst]
      rw [setSocket_self]
      exact ⟨hst.symm, rfl, rfl⟩
  · exact ⟨rfl, rfl, rfl⟩

section

variable (out : Outside)

theorem rxData_of_inOrder (h : InOrder (s.sockets i) seg) :
    ((rxData s i seg out).sockets i).state = (s.sockets i).state ∧
      ((rxData s i seg out).sockets i).conn.rcvNxt =
        (s.sockets i).conn.rcvNxt + UInt32.ofNat seg.data.length ∧
      ((rxData s i seg out).sockets i).rxBuffer =
        (bufferWrite (s.sockets i).rxBuffer seg.data).1 := by
  unfold rxData processData
  rw [if_pos h.1]
  dsimp only
  rw [if_neg (not_not.mpr h.2)]
  split_ifs
  · rw [setSocket_self]
    exact ⟨rfl, rfl, rfl⟩
  · rw [sendSegment_ack, setSocket_self]
    exact ⟨rfl, rfl, rfl⟩

theorem rxData_of_not_inOrder (h : ¬ InOrder (s.sockets i) seg) :
    (rxData s i seg out).sockets i = s.sockets i := by
  unfold rxData
  split_ifs with hlen
  · have hseq : seg.seqNum ≠ (s.sockets i).conn.rcvNxt := fun heq => h ⟨hlen, heq⟩
    unfold processData
    rw [if_pos hseq, sendSegment_ack, setSocket_self]
  · rfl

theorem rxFin_of_fin (hopen : Open (s.sockets i)) (hfin : seg.has tcpFlagFin) :
    ((rxFin s i seg out).sockets i).state = .closeWait ∧
      ((rxFin s i seg out).sockets i).conn.rcvNxt = seg.seqNum + UInt32.ofNat seg.data.length + 1 ∧
      ((rxFin s i seg out).sockets i).rxBuffer = (s.sockets i).rxBuffer := by
  unfold rxFin processFin
  rw [if_pos hfin]
  simp only [sendSegment_ack]
  rcases hopen with hst | hst
  · rw [hst]
    rw [setSocket_self]
    exact ⟨rfl, rfl, rfl⟩
  · rw [hst]
    rw [setSocket_self]
    exact ⟨rfl, rfl, rfl⟩

theorem rxFin_of_not_fin (hfin : ¬ seg.has tcpFlagFin) : rxFin s i seg out = s := by
  unfold rxFin
  rw [if_neg hfin]

def stored (c : Socket) (seg : Segment) : List UInt8 :=
  if InOrder c seg ∧ c.rxBuffer.Room seg.data.length then seg.data else []

/-- The socket `d` after the segment was served for the socket `c`. -/
structure Takes (seg : Segment) (c d : Socket) : Prop where
  identity : d.identity = c.identity
  buffer : BufferOk d.rxBuffer
  contents : d.rxBuffer.contents = c.rxBuffer.contents ++ stored c seg
  fin : seg.has tcpFlagFin →
    d.state = .closeWait ∧ d.conn.rcvNxt = seg.seqNum + UInt32.ofNat seg.data.length + 1
  noFin : ¬ seg.has tcpFlagFin → d.state = c.state ∧
    d.conn.rcvNxt = if InOrder c seg then c.conn.rcvNxt + UInt32.ofNat seg.data.length
      else c.conn.rcvNxt

/-- The data of a segment in order: stored when there is room, and `rcv_nxt` moved. -/
theorem rxData_takes (hbuf : BufferOk (s.sockets i).rxBuffer) (hlen : seg.data.length < 65536) :
    BufferOk ((rxData s i seg out).sockets i).rxBuffer ∧
      ((rxData s i seg out).sockets i).rxBuffer.contents =
        (s.sockets i).rxBuffer.contents ++ stored (s.sockets i) seg ∧
      ((rxData s i seg out).sockets i).state = (s.sockets i).state ∧
      ((rxData s i seg out).sockets i).conn.rcvNxt = if InOrder (s.sockets i) seg then
        (s.sockets i).conn.rcvNxt + UInt32.ofNat seg.data.length else
          (s.sockets i).conn.rcvNxt := by
  by_cases horder : InOrder (s.sockets i) seg
  · obtain ⟨hstate, hnxt, hrx⟩ := rxData_of_inOrder out horder
    rw [hrx, hnxt, if_pos horder]
    by_cases hroom : (s.sockets i).rxBuffer.Room seg.data.length
    · obtain ⟨-, hbuf', hcont⟩ := bufferWrite_of_room hbuf hroom
      rw [stored, if_pos ⟨horder, hroom⟩]
      exact ⟨hbuf', hcont, hstate, rfl⟩
    · rw [bufferWrite_of_not_room hbuf hlen hroom, stored, if_neg fun h => hroom h.2]
      exact ⟨hbuf, (append_nil _).symm, hstate, rfl⟩
  · rw [rxData_of_not_inOrder out horder, stored, if_neg fun h => horder h.1, if_neg horder]
    exact ⟨hbuf, (append_nil _).symm, rfl, rfl⟩

end

theorem SameStream.inOrder (h : SameStream c d) (seg : Segment) :
    InOrder d seg ↔ InOrder c seg := by
  rw [InOrder, InOrder, h.rcvNxt]

theorem SameStream.stored (h : SameStream c d) (seg : Segment) :
    Tcp.stored d seg = Tcp.stored c seg := by
  simp only [Tcp.stored, h.inOrder seg, h.rxBuffer]

theorem rxOrdinary_takes (out : Outside) (hopen : Open (s.sockets i))
    (hbuf : BufferOk (s.sockets i).rxBuffer) (hlen : seg.data.length < 65536) :
    Takes seg (s.sockets i)
      ((rxFin (rxData (rxAck s i seg out) i seg out) i seg out).sockets i) := by
  have hack := rxAck_sameStream hopen seg out
  obtain ⟨hbuf', hcont, hstate, hnxt⟩ :=
    rxData_takes (s := rxAck s i seg out) (i := i) out (hack.rxBuffer ▸ hbuf) hlen
  rw [hack.rxBuffer, hack.stored] at hcont
  rw [hack.state] at hstate
  rw [hack.rcvNxt, if_congr (hack.inOrder seg) rfl rfl] at hnxt
  have hidentity := (rxOrdinary_served s i seg out).identity
  have hopen' : Open ((rxData (rxAck s i seg out) i seg out).sockets i) := by
    rw [Open, hstate]
    exact hopen
  by_cases hfin : seg.has tcpFlagFin
  · obtain ⟨hstate', hnxt', hrx⟩ := rxFin_of_fin out hopen' hfin
    exact ⟨hidentity, hrx ▸ hbuf', hrx ▸ hcont, fun _ => ⟨hstate', hnxt'⟩,
      fun hnot => absurd hfin hnot⟩
  · rw [rxFin_of_not_fin out hfin] at hidentity ⊢
    exact ⟨hidentity, hbuf', hcont, fun h => absurd h hfin, fun _ => ⟨hstate, hnxt⟩⟩

/-- A segment for another socket, and a `SYN`, leave the connection alone. -/
theorem rx_leaves {p : Packet} (out : Outside) (hopen : Open (s.sockets i))
    (h : ∀ seg, parse p = some seg → seg.target s.sockets = some i →
      ¬ seg.has tcpFlagRst ∧ seg.has tcpFlagSyn) :
    (rx s (some p) out).1.sockets i = s.sockets i := by
  cases hp : parse p with
  | none => simp [rx, hp]
  | some seg =>
    have hrx : rx s (some p) out = rxSegment s seg out := by simp [rx, hp]
    rw [hrx]
    generalize (rxSegment s seg out).1 = t, rxSegment_received s seg out = hrcv
    cases hrcv with
    | ignored _ => rfl
    | reset k hrst hk =>
      apply setSocket_of_ne
      rintro rfl
      exact (h seg hp hk).1 hrst
    | established k _ _ _ _ hstate _ =>
      apply setSocket_of_ne
      rintro rfl
      simp [Open, hstate] at hopen
    | opened l j q hopens =>
      have hj : i ≠ j := by
        rintro rfl
        simp [Open, firstClosed_eq_some hopens.slot] at hopen
      have hl : i ≠ l := by
        rintro rfl
        simp [Open, hopens.listening] at hopen
      obtain ⟨-, n, b, ht⟩ | ⟨-, n, b, ht⟩ := processSyn_cases hopens out
      · rw [ht, setSocket_of_ne _ _ hj, enqueue, setSocket_of_ne _ _ hl]
      · rw [ht, setSocket_of_ne _ _ hj]
    | served k _ hsyn hk =>
      apply (rxOrdinary_served s k seg out).others
      rintro rfl
      exact hsyn (h seg hp hk).2

/-! ## One step of the reader -/

/-- The reader and its connection are where they were; bytes may have been read. -/
structure Unmoved (i : Slot) (r t : Reader) : Prop where
  bytes : t.bytes i = r.bytes i
  state : (t.tcp.sockets i).state = (r.tcp.sockets i).state
  rcvNxt : (t.tcp.sockets i).conn.rcvNxt = (r.tcp.sockets i).conn.rcvNxt
  fourTuple : (t.tcp.sockets i).fourTuple = (r.tcp.sockets i).fourTuple
  buffer : BufferOk (t.tcp.sockets i).rxBuffer

variable {r : Reader}

theorem recv_unmoved (hbuf : BufferOk (r.tcp.sockets i).rxBuffer) (buffer : Bool) (len : ℕ) :
    Unmoved i r ⟨(socketRecv r.tcp (some i) buffer len).1,
      r.received ++ (socketRecv r.tcp (some i) buffer len).2.2⟩ := by
  have hsame : Unmoved i r ⟨r.tcp, r.received ++ []⟩ :=
    ⟨by simp [Reader.bytes], rfl, rfl, rfl, hbuf⟩
  cases buffer with
  | false => exact hsame
  | true =>
    unfold socketRecv
    dsimp only
    split_ifs
    · exact hsame
    · obtain ⟨hbuf', hcont⟩ := bufferRead_spec hbuf len
      constructor
      · simp only [Reader.bytes, setSocket_self, hcont, append_assoc]
      · rw [setSocket_self]
      · rw [setSocket_self]
      · rw [setSocket_self]
        rfl
      · rw [setSocket_self]
        exact hbuf'

theorem fourTuple_of_target (hopen : Open (s.sockets i))
    (h : seg.target s.sockets = some i) : seg.fourTuple = (s.sockets i).fourTuple := by
  have hconn : (s.sockets i).Connected := by
    rcases hopen with hst | hst
    · simp [Socket.Connected, hst]
    · simp [Socket.Connected, hst]
  have hcovers := ((lookup_eq_some_iff s seg.fourTuple i).mp h).1
  rw [entries, entry_of_connected hconn] at hcovers
  exact hcovers.symm

theorem rx_of_delivers {packet : Packet} (out : Outside) (h : Delivers s i packet seg)
    (hrst : ¬ seg.has tcpFlagRst) :
    (rx s (some packet) out).1 = rxFin (rxData (rxAck s i seg out) i seg out) i seg out := by
  obtain ⟨hparse, htarget, hsyn⟩ := h
  have hrx : rx s (some packet) out = rxSegment s seg out := by simp [rx, hparse]
  rw [hrx]
  unfold rxSegment
  rw [if_neg hrst, if_neg hsyn, htarget]

theorem fourTuple_of_identity (h : d.identity = c.identity) : d.fourTuple = c.fourTuple := by
  simp only [Socket.identity, Identity.mk.injEq] at h
  obtain ⟨hlp, hrp, hla, hra, -, -, -⟩ := h
  rw [Socket.fourTuple, Socket.fourTuple, hlp, hrp, hla, hra]

/-! ## Sequence numbers -/

theorem ofNat_inj {m : ℕ} (hm : m < 4294967296) (hn : n < 4294967296)
    (h : UInt32.ofNat m = UInt32.ofNat n) : m = n := by
  have hnat := congrArg UInt32.toNat h
  rwa [UInt32.toNat_ofNat', UInt32.toNat_ofNat', Nat.mod_eq_of_lt hm, Nat.mod_eq_of_lt hn] at hnat

theorem finCount_eq (c : Socket) :
    finCount c = UInt32.ofNat (if c.state = .closeWait then 1 else 0) := by
  unfold finCount
  split_ifs
  · rfl
  · rfl

/-! ## The invariant -/

/-- The stream is intact, and `FIN` was received at its end only. -/
structure Receiving (peer : Peer) (τ : FourTuple) (i : Slot) (r : Reader) : Prop where
  isOpen : Open (r.tcp.sockets i)
  buffer : BufferOk (r.tcp.sockets i).rxBuffer
  fourTuple : (r.tcp.sockets i).fourTuple = τ
  intact : Intact peer i r
  ended : peer.Short → (r.tcp.sockets i).state = .closeWait →
    (r.bytes i).length = peer.stream.length

variable {peer : Peer} {t : Reader}

theorem Receiving.unmoved (h : Receiving peer τ i r)
    (ht : Unmoved i r t) : Receiving peer τ i t := by
  constructor
  · rw [Open, ht.state]
    exact h.isOpen
  · exact ht.buffer
  · rw [ht.fourTuple, h.fourTuple]
  · constructor
    · rw [ht.bytes]
      exact h.intact.bytes
    · rw [ht.rcvNxt, ht.bytes, finCount, ht.state, h.intact.rcvNxt, finCount]
  · rw [ht.bytes, ht.state]
    exact h.ended

theorem Receiving.next (h : Receiving peer τ i r) (hshort : peer.Short) (hsends : peer.Sends seg)
    (horder : InOrder (r.tcp.sockets i) seg) :
    seg.data <+: peer.stream.drop (r.bytes i).length := by
  obtain ⟨k, hk, hseq, hdata, -⟩ := hsends
  have hlen := h.intact.bytes.length_le
  unfold Peer.Short at hshort
  have hplace := hseq.symm.trans (horder.2.trans h.intact.rcvNxt)
  rw [finCount_eq, UInt32.add_assoc, ← UInt32.ofNat_add] at hplace
  have hplace' := ofNat_inj (by omega) (by split_ifs <;> omega) ((UInt32.add_right_inj _).mp hplace)
  split_ifs at hplace' with hst
  · have := h.ended hshort hst
    omega
  · rwa [← Nat.add_zero (r.bytes i).length, ← hplace']

theorem length_stored (h : InOrder c seg → c.rxBuffer.Room seg.data.length) :
    (stored c seg).length = if InOrder c seg then seg.data.length else 0 := by
  unfold stored
  by_cases horder : InOrder c seg
  · rw [if_pos ⟨horder, h horder⟩, if_pos horder]
  · rw [if_neg fun h => horder h.1, if_neg horder]
    rfl

theorem bytes_of_takes (hrcv : t.received = r.received)
    (htakes : Takes seg (r.tcp.sockets i) (t.tcp.sockets i)) :
    t.bytes i = r.bytes i ++ stored (r.tcp.sockets i) seg := by
  rw [Reader.bytes, hrcv, htakes.contents, Reader.bytes, append_assoc]

section

variable (h : Receiving peer τ i r)
include h

/-- A segment that agrees with the reader keeps the invariant. -/
theorem Receiving.takes (hsends : peer.Sends seg)
    (hrcv : t.received = r.received) (htakes : Takes seg (r.tcp.sockets i) (t.tcp.sockets i))
    (hagrees : Agrees peer i r seg) : Receiving peer τ i t := by
  have hbytes := bytes_of_takes hrcv htakes
  have hlen := length_stored hagrees.room
  have hbytes_le : t.bytes i <+: peer.stream := by
    obtain ⟨rest, hrest⟩ := h.intact.bytes
    rw [hbytes]
    by_cases horder : InOrder (r.tcp.sockets i) seg
    · have hnext : seg.data <+: peer.stream.drop (r.bytes i).length := by
        by_cases hshort : peer.Short
        · exact h.next hshort hsends horder
        · exact hagrees.next horder hshort
      rw [stored, if_pos ⟨horder, hagrees.room horder⟩]
      rw [← hrest, drop_left] at hnext
      rw [← hrest]
      exact (prefix_append_right_inj _).mpr hnext
    · rw [stored, if_neg fun h => horder h.1, append_nil]
      exact ⟨rest, hrest⟩
  have hlength : (t.bytes i).length = (r.bytes i).length +
      if InOrder (r.tcp.sockets i) seg then seg.data.length else 0 := by
    rw [hbytes, length_append, hlen]
  by_cases hfin : seg.has tcpFlagFin
  · obtain ⟨hstate, hnxt⟩ := htakes.fin hfin
    have hend := hagrees.fin hfin
    rw [← hlength] at hend
    refine ⟨.inr hstate, htakes.buffer, ?_, ⟨hbytes_le, ?_⟩, ?_⟩
    · rw [fourTuple_of_identity htakes.identity, h.fourTuple]
    · rw [hnxt, hend, finCount, if_pos hstate]
    · intro hshort _
      obtain ⟨k, hk, hseq, hdata, hlast⟩ := hsends
      have hle := hbytes_le.length_le
      unfold Peer.Short at hshort
      rw [hseq, UInt32.add_assoc, ← UInt32.ofNat_add, hlast hfin] at hend
      exact (ofNat_inj (by omega) (by omega) ((UInt32.add_right_inj _).mp hend)).symm
  · obtain ⟨hstate, hnxt⟩ := htakes.noFin hfin
    refine ⟨?_, htakes.buffer, ?_, ⟨hbytes_le, ?_⟩, ?_⟩
    · rw [Open, hstate]
      exact h.isOpen
    · rw [fourTuple_of_identity htakes.identity, h.fourTuple]
    · rw [hnxt, finCount, hstate, ← finCount, hlength, h.intact.rcvNxt]
      split_ifs
      · rw [UInt32.ofNat_add]
        ac_rfl
      · rfl
    · intro hshort hcl
      rw [hstate] at hcl
      have hend := h.ended hshort hcl
      have hle := hbytes_le.length_le
      omega

/-- A segment after which the stream is intact agreed with the reader. -/
theorem Receiving.agrees (hlen : seg.data.length < 65536)
    (hrcv : t.received = r.received) (htakes : Takes seg (r.tcp.sockets i) (t.tcp.sockets i))
    (hintact : Intact peer i t) : Agrees peer i r seg := by
  have hbytes := bytes_of_takes hrcv htakes
  have hnxt' := hintact.rcvNxt
  -- without room `rcv_nxt` moves and the bytes do not
  have hroom : InOrder (r.tcp.sockets i) seg → (r.tcp.sockets i).rxBuffer.Room seg.data.length := by
    intro horder
    by_contra hno
    rw [stored, if_neg fun h => hno h.2, append_nil] at hbytes
    rw [hbytes] at hnxt'
    have hpos := horder.1
    by_cases hfin : seg.has tcpFlagFin
    · obtain ⟨hstate, hnxt⟩ := htakes.fin hfin
      rw [hnxt, finCount, if_pos hstate, UInt32.add_left_inj, horder.2, h.intact.rcvNxt,
        UInt32.add_assoc, UInt32.add_eq_left, finCount_eq, ← UInt32.ofNat_add] at hnxt'
      have hzero := ofNat_inj (n := 0) (by split_ifs <;> omega) (by decide) hnxt'
      omega
    · obtain ⟨hstate, hnxt⟩ := htakes.noFin hfin
      rw [hnxt, if_pos horder, finCount, hstate, ← finCount, ← h.intact.rcvNxt,
        UInt32.add_eq_left] at hnxt'
      have hzero := ofNat_inj (n := 0) (by omega) (by decide) hnxt'
      omega
  refine ⟨hroom, ?_, ?_⟩
  · intro horder _
    obtain ⟨rest, hrest⟩ := h.intact.bytes
    have hpre := hintact.bytes
    rw [hbytes, stored, if_pos ⟨horder, hroom horder⟩, ← hrest] at hpre
    rw [← hrest, drop_left]
    exact (prefix_append_right_inj _).mp hpre
  · intro hfin
    obtain ⟨hstate, hnxt⟩ := htakes.fin hfin
    rw [hnxt, finCount, if_pos hstate, UInt32.add_left_inj, hbytes, length_append,
      length_stored hroom] at hnxt'
    exact hnxt'

/-! ## Runs of the reader -/

abbrev PeerInput (peer : Peer) (τ : FourTuple) := { x : Input // FromPeer peer τ x }

def peerStep (peer : Peer) (τ : FourTuple) (i : Slot) (r : Reader) (x : PeerInput peer τ) :
    Option Reader := readerStep i r x.val

/-- What an input does: it delivers a segment of the peer, or moves nothing. -/
theorem peerStep_cases {x : PeerInput peer τ} (ht : peerStep peer τ i r x = some t) :
    (∃ packet out seg, x.val = .segment packet out ∧ Delivers r.tcp i packet seg ∧
      seg.data.length < 65536 ∧ peer.Sends seg ∧ t.received = r.received ∧
      Takes seg (r.tcp.sockets i) (t.tcp.sockets i)) ∨
    (Accommodated peer i r x.val ∧ Unmoved i r t) := by
  obtain ⟨x, hx⟩ := x
  cases x with
  | recv buffer len =>
    cases ht
    exact .inr ⟨trivial, recv_unmoved h.buffer buffer len⟩
  | segment packet out =>
    cases ht
    have hpeer : ∀ seg, parse packet = some seg → seg.target r.tcp.sockets = some i →
        ¬ seg.has tcpFlagRst ∧ seg.data.length < 65536 ∧ peer.Sends seg := by
      intro seg hparse htarget
      exact hx seg hparse ((fourTuple_of_target h.isOpen htarget).trans h.fourTuple)
    by_cases hdelivers : ∃ seg, Delivers r.tcp i packet seg
    · obtain ⟨seg, hdelivers⟩ := hdelivers
      obtain ⟨hrst, hlen, hsends⟩ := hpeer seg hdelivers.1 hdelivers.2.1
      refine .inl ⟨packet, out, seg, rfl, hdelivers, hlen, hsends, rfl, ?_⟩
      rw [rx_of_delivers out hdelivers hrst]
      exact rxOrdinary_takes out h.isOpen h.buffer hlen
    · have hleaves : (rx r.tcp (some packet) out).1.sockets i = r.tcp.sockets i := by
        apply rx_leaves out h.isOpen
        intro seg hparse htarget
        refine ⟨(hpeer seg hparse htarget).1, ?_⟩
        by_contra hsyn
        exact hdelivers ⟨seg, hparse, htarget, hsyn⟩
      refine .inr ⟨fun seg hseg => absurd ⟨seg, hseg⟩ hdelivers, ?_⟩
      constructor
      · simp only [Reader.bytes, hleaves]
      · simp only [hleaves]
      · simp only [hleaves]
      · simp only [hleaves]
      · simp only [hleaves]
        exact h.buffer

end

/-- An established connection with a peer that sends one stream: what is received is the stream up
to `rcv_nxt`, throughout, exactly if every segment for it is accommodated. -/
theorem stream_intact_iff {peer : Peer} {i : Slot} {r : Reader}
    (hstate : (r.tcp.sockets i).state = .established)
    (hbuffer : BufferOk (r.tcp.sockets i).rxBuffer) (hintact : Intact peer i r)
    (inputs : List (PeerInput peer (r.tcp.sockets i).fourTuple)) :
    Throughout (peerStep peer (r.tcp.sockets i).fourTuple i) (Intact peer i) r inputs ↔
      Meets (peerStep peer (r.tcp.sockets i).fourTuple i) (fun r x => Accommodated peer i r x.val)
        r inputs := by
  have hstart : Receiving peer (r.tcp.sockets i).fourTuple i r :=
    ⟨.inl hstate, hbuffer, rfl, hintact, fun _ h => by simp [hstate] at h⟩
  apply throughout_iff_meets _ (I := Receiving peer (r.tcp.sockets i).fourTuple i) _ _ hstart
  · exact fun _ h => h.intact
  · intro r x h
    obtain ⟨t, ht⟩ : ∃ t, peerStep peer _ i r x = some t := by
      obtain ⟨x, hx⟩ := x
      cases x <;> exact ⟨_, rfl⟩
    refine ⟨t, ht, ?_⟩
    obtain ⟨packet, out, seg, hx, hdelivers, hlen, hsends, hrcv, htakes⟩ | ⟨hok, hunmoved⟩ :=
      peerStep_cases h ht
    · rw [hx]
      refine ⟨fun hok => h.takes hsends hrcv htakes (hok seg hdelivers), ?_⟩
      refine fun hno hintact => hno fun seg' hseg' => ?_
      have heq : seg' = seg := Option.some.inj (hseg'.1.symm.trans hdelivers.1)
      rw [heq]
      exact h.agrees hlen hrcv htakes hintact
    · exact ⟨fun _ => h.unmoved hunmoved, fun hno => absurd hok hno⟩

def clientReader : Reader :=
  ⟨(exec step init [⟨.create (some ⟨10, 0, 0, 1⟩) 80, plenty⟩,
    ⟨.connect (some 0) (some ⟨10, 0, 0, 2⟩) 4000, plenty⟩,
    ⟨.rx (some synAckPacket), plenty⟩]).getD init, []⟩

def abcPeer : Peer := ⟨[97, 98, 99], 8⟩

def abcPacket : Packet where
  bytes := [15, 160, 0, 80, 0, 0, 0, 8, 1, 2, 3, 5, 80, 17, 4, 0, 191, 108, 0, 0, 97, 98, 99]
  src := ⟨10, 0, 0, 2⟩
  dest := ⟨10, 0, 0, 1⟩

def finPacket : Packet where
  bytes := [15, 160, 0, 80, 0, 0, 0, 11, 1, 2, 3, 5, 80, 17, 4, 0, 131, 207, 0, 0]
  src := ⟨10, 0, 0, 2⟩
  dest := ⟨10, 0, 0, 1⟩

theorem abcPeer_short : abcPeer.Short := show abcPeer.stream.length + 1 < 4294967296 by decide

theorem clientReader_buffer : BufferOk (clientReader.tcp.sockets 0).rxBuffer :=
  bufferInit_ok Socket.zero (some fun _ => 0)

theorem clientReader_intact : Intact abcPeer 0 clientReader := ⟨by decide, by decide⟩

theorem abcPacket_fromPeer (τ : FourTuple) : FromPeer abcPeer τ (.segment abcPacket plenty) := by
  intro seg hseg _
  cases hseg
  exact ⟨by decide, by decide, 0, by decide, by decide, by decide, fun _ => by decide⟩

theorem finPacket_fromPeer (τ : FourTuple) : FromPeer abcPeer τ (.segment finPacket plenty) := by
  intro seg hseg _
  cases hseg
  exact ⟨by decide, by decide, 3, by decide, by decide, by decide, fun _ => by decide⟩

theorem abc_intact :
    Throughout (peerStep abcPeer (clientReader.tcp.sockets 0).fourTuple 0) (Intact abcPeer 0)
      clientReader [⟨.segment abcPacket plenty, abcPacket_fromPeer _⟩,
        ⟨.recv true 2, trivial⟩] := by
  apply (stream_intact_iff (by decide) clientReader_buffer clientReader_intact _).mpr
  refine ⟨?_, fun t _ => ⟨trivial, fun _ _ => trivial⟩⟩
  intro seg hseg
  have heq := hseg.1
  cases heq
  exact ⟨fun _ => by decide, fun _ h => absurd abcPeer_short h, fun _ => by decide⟩

/-- `FIN` arrives before the bytes: they are acknowledged and never received. -/
theorem fin_skips_bytes : (clientReader.tcp.sockets 0).state = .established ∧
      BufferOk (clientReader.tcp.sockets 0).rxBuffer ∧ Intact abcPeer 0 clientReader ∧
      FromPeer abcPeer (clientReader.tcp.sockets 0).fourTuple (.segment finPacket plenty) ∧
      ∃ t, readerStep 0 clientReader (.segment finPacket plenty) = some t ∧
        t.bytes 0 = [] ∧ (t.tcp.sockets 0).conn.rcvNxt = abcPeer.base + 3 + 1 ∧
        ¬ Intact abcPeer 0 t := by
  refine ⟨by decide, clientReader_buffer, clientReader_intact, finPacket_fromPeer _, _, rfl,
    by decide, by decide, ?_⟩
  intro h
  exact absurd h.rcvNxt (by decide)

end UintOS.Tcp
