import UintOS.Network.Basic

/-!
# The DNS client

A model of `dns.c`: the query slots, the cache, the encoder of a query, the parser of a response,
`dns_lookup`, `dns_process_packet` and `dns_client_task`. A callback is a number, and the functions
return the invocations they make, in order. Some calls read the clock more than once and take the
sequence of its readings. What `dns_send_query` finds outside (a free buffer, a default device, the
result of `udp_send`) is an argument.

A compression pointer may lead back to itself, and `dns_parse_name` then never returns. Its loop
takes the number of rounds it may make, and `none` is the result of a call that needs more.
-/

namespace UintOS.Dns

open Network

/-- `dns_query_t`; the callback stands for itself and its `user_data`. -/
structure Query where
  hostname : CString
  id : UInt16
  timestamp : UInt32
  retryCount : ℕ
  callback : Option ℕ
  active : Bool
deriving DecidableEq, Repr

structure CacheEntry where
  hostname : CString
  ip : Ipv4Address
  ttl : UInt32
  timestamp : UInt32
  valid : Bool
deriving DecidableEq, Repr

/-- An index into `dns_queries`. -/
abbrev QuerySlot := Fin 8

/-- An index into `dns_cache`, of `DNS_MAX_CACHE_ENTRIES` entries. -/
abbrev CacheSlot := Fin 32

structure State where
  dnsServer : Ipv4Address
  cache : CacheSlot → CacheEntry
  queries : QuerySlot → Query
  nextQueryId : UInt16

/-- The state after `dns_init` and `dns_set_server`. -/
def init (server : Ipv4Address) : State where
  dnsServer := server
  cache := fun _ => ⟨[], ipAddrAny, 0, 0, false⟩
  queries := fun _ => ⟨[], 0, 0, 0, none, false⟩
  nextQueryId := 0

/-- A call of a callback, with the host name and the address, if any. -/
structure Invocation where
  callback : ℕ
  hostname : CString
  ip : Option Ipv4Address
deriving DecidableEq, Repr

def maxNameLength : ℕ := 255

def maxPacketSize : ℕ := 512

/-! ## The cache -/

inductive Cached
  | notFound
  | expired
  | valid (ip : Ipv4Address)
deriving DecidableEq, Repr

variable (s : State)

def getCached (hostname : CString) (now : UInt32) : Cached :=
  match Fin.find? fun i => (s.cache i).valid && decide ((s.cache i).hostname = hostname) with
  | none => .notFound
  | some i =>
    if (now - (s.cache i).timestamp) / 1000 < (s.cache i).ttl then .valid (s.cache i).ip
    else .expired

/-- The loop of `dns_cache_entry` for a slot; `clock i` is read at entry `i`. -/
def chooseSlot (cache : CacheSlot → CacheEntry) (hostname : CString) (clock : ℕ → UInt32) :
    List CacheSlot → (slot oldestSlot : Option CacheSlot) → (oldestTime : UInt32) → Option CacheSlot
  | [], slot, oldestSlot, _ => slot.or oldestSlot
  | i :: rest, slot, oldestSlot, oldestTime =>
    if (cache i).valid then
      if (cache i).hostname = hostname then some i
      else if oldestTime < clock i - (cache i).timestamp then
        chooseSlot cache hostname clock rest slot (some i) (clock i - (cache i).timestamp)
      else chooseSlot cache hostname clock rest slot oldestSlot oldestTime
    else chooseSlot cache hostname clock rest (slot.or (some i)) oldestSlot oldestTime

def cacheEntry (hostname : CString) (ip : Ipv4Address) (ttl : UInt32)
    (clock : ℕ → UInt32) : State :=
  match chooseSlot s.cache hostname clock (List.finRange 32) none none 0xFFFFFFFF with
  | none => s
  | some i =>
    { s with
      cache := Function.update s.cache i ⟨hostname.take maxNameLength, ip, ttl, clock 32, true⟩ }

/-! ## Sending a query -/

/-- `htons`, as the two bytes in the packet. -/
def bytes16 (x : UInt16) : List UInt8 := [(x >>> 8).toUInt8, x.toUInt8]

def dot : UInt8 := 46

/-- The loop of `dns_send_query` that writes the labels behind `packet`. Every round but
the last consumes the label and the dot behind it. -/
def encodeLabels : ℕ → CString → List UInt8 → Option (List UInt8)
  | 0, _, packet => some packet
  | rounds + 1, labelStart, packet =>
    if labelStart = [] then some packet
    else
      let label := labelStart.takeWhile (· ≠ dot)
      if maxPacketSize < packet.length + 1 + label.length then none
      else
        let packet := packet ++ UInt8.ofNat label.length :: label
        match labelStart.dropWhile (· ≠ dot) with
        | [] => some packet
        | _ :: rest => encodeLabels rounds rest packet

/-- The query `dns_send_query` builds, if the name fits. -/
def encodeQuery (hostname : CString) (id : UInt16) : Option (List UInt8) :=
  let header := bytes16 id ++ bytes16 0x0100 ++ bytes16 1 ++ [0, 0, 0, 0, 0, 0]
  match encodeLabels hostname.length hostname header with
  | none => none
  | some packet =>
    let packet := packet ++ [0]
    if maxPacketSize < packet.length + 4 then none
    else some (packet ++ bytes16 1 ++ bytes16 1)

/-- What `dns_send_query` meets outside the module. -/
structure Outside where
  buffer : Bool
  device : Bool
  udpSend : List UInt8 → Int

def sendQuery (hostname : CString) (id : UInt16) (out : Outside) : Int :=
  if hostname = [] then -1
  else if out.buffer = false then -1
  else
    match encodeQuery hostname id with
    | none => -1
    | some packet => if out.device = false then -1 else out.udpSend packet

/-! ## Queries -/

def getServer : Option Ipv4Address :=
  if ipAddrIsAny s.dnsServer then none else some s.dnsServer

def findFreeQuerySlot : Option QuerySlot :=
  Fin.find? fun i => !(s.queries i).active

def findActiveQuery (id : UInt16) : Option QuerySlot :=
  Fin.find? fun i => (s.queries i).active && decide ((s.queries i).id = id)

/-- The query `dns_lookup` puts in the slot; the identifier is counted on. -/
def startQuery (slot : QuerySlot) (hostname : CString) (callback : ℕ) (now : UInt32) : State :=
  { s with
    queries := Function.update s.queries slot
      ⟨hostname.take maxNameLength, s.nextQueryId, now, 0, some callback, true⟩
    nextQueryId := s.nextQueryId + 1 }

/-- `dns_lookup`: the state, the invocations and the result. -/
def lookup (hostname : Option CString) (callback : Option ℕ) (clock : ℕ → UInt32)
    (out : Outside) : State × List Invocation × Int :=
  match hostname, callback with
  | some hostname, some callback =>
    if getServer s = none then (s, [], -1)
    else
      match getCached s hostname (clock 0) with
      | .valid ip => (s, [⟨callback, hostname, some ip⟩], 0)
      | _ =>
        match findFreeQuerySlot s with
        | none => (s, [], -1)
        | some slot =>
          (startQuery s slot hostname callback (clock 1), [], sendQuery hostname s.nextQueryId out)
  | _, _ => (s, [], -1)

def completeQuery (i : QuerySlot) (ip : Option Ipv4Address) : State × List Invocation :=
  ({ s with queries := Function.update s.queries i { s.queries i with active := false } },
    ((s.queries i).callback.map fun c => ⟨c, (s.queries i).hostname, ip⟩).toList)

/-! ## Responses -/

variable (packet : List UInt8)

/-- `ntohs` of the two bytes at `offset`. -/
def read16 (offset : ℕ) : ℕ :=
  (packet.getD offset 0).toNat * 256 + (packet.getD (offset + 1) 0).toNat

/-- `ntohl` of the four bytes at `offset`. -/
def read32 (offset : ℕ) : ℕ :=
  read16 packet offset * 65536 + read16 packet (offset + 2)

/-- The loop that skips the name of a question; every round moves on. -/
def skipName (packet : List UInt8) : ℕ → ℕ → ℕ
  | 0, offset => offset
  | rounds + 1, offset =>
    if offset < packet.length then
      let len := packet.getD offset 0
      if len = 0 then offset + 1
      else if len &&& 0xC0 ≠ 0 then offset + 2
      else skipName packet rounds (offset + 1 + len.toNat)
    else offset

def skipQuestions (qdcount : ℕ) : ℕ :=
  (List.range qdcount).foldl (fun offset _ => skipName packet packet.length offset + 4) 12

/-- `dns_parse_name`: where the name ends, or the failure of the parser. `nameOffset` is the length
of the name so far and `nextOffset` the offset behind the first pointer. -/
def parseName (packet : List UInt8) :
    ℕ → (offset nameOffset : ℕ) → (nextOffset : Option ℕ) → Option (Except Unit ℕ)
  | 0, _, _, _ => none
  | rounds + 1, offset, nameOffset, nextOffset =>
    if packet.length ≤ offset then some (.ok (nextOffset.getD offset))
    else
      let len := packet.getD offset 0
      if len = 0 then some (.ok (nextOffset.getD (offset + 1)))
      else if len &&& 0xC0 ≠ 0 then
        if packet.length ≤ offset + 1 then some (.error ())
        else
          let pointer := (len &&& 0x3F).toNat * 256 + (packet.getD (offset + 1) 0).toNat
          if packet.length ≤ pointer then some (.error ())
          else parseName packet rounds pointer nameOffset (nextOffset.or (some (offset + 2)))
      else if packet.length < offset + 1 + len.toNat then some (.error ())
      else
        -- a dot goes before every label but the first
        let nameOffset' := if 0 < nameOffset then nameOffset + 1 else nameOffset
        if 0 < nameOffset ∧ maxNameLength + 1 ≤ nameOffset + 1 then some (.error ())
        else if maxNameLength + 1 ≤ nameOffset' + len.toNat then some (.error ())
        else parseName packet rounds (offset + 1 + len.toNat) (nameOffset' + len.toNat) nextOffset

/-- The loop over the answer section: the first address record and its time to live, or
`none` for a response with no usable one. -/
def findAnswer (packet : List UInt8) (rounds : ℕ) :
    (ancount offset : ℕ) → Option (Option (Ipv4Address × UInt32))
  | 0, _ => some none
  | n + 1, offset =>
    match parseName packet rounds offset 0 none with
    | none => none
    | some (.error _) => some none
    | some (.ok nameEnd) =>
      if packet.length < nameEnd + 10 then some none
      else
        let rdlength := read16 packet (nameEnd + 8)
        let data := nameEnd + 10
        if read16 packet nameEnd = 1 ∧ rdlength = 4 then
          if packet.length < data + 4 then some none
          else
            some (some (⟨packet.getD data 0, packet.getD (data + 1) 0, packet.getD (data + 2) 0,
              packet.getD (data + 3) 0⟩, UInt32.ofNat (read32 packet (nameEnd + 4))))
        else findAnswer packet rounds n (data + rdlength)

def responseId : UInt16 := UInt16.ofNat (read16 packet 0)

def responseFlags : UInt16 := UInt16.ofNat (read16 packet 2)

def answerOf (rounds : ℕ) : Option (Option (Ipv4Address × UInt32)) :=
  findAnswer packet rounds (read16 packet 6) (skipQuestions packet (read16 packet 4))

def processPacket (buffer : Option (List UInt8)) (clock : ℕ → UInt32) (rounds : ℕ) :
    Option (State × List Invocation × Int) :=
  match buffer with
  | none => some (s, [], -1)
  | some packet =>
    if packet.length < 12 then some (s, [], -1)
    else if responseFlags packet &&& 0x8000 = 0 then some (s, [], -1)
    else
      match findActiveQuery s (responseId packet) with
      | none => some (s, [], -1)
      | some i =>
        if responseFlags packet &&& 0x000F ≠ 0 then
          let done := completeQuery s i none
          some (done.1, done.2, -1)
        else
          match answerOf packet rounds with
          | none => none
          | some none =>
            let done := completeQuery s i none
            some (done.1, done.2, -1)
          | some (some (ip, ttl)) =>
            let done := completeQuery (cacheEntry s (s.queries i).hostname ip ttl clock) i (some ip)
            some (done.1, done.2, 0)

/-! ## The timer -/

/-- What `dns_client_task` does with one slot. The query a retry sends again changes
nothing here, and its result is not used. -/
def checkQuery (now : UInt32) (acc : State × List Invocation) (i : QuerySlot) :
    State × List Invocation :=
  let s := acc.1
  let query := s.queries i
  if query.active ∧ 3000 < now - query.timestamp then
    if query.retryCount < 2 then
      let again := { query with retryCount := query.retryCount + 1, timestamp := now }
      ({ s with queries := Function.update s.queries i again }, acc.2)
    else
      let done := completeQuery s i none
      (done.1, acc.2 ++ done.2)
  else acc

def clientTask (now : UInt32) : State × List Invocation :=
  (List.finRange 8).foldl (checkQuery now) (s, [])

end UintOS.Dns
