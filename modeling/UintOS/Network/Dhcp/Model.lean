import UintOS.Network.Basic

/-!
# The DHCP client

A model of `dhcp.c`: the configuration slots, the transaction identifier, the parser of the options,
`dhcp_start`, `dhcp_process_packet`, `dhcp_release`, `dhcp_get_config` and `dhcp_client_task`. A
device is a number, a pointer to it; `registered` is the device table of `network.c`, in which the
timer looks devices up by name. A slot has the `name` field that `dhcp.c` uses throughout.

What a message finds outside (a free buffer, the clock, the result of `udp_send`) is an argument,
and the functions return the messages they send.
-/

namespace UintOS.Dhcp

open Network

abbrev DeviceId := ℕ

structure Device where
  name : CString
  mac : MacAddress
  ip : Ipv4Address
  netmask : Ipv4Address
  gateway : Ipv4Address
deriving DecidableEq, Repr

/-- `DHCP_STATE_INIT` and the states after it. -/
inductive LeaseState
  | init
  | selecting
  | requesting
  | bound
  | renewing
  | rebinding
  | initReboot
  | rebooting
deriving DecidableEq, Repr

structure Config where
  name : CString
  ipAddress : Ipv4Address
  subnetMask : Ipv4Address
  gateway : Ipv4Address
  dnsServer : Ipv4Address
  leaseTime : UInt32
  renewalTime : UInt32
  rebindTime : UInt32
  serverId : Ipv4Address
  lastUpdate : UInt32
  state : LeaseState
deriving DecidableEq, Repr

def Config.zero : Config :=
  ⟨[], ipAddrAny, ipAddrAny, ipAddrAny, ipAddrAny, 0, 0, 0, ipAddrAny, 0, .init⟩

/-- An index into `dhcp_configs`, of `NET_MAX_DEVICES` slots. -/
abbrev Slot := Fin 8

structure State where
  devices : DeviceId → Device
  registered : List DeviceId
  configs : Slot → Config
  currentXid : UInt32

def init (devices : DeviceId → Device) (registered : List DeviceId) : State :=
  ⟨devices, registered, fun _ => Config.zero, 0⟩

variable (s : State) (name : CString)

def findDeviceByName : Option DeviceId :=
  s.registered.find? fun d => (s.devices d).name = name

/-- The loop that looks a device's slot up by its name. -/
def findConfig : Option Slot :=
  Fin.find? fun i => (s.configs i).name = name

def setConfig (i : Slot) (c : Config) : State :=
  { s with configs := Function.update s.configs i c }

def setState (i : Slot) (state : LeaseState) : State :=
  setConfig s i { s.configs i with state := state }

/-! ## Sending -/

/-- What a message finds outside: a buffer, the two readings of the clock in `dhcp_get_xid`,
the one for `last_update`, and the result of `udp_send`. -/
structure Outside where
  buffer : Bool
  time₁ : UInt32
  time₂ : UInt32
  update : UInt32
  result : Int

def getXid (out : Outside) : UInt32 := out.time₁ ^^^ (out.time₂ <<< 16)

inductive Body
  | discover
  | request (requestedIp serverId : Ipv4Address)
  | release (ciaddr serverId : Ipv4Address)
deriving DecidableEq, Repr

structure Message where
  device : DeviceId
  xid : UInt32
  chaddr : MacAddress
  body : Body
deriving DecidableEq, Repr

variable (dev : DeviceId)

/-- `dhcp_send_discover` and `dhcp_send_request`, which differ in the message and in the
state they put the device's slot in. -/
def sendMessage (body : Body) (state : LeaseState) (out : Outside) : State × Int × List Message :=
  if out.buffer = false then (s, -2, [])
  else
    let s₁ := { s with currentXid := getXid out }
    let s₂ :=
      match findConfig s₁ (s₁.devices dev).name with
      | none => s₁
      | some i => setConfig s₁ i { s₁.configs i with state := state, lastUpdate := out.update }
    (s₂, out.result, [⟨dev, getXid out, (s.devices dev).mac, body⟩])

def sendDiscover (out : Outside) : State × Int × List Message :=
  sendMessage s dev .discover .selecting out

def sendRequest (requestedIp serverId : Ipv4Address) (out : Outside) : State × Int × List Message :=
  sendMessage s dev (.request requestedIp serverId) .requesting out

def sendRelease (out : Outside) : State × Int × List Message :=
  match findConfig s (s.devices dev).name with
  | none => (s, -1, [])
  | some i =>
    if (s.configs i).state ≠ .bound then (s, -1, [])
    else if out.buffer = false then (s, -2, [])
    else
      (setState { s with currentXid := getXid out } i .init, out.result,
        [⟨dev, getXid out, (s.devices dev).mac,
          .release (s.configs i).ipAddress (s.configs i).serverId⟩])

def release (dev : Option DeviceId) (out : Outside) : State × Int × List Message :=
  match dev with
  | none => (s, -1, [])
  | some dev => sendRelease s dev out

/-! ## Starting -/

/-- The slot of `dhcp_start`: the one with the device's name, else the first with none. -/
def startSlot : Option Slot :=
  (findConfig s name).or (findConfig s [])

/-- `dhcp_start`; `now` is the clock for the new slot. -/
def start (dev : Option DeviceId) (now : UInt32) (out : Outside) : State × Int × List Message :=
  match dev with
  | none => (s, -1, [])
  | some dev =>
    match startSlot s (s.devices dev).name with
    | none => (s, -2, [])
    | some i =>
      sendDiscover
        (setConfig s i { Config.zero with name := (s.devices dev).name, lastUpdate := now }) dev out

/-! ## Replies -/

/-- The fields read of a `dhcp_message_t`, and the length of its buffer. -/
structure Reply where
  len : ℕ
  op : UInt8
  xid : UInt32
  yiaddr : Ipv4Address
  chaddr : MacAddress
  options : List UInt8
deriving DecidableEq, Repr

variable (options : List UInt8)

def addressAt (pos : ℕ) : Ipv4Address :=
  ⟨byteAt options pos, byteAt options (pos + 1), byteAt options (pos + 2), byteAt options (pos + 3)⟩

/-- The `switch` of `dhcp_parse_options` on one option. -/
def parseOption (opt len : UInt8) (pos : ℕ) (acc : Int × Config) : Int × Config :=
  let (msgType, c) := acc
  if opt = 53 then (if len = 1 then ((byteAt options pos).toNat, c) else acc)
  else if opt = 1 then (if len = 4 then
    (msgType, { c with subnetMask := addressAt options pos }) else acc)
  else if opt = 3 then (if 4 ≤ len then
    (msgType, { c with gateway := addressAt options pos }) else acc)
  else if opt = 6 then (if 4 ≤ len then
    (msgType, { c with dnsServer := addressAt options pos }) else acc)
  else if opt = 51 then
    if len = 4 then
      let lease := read32 options pos
      (msgType, { c with
        leaseTime := lease, renewalTime := lease / 2, rebindTime := lease - lease / 8 })
    else acc
  else if opt = 54 then (if len = 4 then
    (msgType, { c with serverId := addressAt options pos }) else acc)
  else acc

def maxOptionsLen : ℕ := 308

/-- The loop of `dhcp_parse_options`; every round moves on. -/
def parseLoop (options : List UInt8) : ℕ → ℕ → Int × Config → Int × Config
  | 0, _, acc => acc
  | rounds + 1, pos, acc =>
    if maxOptionsLen ≤ pos ∨ byteAt options pos = 255 then acc
    else if byteAt options pos = 0 then parseLoop options rounds (pos + 1) acc
    else if maxOptionsLen ≤ pos + 1 then acc
    else
      let len := byteAt options (pos + 1)
      if maxOptionsLen < pos + 2 + len.toNat then acc
      else
        parseLoop options rounds (pos + 2 + len.toNat)
          (parseOption options (byteAt options pos) len (pos + 2) acc)

/-- `dhcp_parse_options`: the message type, or `-1`, and the configuration. -/
def parseOptions (c : Config) : Int × Config :=
  if read32 options 0 ≠ 0x63825363 then (-1, c) else parseLoop options maxOptionsLen 4 (-1, c)

variable (msg : Reply)

/-- What a reply says: its message type and the configuration it offers. -/
def Reply.content : Int × Config :=
  parseOptions msg.options { Config.zero with ipAddress := msg.yiaddr }

def applyConfig (c : Config) : State :=
  { s with
    devices := Function.update s.devices dev
      { s.devices dev with ip := c.ipAddress, netmask := c.subnetMask, gateway := c.gateway } }

/-- The checks of `dhcp_process_packet` on the message itself. -/
def Reply.wellFormed : Prop := 236 ≤ msg.len ∧ msg.op = 2

instance : Decidable msg.wellFormed :=
  inferInstanceAs (Decidable (236 ≤ msg.len ∧ msg.op = 2))

/-- `dhcp_process_packet`; `out.update` is also the clock for an `ACK`. -/
def processPacket (dev : Option DeviceId) (buffer : Option Reply) (out : Outside) :
    State × Int × List Message :=
  match dev, buffer with
  | some dev, some msg =>
    if ¬ msg.wellFormed then (s, -1, [])
    else if msg.xid ≠ s.currentXid then (s, -1, [])
    else if msg.chaddr ≠ (s.devices dev).mac then (s, -1, [])
    else
      match findConfig s (s.devices dev).name with
      | none => (s, -1, [])
      | some i =>
        let (msgType, c) := msg.content
        if msgType = 2 then
          if (s.configs i).state = .selecting then sendRequest s dev c.ipAddress c.serverId out
          else (s, 0, [])
        else if msgType = 5 then
          let c := { c with state := .bound, lastUpdate := out.update }
          (applyConfig (setConfig s i c) dev c, 0, [])
        else if msgType = 6 then sendDiscover (setState s i .init) dev out
        else (s, -1, [])
  | _, _ => (s, -1, [])

def getConfig : Option Config :=
  (findConfig s (s.devices dev).name).map s.configs

/-! ## The timer -/

def broadcast : Ipv4Address := ⟨255, 255, 255, 255⟩

/-- The device loses its address when the lease expires. -/
def clearDevice : State :=
  applyConfig s dev Config.zero

/-- What `dhcp_client_task` does for a device with the slot `i`. -/
def checkLease (i : Slot) (dev : DeviceId) (now : UInt32) (out : Outside) :
    State × Int × List Message :=
  let c := s.configs i
  let elapsedMs := now - c.lastUpdate
  let elapsedSec := elapsedMs / 1000
  match c.state with
  | .selecting => if 5000 < elapsedMs then sendDiscover s dev out else (s, 0, [])
  | .requesting =>
    if 5000 < elapsedMs then sendDiscover (setState s i .init) dev out else (s, 0, [])
  | .bound =>
    if c.renewalTime ≤ elapsedSec then
      sendRequest (setState s i .renewing) dev c.ipAddress c.serverId out
    else (s, 0, [])
  | .renewing =>
    if c.rebindTime ≤ elapsedSec then
      sendRequest (setState s i .rebinding) dev c.ipAddress broadcast out
    else if (elapsedSec - c.renewalTime) % 60 = 0 then
      sendRequest s dev c.ipAddress c.serverId out
    else (s, 0, [])
  | .rebinding =>
    if c.leaseTime ≤ elapsedSec then
      sendDiscover (clearDevice (setState s i .init) dev) dev out
    else if (elapsedSec - c.rebindTime) % 60 = 0 then
      sendRequest s dev c.ipAddress broadcast out
    else (s, 0, [])
  | _ => (s, 0, [])

/-- One round of the loop of `dhcp_client_task`. -/
def checkSlot (now : UInt32) (out : Slot → Outside) (acc : State × List Message) (i : Slot) :
    State × List Message :=
  if (acc.1.configs i).name = [] then acc
  else
    match findDeviceByName acc.1 (acc.1.configs i).name with
    | none => acc
    | some dev =>
      let r := checkLease acc.1 i dev now (out i)
      (r.1, acc.2 ++ r.2.2)

def clientTask (now : UInt32) (out : Slot → Outside) : State × List Message :=
  (List.finRange 8).foldl (checkSlot now out) (s, [])

/-! ## Requests -/

inductive Request
  | start (dev : Option DeviceId) (now : UInt32) (out : Outside)
  | release (dev : Option DeviceId) (out : Outside)
  | packet (dev : Option DeviceId) (buffer : Option Reply) (out : Outside)
  | tick (now : UInt32) (out : Slot → Outside)

def perform : Request → State × List Message
  | .start dev now out => ((start s dev now out).1, (start s dev now out).2.2)
  | .release dev out => ((release s dev out).1, (release s dev out).2.2)
  | .packet dev buffer out =>
    ((processPacket s dev buffer out).1, (processPacket s dev buffer out).2.2)
  | .tick now out => clientTask s now out

def step (r : Request) : Option State := some (perform s r).1

end UintOS.Dhcp
