import UintOS.Library.GrowableArray
import UintOS.Library.SlotTable

/-!
# The device manager

A model of `device_manager.c`: the table of devices, and the tree of parents and arrays of children.
A device is known by its address. The array of children is part of its device, as no other pointer
to it is made; that it was freed is noted in it. No driver is registered, and `remove` functions
leave the tree alone.
-/

namespace UintOS.Devices

open SlotTable GrowableArray

abbrev DevicePtr := ℕ

inductive Status
  | ok
  | errorInvalid
  | errorNoDevice
  | errorResource
deriving DecidableEq, Repr

/-! ## Names -/

/-- The field `name`. -/
structure Name where
  bytes : List UInt8
  length_bytes : bytes.length = 32
deriving DecidableEq

variable (name : Name)

def Name.string : List UInt8 := name.bytes.takeWhile (· ≠ 0)

def Name.Terminated : Prop := 0 ∈ name.bytes

instance : Decidable name.Terminated := inferInstanceAs (Decidable (0 ∈ name.bytes))

/-- `strncpy` to a name. It fills the field up with zeros. -/
def strncpy (src : List UInt8) : Name where
  bytes := src.take 32 ++ List.replicate (32 - src.length) 0
  length_bytes := by
    rw [List.length_append, List.length_take, List.length_replicate]
    omega

/-- A number as `%u` prints it. -/
def digits (id : UInt32) : List UInt8 := (Nat.toDigits 10 id.toNat).map fun c => UInt8.ofNat c.toNat

/-- `snprintf` with `"%s_%u"`, to 32 bytes. -/
def withId (name : List UInt8) (id : UInt32) : List UInt8 := (name ++ 95 :: digits id).take 31

/-! ## Devices and their children -/

/-- An array of children; what was not written is null. -/
structure ChildArray where
  capacity : ℕ
  cells : ℕ → Option DevicePtr
  freed : Bool

/-- `device_t`, as far as the manager uses it. -/
structure Device where
  name : Name
  path : List UInt8
  id : UInt32
  parent : Option DevicePtr
  children : Option ChildArray
  numChildren : ℕ

def Device.childList (d : Device) : List (Option DevicePtr) :=
  match d.children with
  | none => []
  | some array => contents array.cells d.numChildren

/-- `parent->children[parent->num_children++] = child`. -/
def Device.store (p : Device) (array : ChildArray) (child : DevicePtr) : Device :=
  { p with
    children := some { array with cells := Function.update array.cells p.numChildren (some child) }
    numChildren := p.numChildren + 1 }

/-- The array that `device_add_child` grows to; `memcpy` copies the cells in use. -/
def ChildArray.grown (array : ChildArray) (n : ℕ) : ChildArray :=
  ⟨n + 4, fun i => if i < n then array.cells i else none, false⟩

/-- `device_add_child`, on the parent's record; `alloc` is the success of `heap_alloc`. -/
def deviceAddChild (p : Device) (child : DevicePtr) (alloc : Bool) : Device × Status :=
  match p.children with
  | none =>
    if !alloc then (p, .errorResource)
    else ({ p with numChildren := 0 }.store ⟨4, fun _ => none, false⟩ child, .ok)
  | some array =>
    if some child ∈ contents array.cells p.numChildren then (p, .ok)
    else if p.numChildren % 4 = 0 then
      if !alloc then (p, .errorResource)
      else (p.store (array.grown p.numChildren) child, .ok)
    else (p.store array child, .ok)

/-- `device_remove_child`, on the parent's record. -/
def deviceRemoveChild (p : Device) (child : DevicePtr) : Device × Status :=
  match p.children with
  | none => (p, .errorInvalid)
  | some array =>
    match (List.range p.numChildren).find? fun i => array.cells i = some child with
    | none => (p, .errorNoDevice)
    | some found =>
      let cells := shift array.cells found p.numChildren
      if p.numChildren - 1 = 0 then ({ p with children := none, numChildren := 0 }, .ok)
      else
        ({ p with
          children := some { array with cells := cells }
          numChildren := p.numChildren - 1 }, .ok)

/-! ## The manager -/

structure Manager where
  devices : Fin 256 → Option DevicePtr
  numDevices : ℕ
  device : DevicePtr → Device
  nextId : UInt32

/-- The device that `device_init_root` allocates. -/
def rootDevice : DevicePtr := 0

variable (s : Manager) (dev : DevicePtr)

def Manager.setDevice (d : Device) : Manager :=
  { s with device := Function.update s.device dev d }

def conflicts (name : List UInt8) (i : Fin 256) : Bool :=
  match s.devices i with
  | none => false
  | some d => (s.device d).name.string = name

/-- One round of the loop that looks for the name. -/
def resolveStep (id : UInt32) (name : Name) (i : Fin 256) : Name :=
  if conflicts s name.string i then strncpy (withId name.string id) else name

/-- The loop over the first `num_devices` slots. -/
def resolveName (id : UInt32) (name : Name) : Name :=
  ((List.finRange 256).filter fun i => i.val < s.numDevices).foldl (resolveStep s id) name

/-- The number of a device, and the next one: `generate_device_id` if it has none. -/
def assignId : UInt32 × UInt32 :=
  if (s.device dev).id = 0 ∧ dev ≠ rootDevice then (s.nextId, s.nextId + 1)
  else ((s.device dev).id, s.nextId)

/-- The device is added to its parent, by default the root. -/
def linkParent (alloc : Bool) : Manager :=
  match (s.device dev).parent with
  | some parent => s.setDevice parent (deviceAddChild (s.device parent) dev alloc).1
  | none =>
    if dev ≠ rootDevice then
      let s := s.setDevice dev { s.device dev with parent := some rootDevice }
      s.setDevice rootDevice (deviceAddChild (s.device rootDevice) dev alloc).1
    else s

def setPath : Manager :=
  match (s.device dev).parent with
  | some parent =>
    if dev ≠ rootDevice then
      s.setDevice dev { s.device dev with
        path := ((s.device parent).path ++ 47 :: (s.device dev).name.string).take 63 }
    else s
  | none => s

def deviceRegister (dev : Option DevicePtr) (alloc : Bool) : Manager × Status :=
  match dev with
  | none => (s, .errorInvalid)
  | some dev =>
    if s.numDevices ≥ 256 then (s, .errorResource)
    else
      let (id, nextId) := assignId s dev
      let name := resolveName s id (s.device dev).name
      let s := { s.setDevice dev { s.device dev with id := id, name := name } with
        nextId := nextId }
      match firstFree s.devices with
      | none => (s, .errorResource)
      | some i =>
        let s := { s with
          devices := Function.update s.devices i (some dev)
          numDevices := s.numDevices + 1 }
        (setPath (linkParent s dev alloc) dev, .ok)

/-- A child of a device that goes away gets the root as parent. -/
def adoptChild (s : Manager) (child : Option DevicePtr) : Manager :=
  match child with
  | none => s
  | some child =>
    if (s.device child).parent = some dev then
      s.setDevice child { s.device child with parent := some rootDevice }
    else s

/-- The children get another parent and their array is freed; the pointer to it stays. -/
def releaseChildren : Manager :=
  match (s.device dev).children with
  | none => s
  | some array =>
    let s := (contents array.cells (s.device dev).numChildren).foldl (adoptChild dev) s
    s.setDevice dev { s.device dev with children := some { array with freed := true } }

def deviceUnregister (dev : Option DevicePtr) : Manager × Status :=
  match dev with
  | none => (s, .errorInvalid)
  | some dev =>
    match slotOf s.devices dev with
    | none => (s, .errorNoDevice)
    | some i =>
      let s := releaseChildren s dev
      let s :=
        match (s.device dev).parent with
        | none => s
        | some parent => s.setDevice parent (deviceRemoveChild (s.device parent) dev).1
      ({ s with
        devices := Function.update s.devices i none
        numDevices := s.numDevices - 1 }, .ok)

def zeroDevice : Device := ⟨strncpy [], [], 0, none, none, 0⟩

/-- `device_manager_init`, where the root can be allocated: its name is `system`, its path `/`. -/
def deviceManagerInit : Manager :=
  let root := { zeroDevice with name := strncpy [115, 121, 115, 116, 101, 109], path := [47] }
  (deviceRegister ⟨fun _ => none, 0, Function.update (fun _ => zeroDevice) rootDevice root, 1⟩
    (some rootDevice) true).1

/-- The calls. Before a device is registered, its name, number and parent are set. -/
inductive Call
  | register (dev : DevicePtr) (name : Name) (id : UInt32) (parent : Option DevicePtr)
    (alloc : Bool)
  | unregister (dev : DevicePtr)

/-- A call. A registered device is not registered again, and its parent is registered or null; the
root is never unregistered. -/
def step : Call → Option Manager
  | .register dev name id parent alloc =>
    if ¬ Mem s.devices dev ∧ ∀ p ∈ parent, Mem s.devices p then
      some (deviceRegister
        (s.setDevice dev { s.device dev with name := name, id := id, parent := parent }) (some dev)
        alloc).1
    else none
  | .unregister dev => if dev = rootDevice then none else some (deviceUnregister s (some dev)).1

end UintOS.Devices
