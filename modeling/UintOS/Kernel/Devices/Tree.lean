import UintOS.Kernel.Devices.Records
import UintOS.Library.RootedTree
import UintOS.Library.Runs

/-!
# The device tree

The parents of the registered devices lead to the root, and a device is among the children of its
parent and of no other. This stays so as long as a new device has a name that the manager can keep
apart, the array of its parent can grow where it has to, and no device with children is
unregistered: `device_unregister` makes the root their parent, but does not add them to its
children, and leaves the pointer to the freed array.
-/

namespace UintOS.Devices

open Function GrowableArray Option RootedTree Runs SlotTable

/-! ## The tree -/

structure DeviceTree (s : Manager) : Prop where
  count : s.numDevices = used s.devices
  terminated : ∀ d, Mem s.devices d → (s.device d).name.Terminated
  names : Distinct (fun d => (s.device d).name.string) s.devices
  parents : ∀ d p, Mem s.devices d → ((s.device d).parent = some p ↔
    Mem s.devices p ∧ (s.device p).childList.count (some d) = 1)
  arrays : ∀ p, Mem s.devices p → ∀ array, (s.device p).children = some array →
    (s.device p).numChildren ≤ array.capacity ∧ array.freed = false
  reaches : ∀ d, Mem s.devices d → Reaches (fun d => (s.device d).parent) rootDevice d

/-- The children of a device are those that have it as their parent, and a device that is not
registered has no array. -/
structure Consistent (s : Manager) : Prop where
  count : s.numDevices = used s.devices
  terminated : ∀ d, Mem s.devices d → (s.device d).name.Terminated
  names : Distinct (fun d => (s.device d).name.string) s.devices
  tree : IsTree (Mem s.devices) (fun d => (s.device d).parent) rootDevice
  nodup : ∀ p, Mem s.devices p → (s.device p).childList.Nodup
  children : ∀ p, Mem s.devices p → ∀ d,
    some d ∈ (s.device p).childList ↔ Mem s.devices d ∧ (s.device d).parent = some p
  sound : ∀ p, (s.device p).Sound
  idle : ∀ p, ¬ Mem s.devices p → (s.device p).children = none

theorem Consistent.deviceTree {s : Manager} (h : Consistent s) : DeviceTree s where
  count := h.count
  terminated := h.terminated
  names := h.names
  parents d p hd := by
    constructor
    · intro hparent
      have hp := h.tree.parent_mem d p hd hparent
      exact ⟨hp, List.count_eq_one_of_mem (h.nodup p hp) ((h.children p hp d).mpr ⟨hd, hparent⟩)⟩
    · rintro ⟨hp, hcount⟩
      have hmem : some d ∈ (s.device p).childList := List.count_pos_iff.mp (by omega)
      exact ((h.children p hp d).mp hmem).2
  arrays p _ array harray := by
    obtain ⟨hfreed, hroom⟩ := h.sound p array harray
    exact ⟨hroom.le, hfreed⟩
  reaches := h.tree.reaches

/-! ## A device is added -/

/-- The device is in the table and among its parent's children, and all else is as before. -/
structure Added (s t : Manager) (i : Fin 256) (dev parent : DevicePtr) (name : Name)
    (alloc : Bool) :
    Prop where
  devices : t.devices = update s.devices i (some dev)
  numDevices : t.numDevices = s.numDevices + 1
  name_eq : (t.device dev).name = name
  parent_eq : (t.device dev).parent = some parent
  children_eq : (t.device dev).children = (s.device dev).children
  device_parent : t.device parent = (deviceAddChild (s.device parent) dev alloc).1
  device_other : ∀ d, d ≠ dev → d ≠ parent → t.device d = s.device d

/-- Nothing but the record of the device has changed, which is not registered. -/
structure Refused (s t : Manager) (dev : DevicePtr) : Prop where
  devices : t.devices = s.devices
  numDevices : t.numDevices = s.numDevices
  children_eq : (t.device dev).children = (s.device dev).children
  device_other : ∀ d, d ≠ dev → t.device d = s.device d

section Register

variable {s t : Manager} {dev d : DevicePtr} {name : Name} {id : UInt32} {parent : Option DevicePtr}
  {alloc : Bool}

theorem ne_of_mem (hd : Mem s.devices d) (hdev : ¬ Mem s.devices dev) : d ≠ dev := by
  rintro rfl
  exact hdev hd

/-- The record of a device that is not in the table does not matter for the names. -/
theorem resolveName_setDevice (hdev : ¬ Mem s.devices dev) (d : Device) :
    resolveName (s.setDevice dev d) id name = resolveName s id name := by
  have hconflicts : ∀ n i, conflicts (s.setDevice dev d) n i = conflicts s n i := by
    intro n i
    unfold conflicts
    cases hi : s.devices i with
    | none => simp [Manager.setDevice, hi]
    | some e => simp [Manager.setDevice, hi, ne_of_mem ⟨i, hi⟩ hdev]
  have hstep : resolveStep (s.setDevice dev d) id = resolveStep s id := by
    funext name i
    simp only [resolveStep, hconflicts]
  simp only [resolveName, hstep]
  rfl

def registeredId (s : Manager) (id : UInt32) : UInt32 := if id = 0 then s.nextId else id

@[simp] theorem setDevice_self (d : Device) : (s.setDevice dev d).device dev = d :=
  update_self ..

@[simp] theorem setDevice_of_ne {e : DevicePtr} (h : e ≠ dev) (d : Device) :
    (s.setDevice dev d).device e = s.device e :=
  update_of_ne h ..

@[simp] theorem setDevice_devices (d : Device) : (s.setDevice dev d).devices = s.devices := rfl

@[simp] theorem setDevice_numDevices (d : Device) :
    (s.setDevice dev d).numDevices = s.numDevices := rfl

theorem linkParent_eq (hroot : dev ≠ rootDevice) {q : DevicePtr}
    (hq : (s.device dev).parent.getD rootDevice = q) (hne : q ≠ dev) :
    linkParent s dev alloc =
      (s.setDevice dev { s.device dev with parent := some q }).setDevice q
        (deviceAddChild (s.device q) dev alloc).1 := by
  cases hparent : (s.device dev).parent with
  | none =>
    subst hq
    simp [linkParent, hparent, hroot, hroot.symm]
  | some p =>
    subst hq
    have hsame : s.setDevice dev { s.device dev with parent := some p } = s := by
      rw [← hparent]
      simp [Manager.setDevice]
    simp only [linkParent, hparent, getD_some, hsame]

theorem setPath_eq (s : Manager) (dev : DevicePtr) :
    ∃ path, setPath s dev = s.setDevice dev { s.device dev with path := path } := by
  have hsame : s = s.setDevice dev { s.device dev with path := (s.device dev).path } := by
    simp [Manager.setDevice]
  unfold setPath
  split
  · split
    · exact ⟨_, rfl⟩
    · exact ⟨_, hsame⟩
  · exact ⟨_, hsame⟩

theorem deviceRegister_cases {d : Device} (hdev : ¬ Mem s.devices dev) (hroot : dev ≠ rootDevice)
    {q : DevicePtr} (hq : d.parent.getD rootDevice = q) (hne : q ≠ dev)
    (hkids : d.children = (s.device dev).children) :
    let t := (deviceRegister (s.setDevice dev d) (some dev) alloc).1
    Refused s t dev ∨ ∃ i, s.devices i = none ∧
      Added s t i dev q (resolveName s (registeredId s d.id) d.name) alloc := by
  have hid : (assignId (s.setDevice dev d) dev).1 = registeredId s d.id := by
    simp only [assignId, registeredId, setDevice_self, hroot, ne_eq, not_false_eq_true, and_true]
    split <;> rfl
  intro t
  by_cases hfull : s.numDevices ≥ 256
  · left
    have ht : t = s.setDevice dev d := by
      simp [t, deviceRegister, hfull]
    rw [ht]
    exact ⟨rfl, rfl, by simpa using hkids, fun e he => setDevice_of_ne he d⟩
  · cases hfree : firstFree s.devices with
    | none =>
      left
      simp only [t, deviceRegister, setDevice_numDevices, if_neg hfull, setDevice_devices, hfree]
      refine ⟨rfl, rfl, by simpa using hkids, fun e he => ?_⟩
      simp [he]
    | some i =>
      right
      refine ⟨i, firstFree_some hfree, ?_⟩
      simp only [t, deviceRegister, setDevice_numDevices, if_neg hfull, setDevice_devices, hfree,
        hid, setDevice_self, resolveName_setDevice hdev]
      obtain ⟨path, hpath⟩ := setPath_eq (linkParent _ dev alloc) dev
      rw [hpath, linkParent_eq hroot (q := q) (by simpa using hq) hne]
      constructor
      · rfl
      · rfl
      · simp [hne.symm]
      · simp [hne.symm]
      · simpa [hne.symm] using hkids
      · simp [hne]
      · intro e he heq
        simp [he, heq]

theorem step_register_cases (hroot : Mem s.devices rootDevice)
    (h : step s (.register dev name id parent alloc) = some t) :
    ¬ Mem s.devices dev ∧ Mem s.devices (parent.getD rootDevice) ∧
      (Refused s t dev ∨ ∃ i, s.devices i = none ∧
        Added s t i dev (parent.getD rootDevice)
          (resolveName s (registeredId s id) name) alloc) := by
  simp only [step] at h
  split at h
  · rename_i hcall
    obtain ⟨hdev, hparent⟩ := hcall
    obtain rfl := some.inj h
    have hmem : Mem s.devices (parent.getD rootDevice) := by
      cases parent with
      | none => exact hroot
      | some p => exact hparent p rfl
    exact ⟨hdev, hmem, deviceRegister_cases hdev (ne_of_mem hroot hdev).symm rfl
      (ne_of_mem hmem hdev) rfl⟩
  · cases h

section Added

variable {t : Manager} {i : Fin 256} {q : DevicePtr}

section

variable (hadded : Added s t i dev q name alloc)
include hadded

theorem Added.mem_iff (hi : s.devices i = none)
    (d : DevicePtr) : Mem t.devices d ↔ d = dev ∨ Mem s.devices d := by
  rw [hadded.devices]
  exact mem_fill hi

variable (h : Consistent s) (hdev : ¬ Mem s.devices dev) (hq : Mem s.devices q)
  (halloc : (s.device q).needsArray = true → alloc = true)
include h hdev hq halloc

theorem Added.parent_spec :
    (t.device q).name = (s.device q).name ∧ (t.device q).parent = (s.device q).parent ∧
      (t.device q).childList = (s.device q).childList ++ [some dev] ∧ (t.device q).Sound := by
  rw [hadded.device_parent]
  apply deviceAddChild_spec (h.sound q) _ halloc
  intro hmem
  exact hdev ((h.children q hq dev).mp hmem).1

theorem Added.kept (hd : Mem s.devices d) :
    (t.device d).name = (s.device d).name ∧ (t.device d).parent = (s.device d).parent := by
  by_cases hdq : d = q
  · subst hdq
    obtain ⟨hname, hparent, -, -⟩ := hadded.parent_spec h hdev hq halloc
    exact ⟨hname, hparent⟩
  · rw [hadded.device_other d (ne_of_mem hd hdev) hdq]
    exact ⟨rfl, rfl⟩

theorem Added.mem_childList (hi : s.devices i = none) {p : DevicePtr} (hp : Mem s.devices p)
    (d : DevicePtr) : some d ∈ (t.device p).childList ↔
      Mem t.devices d ∧ (t.device d).parent = some p := by
  have hlist : some d ∈ (t.device p).childList ↔
      some d ∈ (s.device p).childList ∨ p = q ∧ d = dev := by
    by_cases hpq : p = q
    · subst hpq
      rw [(hadded.parent_spec h hdev hq halloc).2.2.1]
      simp
    · rw [hadded.device_other p (ne_of_mem hp hdev) hpq]
      simp [hpq]
  rw [hlist, h.children p hp d, hadded.mem_iff hi d]
  constructor
  · rintro (⟨hd, hparent⟩ | ⟨rfl, rfl⟩)
    · exact ⟨.inr hd, (hadded.kept h hdev hq halloc hd).2.trans hparent⟩
    · exact ⟨.inl rfl, hadded.parent_eq⟩
  · rintro ⟨rfl | hd, hparent⟩
    · rw [hadded.parent_eq] at hparent
      exact .inr ⟨(some.inj hparent).symm, rfl⟩
    · exact .inl ⟨hd, (hadded.kept h hdev hq halloc hd).2.symm.trans hparent⟩

end

theorem Consistent.added (h : Consistent s) (hi : s.devices i = none) (hdev : ¬ Mem s.devices dev)
    (hq : Mem s.devices q) (hadded : Added s t i dev q name alloc) (hterminated : name.Terminated)
    (hname : ∀ d, Mem s.devices d → (s.device d).name.string ≠ name.string)
    (halloc : (s.device q).needsArray = true → alloc = true) : Consistent t := by
  obtain ⟨-, -, hqlist, hqsound⟩ := hadded.parent_spec h hdev hq halloc
  have hmem := hadded.mem_iff hi
  have hkept := fun d (hd : Mem s.devices d) => hadded.kept h hdev hq halloc hd
  have htree := h.tree.attach hq hmem hadded.parent_eq fun d hd => (hkept d hd).2
  have hempty : (t.device dev).children = none := hadded.children_eq.trans (h.idle dev hdev)
  constructor
  · rw [hadded.devices, hadded.numDevices, used_fill hi, h.count]
  · intro d hd
    rcases (hmem d).mp hd with rfl | hd
    · rw [hadded.name_eq]
      exact hterminated
    · rw [(hkept d hd).1]
      exact h.terminated d hd
  · rw [hadded.devices]
    have hold : Distinct (fun d => (t.device d).name.string) s.devices :=
      h.names.congr fun d hd => by rw [(hkept d hd).1]
    apply hold.fill
    intro d hd
    rw [(hkept d hd).1, hadded.name_eq]
    exact hname d hd
  · exact htree
  · intro p hp
    rcases (hmem p).mp hp with rfl | hp
    · rw [Device.childList_of_none hempty]
      exact List.nodup_nil
    · by_cases hpq : p = q
      · subst hpq
        have hnew : some dev ∉ (s.device p).childList := fun hchild =>
          hdev ((h.children p hp dev).mp hchild).1
        rw [hqlist]
        exact (h.nodup p hp).append (List.nodup_singleton _) (by simpa using hnew)
      · rw [hadded.device_other p (ne_of_mem hp hdev) hpq]
        exact h.nodup p hp
  · intro p hp d
    rcases (hmem p).mp hp with rfl | hp
    · -- no device has the new one as its parent
      rw [Device.childList_of_none hempty]
      refine iff_of_false List.not_mem_nil ?_
      rintro ⟨hd, hparent⟩
      rcases (hmem d).mp hd with rfl | hd
      · rw [hadded.parent_eq] at hparent
        exact ne_of_mem hq hdev (some.inj hparent)
      · rw [(hkept d hd).2] at hparent
        exact hdev (h.tree.parent_mem d p hd hparent)
    · exact hadded.mem_childList h hdev hq halloc hi hp d
  · intro p
    by_cases hpdev : p = dev
    · subst hpdev
      exact Device.sound_of_none hempty
    · by_cases hpq : p = q
      · subst hpq
        exact hqsound
      · rw [hadded.device_other p hpdev hpq]
        exact h.sound p
  · intro p hp
    rw [hmem, not_or] at hp
    rw [hadded.device_other p hp.1 (ne_of_mem hq hp.2).symm]
    exact h.idle p hp.2

end Added

theorem Consistent.refused (h : Consistent s) (hdev : ¬ Mem s.devices dev)
    (hrefused : Refused s t dev) : Consistent t := by
  have hsame : ∀ d, Mem s.devices d → t.device d = s.device d := fun d hd =>
    hrefused.device_other d (ne_of_mem hd hdev)
  have hempty : (t.device dev).children = none := hrefused.children_eq.trans (h.idle dev hdev)
  have hnone : ∀ p, ¬ Mem s.devices p → (t.device p).children = none := by
    intro p hp
    by_cases hpdev : p = dev
    · rw [hpdev]
      exact hempty
    · rw [hrefused.device_other p hpdev]
      exact h.idle p hp
  constructor
  · rw [hrefused.devices, hrefused.numDevices]
    exact h.count
  · intro d hd
    rw [hrefused.devices] at hd
    rw [hsame d hd]
    exact h.terminated d hd
  · rw [hrefused.devices]
    exact h.names.congr fun d hd => by rw [hsame d hd]
  · rw [hrefused.devices]
    exact h.tree.congr fun d hd => by rw [hsame d hd]
  · intro p hp
    rw [hrefused.devices] at hp
    rw [hsame p hp]
    exact h.nodup p hp
  · intro p hp d
    rw [hrefused.devices] at hp ⊢
    rw [hsame p hp, h.children p hp d]
    exact and_congr_right fun hd => by rw [hsame d hd]
  · intro p
    by_cases hp : Mem s.devices p
    · rw [hsame p hp]
      exact h.sound p
    · exact Device.sound_of_none (hnone p hp)
  · intro p hp
    rw [hrefused.devices] at hp
    exact hnone p hp

end Register

/-! ## A device is removed -/

/-- The device is in no slot, and not among its parent's children; all else is as before. -/
structure Removed (s t : Manager) (i : Fin 256) (dev parent : DevicePtr) : Prop where
  devices : t.devices = update s.devices i none
  numDevices : t.numDevices = s.numDevices - 1
  device_parent : t.device parent = (deviceRemoveChild (s.device parent) dev).1
  device_other : ∀ d, d ≠ parent → t.device d = s.device d

section Unregister

variable {s t : Manager} {dev : DevicePtr}

theorem deviceUnregister_cases (hkids : Mem s.devices dev → (s.device dev).children = none) :
    (¬ Mem s.devices dev ∧ (deviceUnregister s (some dev)).1 = s) ∨
      ∃ i, s.devices i = some dev ∧ ∀ q, (s.device dev).parent = some q →
        Removed s (deviceUnregister s (some dev)).1 i dev q := by
  cases hslot : slotOf s.devices dev with
  | none =>
    left
    exact ⟨slotOf_none hslot, by simp [deviceUnregister, hslot]⟩
  | some i =>
    right
    have hi := slotOf_some hslot
    refine ⟨i, hi, fun q hq => ?_⟩
    have hrelease : releaseChildren s dev = s := by
      rw [releaseChildren, hkids ⟨i, hi⟩]
    simp only [deviceUnregister, hslot, hrelease, hq]
    constructor
    · rfl
    · rfl
    · exact setDevice_self _
    · intro d hd
      exact setDevice_of_ne hd _

theorem Consistent.removed {i : Fin 256} {q : DevicePtr} (h : Consistent s)
    (hi : s.devices i = some dev) (hroot : dev ≠ rootDevice)
    (hkids : (s.device dev).children = none) (hq : (s.device dev).parent = some q)
    (hremoved : Removed s t i dev q) : Consistent t := by
  have hdev : Mem s.devices dev := ⟨i, hi⟩
  have hqmem := h.tree.parent_mem dev q hdev hq
  have hleaf : ∀ d, Mem s.devices d → (s.device d).parent ≠ some dev := by
    intro d hd hparent
    have hmem := (h.children dev hdev d).mpr ⟨hd, hparent⟩
    rw [Device.childList_of_none hkids] at hmem
    cases hmem
  have hqdev : q ≠ dev := by
    rintro rfl
    exact hleaf q hdev hq
  obtain ⟨hqname, hqparent, hqlist, hqsound⟩ := deviceRemoveChild_spec (h.sound q) (h.nodup q hqmem)
    ((h.children q hqmem dev).mpr ⟨hdev, hq⟩)
  simp only [← hremoved.device_parent] at hqname hqparent hqlist hqsound
  have hmem : ∀ d, Mem t.devices d ↔ Mem s.devices d ∧ d ≠ dev := by
    intro d
    rw [hremoved.devices]
    constructor
    · intro hd
      refine ⟨mem_of_mem_clear hd, ?_⟩
      rintro rfl
      exact h.names.not_mem_clear hi hd
    · rintro ⟨hd, hne⟩
      exact mem_clear hi hd hne
  have hkept : ∀ d, (t.device d).name = (s.device d).name ∧
      (t.device d).parent = (s.device d).parent := by
    intro d
    by_cases hdq : d = q
    · subst hdq
      exact ⟨hqname, hqparent⟩
    · rw [hremoved.device_other d hdq]
      exact ⟨rfl, rfl⟩
  constructor
  · have hused := used_clear hi
    rw [hremoved.devices, hremoved.numDevices, h.count]
    omega
  · intro d hd
    rw [(hkept d).1]
    exact h.terminated d ((hmem d).mp hd).1
  · rw [hremoved.devices]
    exact (h.names.congr fun d _ => by rw [(hkept d).1]).clear
  · exact h.tree.detach hroot hleaf hmem fun d _ => (hkept d).2
  · intro p hp
    have hnodup := h.nodup p ((hmem p).mp hp).1
    by_cases hpq : p = q
    · subst hpq
      rw [hqlist]
      exact hnodup.erase _
    · rwa [hremoved.device_other p hpq]
  · intro p hp d
    have hp := ((hmem p).mp hp).1
    rw [hmem d, (hkept d).2, and_right_comm, ← h.children p hp d]
    by_cases hpq : p = q
    · subst hpq
      rw [hqlist, (h.nodup p hp).mem_erase_iff, and_comm]
      simp
    · rw [hremoved.device_other p hpq]
      refine (and_iff_left_of_imp fun hchild => ?_).symm
      rintro rfl
      rw [((h.children p hp d).mp hchild).2] at hq
      exact hpq (some.inj hq)
  · intro p
    by_cases hpq : p = q
    · subst hpq
      exact hqsound
    · rw [hremoved.device_other p hpq]
      exact h.sound p
  · intro p hp
    rw [hmem, not_and_not_right] at hp
    by_cases hpdev : p = dev
    · subst hpdev
      rw [hremoved.device_other p hqdev.symm]
      exact hkids
    · have hnot : ¬ Mem s.devices p := fun hp' => hpdev (hp hp')
      rw [hremoved.device_other p (ne_of_mem hqmem hnot).symm]
      exact h.idle p hnot

end Unregister

/-! ## Runs -/

/-- A device is registered with a name that is terminated and can be kept apart, and its parent gets
the memory for one more child if needed; an unregistered device has no children. -/
def Orderly (s : Manager) : Call → Prop
  | .register _ name id parent alloc =>
    name.Terminated ∧ Separable s (registeredId s id) name ∧
      ((s.device (parent.getD rootDevice)).needsArray = true → alloc = true)
  | .unregister dev => Mem s.devices dev → (s.device dev).children.isNone = true

instance decidableOrderly (s : Manager) : (c : Call) → Decidable (Orderly s c)
  | .register .. => inferInstanceAs (Decidable (_ ∧ _ ∧ (_ → _)))
  | .unregister _ => inferInstanceAs (Decidable (_ → _))

theorem consistent_step (s : Manager) (c : Call) (t : Manager) (h : Consistent s)
    (horderly : Orderly s c) (hstep : step s c = some t) : Consistent t := by
  cases c with
  | register dev name id parent alloc =>
    obtain ⟨hterminated, hseparable, halloc⟩ := horderly
    obtain ⟨hdev, hparent, hrefused | ⟨i, hi, hadded⟩⟩ :=
      step_register_cases h.tree.root_mem hstep
    · exact h.refused hdev hrefused
    · obtain ⟨hname, hfr⟩ := resolveName_spec hterminated hseparable
      exact h.added hi hdev hparent hadded hname hfr halloc
  | unregister dev =>
    simp only [step] at hstep
    split at hstep
    · cases hstep
    · rename_i hroot
      obtain rfl := some.inj hstep
      have hkids : Mem s.devices dev → (s.device dev).children = none := fun hdev =>
        isNone_iff_eq_none.mp (horderly hdev)
      rcases deviceUnregister_cases hkids with ⟨-, hsame⟩ | ⟨i, hi, hremoved⟩
      · rwa [hsame]
      · obtain ⟨q, hq, -⟩ := h.tree.exists_parent ⟨i, hi⟩ hroot
        exact h.removed hi hroot (hkids ⟨i, hi⟩) hq (hremoved q hq)

theorem deviceManagerInit_devices :
    deviceManagerInit.devices = update (fun _ => none) 0 (some rootDevice) := rfl

theorem deviceManagerInit_children (d : DevicePtr) :
    (deviceManagerInit.device d).children = none := by
  by_cases hd : d = rootDevice
  · subst hd
    rfl
  · have hzero : deviceManagerInit.device d = zeroDevice := by
      have hfree : firstFree (fun _ => none : Fin 256 → Option DevicePtr) = some 0 := rfl
      simp [deviceManagerInit, deviceRegister, hfree, linkParent, setPath, zeroDevice, hd]
    rw [hzero]
    rfl

theorem consistent_init : Consistent deviceManagerInit := by
  have hmem : ∀ d, Mem deviceManagerInit.devices d ↔ d = rootDevice := by
    intro d
    rw [deviceManagerInit_devices, mem_fill rfl]
    refine or_iff_left ?_
    rintro ⟨i, hi⟩
    cases hi
  have hnone := deviceManagerInit_children
  constructor
  · rw [deviceManagerInit_devices, used_fill rfl, used_empty]
    rfl
  · intro d hd
    rw [(hmem d).mp hd]
    decide
  · rw [deviceManagerInit_devices]
    apply Distinct.fill
    · rintro i j a b ⟨⟩
    · rintro d ⟨i, ⟨⟩⟩
  · exact isTree_singleton rfl hmem
  · intro p _
    rw [Device.childList_of_none (hnone p)]
    exact List.nodup_nil
  · intro p _ d
    rw [Device.childList_of_none (hnone p)]
    refine iff_of_false List.not_mem_nil ?_
    rintro ⟨hd, hparent⟩
    rw [(hmem d).mp hd] at hparent
    cases hparent
  · intro p
    exact Device.sound_of_none (hnone p)
  · intro p _
    exact hnone p

/-- In every run of orderly calls the devices are always a tree. -/
theorem devices_stay_tree (calls : List Call) (h : Meets step Orderly deviceManagerInit calls) :
    Throughout step DeviceTree deviceManagerInit calls :=
  (throughout_of_meets step consistent_step consistent_init h).imp step fun _ =>
    Consistent.deviceTree

/-- A bus, a device on it registered twice, and a second bus with the name of the first. -/
theorem devices_on_buses_stay_tree :
    let calls : List Call := [.register 1 (strncpy [98, 117, 115]) 0 none true,
      .register 2 (strncpy [100]) 0 (some 1) true,
        .register 3 (strncpy [98, 117, 115]) 0 none false,
      .unregister 2, .register 2 (strncpy [100]) 2 (some 3) true, .unregister 1]
    Meets step Orderly deviceManagerInit calls ∧
      Throughout step DeviceTree deviceManagerInit calls := by
  intro calls
  have hmeets : Meets step Orderly deviceManagerInit calls := by decide +kernel
  exact ⟨hmeets, devices_stay_tree calls hmeets⟩

/-- A bus, and a device on it; the bus is unregistered. -/
def busGoesAway : List Call := [.register 1 (strncpy [98, 117, 115]) 0 none true,
  .register 2 (strncpy [100]) 0 (some 1) true, .unregister 1]

theorem busGoesAway_isSome : (exec step deviceManagerInit busGoesAway).isSome = true := by
  decide +kernel

/-- The device gets the root as parent, but is not among its children. -/
theorem device_loses_bus :
    ∃ t, exec step deviceManagerInit busGoesAway = some t ∧ ¬ DeviceTree t := by
  refine ⟨_, (some_get busGoesAway_isSome).symm, ?_⟩
  intro h
  have hparents := (h.parents 2 rootDevice (by decide +kernel)).mp (by decide +kernel)
  exact absurd hparents.2 (by decide +kernel)

end UintOS.Devices
