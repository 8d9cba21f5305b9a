import UintOS.Kernel.Devices.Manager
import Mathlib.Data.List.TakeWhile

/-!
# Names and children of devices

What `device_register` makes of a name, and `device_add_child` and `device_remove_child` of the
children of a device. The loop over the names reaches the first `num_devices` slots only, of which
some may be empty, and does not look again at those it has passed when it has changed the name.
-/

namespace UintOS.Devices

open SlotTable GrowableArray

/-! ## Names -/

theorem zero_notMem_string (name : Name) : 0 ∉ name.string := by
  intro h
  exact absurd (List.mem_takeWhile_imp h) (by decide)

theorem zero_notMem_digits (id : UInt32) : 0 ∉ digits id := by
  intro h
  obtain ⟨c, hc, hzero⟩ := List.mem_map.mp h
  have hdigit := Nat.isDigit_of_mem_toDigits (by decide) (by decide) hc
  simp only [Char.isDigit, Bool.and_eq_true, decide_eq_true_eq, ge_iff_le, UInt32.le_iff_toNat_le]
    at hdigit
  have hnat := congrArg UInt8.toNat hzero
  simp only [UInt8.toNat_ofNat', UInt8.toNat_zero, Char.toNat] at hnat
  have h48 : (48 : UInt32).toNat = 48 := rfl
  have h57 : (57 : UInt32).toNat = 57 := rfl
  simp only [Char.reduceVal] at hdigit
  omega

theorem zero_notMem_withId {name : List UInt8} (h : 0 ∉ name) (id : UInt32) :
    0 ∉ withId name id := by
  intro hmem
  rcases List.mem_append.mp (List.mem_of_mem_take hmem) with hname | hrest
  · exact h hname
  · rcases List.mem_cons.mp hrest with heq | hdigits
    · exact absurd heq (by decide)
    · exact zero_notMem_digits id hdigits

theorem length_withId (name : List UInt8) (id : UInt32) : (withId name id).length ≤ 31 := by
  rw [withId, List.length_take]
  exact Nat.min_le_left _ _

section Strncpy

variable {src : List UInt8}

theorem strncpy_terminated (hlen : src.length ≤ 31) : (strncpy src).Terminated := by
  apply List.mem_append_right
  rw [List.mem_replicate]
  exact ⟨by omega, rfl⟩

theorem strncpy_string (hlen : src.length ≤ 31) (hzero : 0 ∉ src) :
    (strncpy src).string = src := by
  have hall : ∀ b ∈ src, decide (b ≠ 0) = true := by
    intro b hb
    rw [decide_eq_true_eq]
    rintro rfl
    exact hzero hb
  have hbytes : (strncpy src).bytes = src ++ List.replicate (32 - src.length) 0 := by
    change src.take 32 ++ _ = _
    rw [List.take_of_length_le (by omega)]
  rw [Name.string, hbytes, List.takeWhile_append_of_pos hall]
  simp

end Strncpy

section Resolve

variable {s : Manager} {id : UInt32} {name : Name} {l : List (Fin 256)} {i : Fin 256}

theorem conflicts_iff {n : List UInt8} :
    conflicts s n i = true ↔ ∃ d, s.devices i = some d ∧ (s.device d).name.string = n := by
  unfold conflicts
  cases h : s.devices i with
  | none => simp
  | some d => simp

/-- The manager can keep the name apart: no device has it, or one in a slot that the loop reaches,
and none has the name with the number appended. -/
def Separable (s : Manager) (id : UInt32) (name : Name) : Prop :=
  (∀ d, Mem s.devices d → (s.device d).name.string ≠ name.string) ∨
    (∃ i : Fin 256, i.val < s.numDevices ∧ conflicts s name.string i = true) ∧
      ∀ d, Mem s.devices d → (s.device d).name.string ≠ withId name.string id

instance : Decidable (Separable s id name) := inferInstanceAs (Decidable (_ ∨ _))

theorem foldl_resolveStep_fresh
    (h : ∀ i, conflicts s name.string i = false) : l.foldl (resolveStep s id) name = name := by
  induction l with
  | nil => rfl
  | cons i l ih => simp [resolveStep, h, ih]

/-- The name is changed at the first slot that has it, and not again. -/
theorem foldl_resolveStep_renamed (hi : i ∈ l) (hconflict : conflicts s name.string i = true)
    (hfr : ∀ j, conflicts s (strncpy (withId name.string id)).string j = false) :
    l.foldl (resolveStep s id) name = strncpy (withId name.string id) := by
  induction l with
  | nil => cases hi
  | cons j l ih =>
    rw [List.foldl_cons]
    by_cases hj : conflicts s name.string j = true
    · rw [resolveStep, if_pos hj, foldl_resolveStep_fresh hfr]
    · rw [resolveStep, if_neg hj]
      apply ih
      rcases List.mem_cons.mp hi with rfl | hi
      · exact absurd hconflict hj
      · exact hi

/-- The name that a device gets is terminated, and its own. -/
theorem resolveName_spec (hterminated : name.Terminated) (h : Separable s id name) :
    (resolveName s id name).Terminated ∧
      ∀ d, Mem s.devices d → (s.device d).name.string ≠ (resolveName s id name).string := by
  have hclear : ∀ {n : List UInt8}, (∀ d, Mem s.devices d → (s.device d).name.string ≠ n) →
      ∀ i, conflicts s n i = false := by
    intro n hn i
    rw [Bool.eq_false_iff]
    intro hconflict
    obtain ⟨d, hd, heq⟩ := conflicts_iff.mp hconflict
    exact hn d ⟨i, hd⟩ heq
  rcases h with hfr | ⟨⟨i, hi, hconflict⟩, hfr⟩
  · have hname : resolveName s id name = name := foldl_resolveStep_fresh (hclear hfr)
    rw [hname]
    exact ⟨hterminated, hfr⟩
  · have hstring : (strncpy (withId name.string id)).string = withId name.string id :=
      strncpy_string (length_withId _ _) (zero_notMem_withId (zero_notMem_string name) id)
    have hname : resolveName s id name = strncpy (withId name.string id) := by
      refine foldl_resolveStep_renamed (i := i) ?_ hconflict ?_
      · exact List.mem_filter.mpr ⟨List.mem_finRange i, by simpa using hi⟩
      · rw [hstring]
        exact hclear hfr
    rw [hname, hstring]
    exact ⟨strncpy_terminated (length_withId _ _), hfr⟩

end Resolve

/-! ## Children -/

section Children

variable {p : Device} {child : DevicePtr} {alloc : Bool}

/-- The array of children has not been freed, and has room. -/
def Device.Sound (d : Device) : Prop :=
  ∀ array, d.children = some array → array.freed = false ∧ Room 4 d.numChildren array.capacity

def Device.needsArray (p : Device) : Bool := p.children.isNone || p.numChildren % 4 = 0

theorem Device.sound_of_none (h : p.children = none) : p.Sound := by
  intro array harray
  rw [h] at harray
  cases harray

theorem Device.childList_of_none (h : p.children = none) : p.childList = [] := by
  rw [Device.childList, h]

section

variable (hsound : p.Sound) (hnew : some child ∉ p.childList)
    (halloc : p.needsArray = true → alloc = true)
include hsound hnew halloc

/-- A new child is stored behind the others, in an array with room for it. -/
theorem deviceAddChild_eq :
    ∃ array n, (deviceAddChild p child alloc).1 = { p with numChildren := n }.store array child ∧
      contents array.cells n = p.childList ∧ array.freed = false ∧
      Room 4 (n + 1) array.capacity := by
  cases hkids : p.children with
  | none =>
    have halloc : alloc = true := halloc (by simp [Device.needsArray, hkids])
    refine ⟨⟨4, fun _ => none, false⟩, 0, ?_, ?_, rfl, room_grow (by decide) (by decide)⟩
    · simp [deviceAddChild, hkids, halloc]
    · rw [Device.childList_of_none hkids, contents_zero]
  | some array =>
    obtain ⟨hfreed, hroom⟩ := hsound array hkids
    have hlist : p.childList = contents array.cells p.numChildren := by
      rw [Device.childList, hkids]
    rw [hlist] at hnew ⊢
    by_cases hfull : p.numChildren % 4 = 0
    · have halloc : alloc = true := halloc (by simp [Device.needsArray, hfull])
      refine ⟨array.grown p.numChildren, p.numChildren, ?_, ?_, rfl, room_grow (by decide) hfull⟩
      · rw [deviceAddChild, hkids]
        simp only [if_neg hnew, if_pos hfull, halloc, Bool.not_true, Bool.false_eq_true, if_false]
        rfl
      · exact contents_congr fun i hi => if_pos hi
    · refine ⟨array, p.numChildren, ?_, rfl, hfreed, hroom.push hfull⟩
      rw [deviceAddChild, hkids]
      simp only [if_neg hnew, if_neg hfull]
      rfl

theorem deviceAddChild_spec :
    let q := (deviceAddChild p child alloc).1
    q.name = p.name ∧ q.parent = p.parent ∧ q.childList = p.childList ++ [some child] ∧
      q.Sound := by
  obtain ⟨array, n, heq, hcont, hfreed, hroom⟩ := deviceAddChild_eq hsound hnew halloc
  intro q
  have hq : q = { p with numChildren := n }.store array child := heq
  rw [hq]
  refine ⟨rfl, rfl, ?_, ?_⟩
  · rw [← hcont]
    exact contents_store
  · rintro _ ⟨⟩
    exact ⟨hfreed, hroom⟩

end

theorem deviceRemoveChild_spec (hsound : p.Sound) (hnodup : p.childList.Nodup)
    (hmem : some child ∈ p.childList) : let q := (deviceRemoveChild p child).1
    q.name = p.name ∧ q.parent = p.parent ∧ q.childList = p.childList.erase (some child) ∧
      q.Sound := by
  cases hkids : p.children with
  | none =>
    rw [Device.childList_of_none hkids] at hmem
    cases hmem
  | some array =>
    obtain ⟨hfreed, hroom⟩ := hsound array hkids
    have hlist : p.childList = contents array.cells p.numChildren := by
      rw [Device.childList, hkids]
    rw [hlist] at hnodup hmem ⊢
    cases hfind : (List.range p.numChildren).find? fun i => array.cells i = some child with
    | none =>
      obtain ⟨i, hi, heq⟩ := List.mem_map.mp hmem
      exact absurd heq (by simpa using List.find?_eq_none.mp hfind i hi)
    | some found =>
      have hcell : array.cells found = some child := by simpa using List.find?_some hfind
      have hlt : found < p.numChildren := List.mem_range.mp (List.mem_of_find?_eq_some hfind)
      have herase : (contents array.cells p.numChildren).erase (some child) =
          contents (shift array.cells found p.numChildren) (p.numChildren - 1) := by
        have hbound : found < (contents array.cells p.numChildren).length := by simpa using hlt
        have hget : (contents array.cells p.numChildren)[found] = some child := by
          simpa [contents] using hcell
        rw [contents_shift hlt, ← hget]
        exact hnodup.erase_getElem found hbound
      rw [herase]
      by_cases hlast : p.numChildren - 1 = 0
      · simp only [deviceRemoveChild, hkids, hfind, if_pos hlast]
        refine ⟨trivial, trivial, ?_, Device.sound_of_none rfl⟩
        rw [hlast, contents_zero, Device.childList_of_none rfl]
      · simp only [deviceRemoveChild, hkids, hfind, if_neg hlast]
        refine ⟨trivial, trivial, rfl, ?_⟩
        rintro _ ⟨⟩
        exact ⟨hfreed, hroom.mono (Nat.sub_le _ _)⟩

end Children

end UintOS.Devices
