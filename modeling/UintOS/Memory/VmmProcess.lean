import UintOS.Library.Machine

/-!
# Address spaces of processes

`vmm_add_region` of `memory/vmm.c`, and `vmm_share_memory` of `memory/vmm_process.c`, which adds two
regions without taking back the first. An address space is its list of regions; a process is a slot
of `process_spaces`. Page directories and log messages are left out.
-/

namespace UintOS.VmmProcess

open Machine Function

/-- The `VM_TYPE_*` that are used here. -/
inductive RegionType
  | user
  | stack
  | heap
  | shared
  | module
deriving DecidableEq, Repr

structure Region where
  start : ℕ
  stop : ℕ
  flags : ℕ
  type : RegionType
  name : String
deriving DecidableEq, Repr

def pageSize : ℕ := 4096

/-- The test for an overlap: a region meets the addresses from `start` to `stop`. -/
def Overlaps (regions : List Region) (start stop : ℕ) : Prop :=
  ∃ r ∈ regions, start < r.stop ∧ r.start < stop

instance (regions : List Region) (start stop : ℕ) : Decidable (Overlaps regions start stop) :=
  List.decidableBEx ..

/-- `vmm_add_region`; `memory` says whether `heap_alloc` returns a block. -/
def vmmAddRegion (memory : Bool) (regions : List Region) (start stop flags : ℕ) (type : RegionType)
    (name : String) : Option (List Region) :=
  let start := start / pageSize * pageSize
  let stop := add32 stop (pageSize - 1) / pageSize * pageSize
  if Overlaps regions start stop then none
  else if memory then some (⟨start, stop, flags, type, name⟩ :: regions)
  else none

/-- `process_spaces`, of `MAX_PROCESSES` entries. -/
abbrev Spaces := Fin 256 → Option (List Region)

def processSlot (id : ℤ) : Option (Fin 256) :=
  if h : 0 ≤ id ∧ id < 256 then some ⟨id.toNat, by omega⟩ else none

/-! ## Sharing memory between two processes -/

/-- The region that `vmm_share_memory` adds to a process. -/
def addShared (memory : Bool) (spaces : Spaces) (p : Fin 256) (addr size flags : ℕ)
    (name : String) :
    Spaces × Bool :=
  let start := addr / pageSize * pageSize
  let pages := add32 size (pageSize - 1) / pageSize * pageSize
  match vmmAddRegion memory ((spaces p).getD []) start (add32 start pages) (flags ||| 0x200) .shared
      name with
  | none => (spaces, false)
  | some regions => (update spaces p (some regions), true)

def vmmShareMemory (memory : Bool × Bool) (spaces : Spaces) (sourceProc : ℤ) (sourceAddr : ℕ)
    (targetProc : ℤ) (targetAddr size flags : ℕ) : Spaces × ℤ :=
  match processSlot sourceProc, processSlot targetProc with
  | some source, some target =>
    if (spaces source).isNone || (spaces target).isNone then (spaces, -1)
    else
      let added := addShared memory.1 spaces source sourceAddr size flags "shared_source"
      let added' := addShared memory.2 added.1 target targetAddr size flags "shared_target"
      (added'.1, if added.2 && added'.2 then 0 else -1)
  | _, _ => (spaces, -1)

/-- Nothing is in the way of a shared region: there is memory, and it meets no region. -/
def Fits (memory : Bool) (spaces : Spaces) (p : Fin 256) (addr size : ℕ) : Prop :=
  let start := addr / pageSize * pageSize
  let stop := add32 start (add32 size (pageSize - 1) / pageSize * pageSize)
  ¬ Overlaps ((spaces p).getD []) (start / pageSize * pageSize)
    (add32 stop (pageSize - 1) / pageSize * pageSize) ∧ memory = true

theorem addShared_spec (memory : Bool) (spaces : Spaces) (p : Fin 256) (addr size flags : ℕ)
    (name : String) : let added := addShared memory spaces p addr size flags name
    (Fits memory spaces p addr size ∧
      ∃ r, added = (update spaces p (some (r :: (spaces p).getD [])), true)) ∨
    (¬ Fits memory spaces p addr size ∧ added = (spaces, false)) := by
  simp only [addShared, vmmAddRegion, Fits]
  split_ifs with hover hmemory
  · exact .inr ⟨fun h => h.1 hover, rfl⟩
  · exact .inl ⟨⟨hover, hmemory⟩, _, rfl⟩
  · exact .inr ⟨fun h => hmemory h.2, rfl⟩

theorem grown_ne (spaces : Spaces) (p : Fin 256) (r : Region) :
    update spaces p (some (r :: (spaces p).getD [])) ≠ spaces := by
  intro h
  have hp := congrFun h p
  rw [update_self] at hp
  rw [← hp] at hp
  simp at hp

theorem addShared_twice (memory : Bool × Bool) (spaces : Spaces) (source target : Fin 256)
    (sourceAddr targetAddr size flags : ℕ) :
    let added := addShared memory.1 spaces source sourceAddr size flags "shared_source"
    let added' := addShared memory.2 added.1 target targetAddr size flags "shared_target"
    ((added.2 && added'.2) = false → added'.1 = spaces) ↔
      (Fits memory.1 spaces source sourceAddr size ↔
        Fits memory.2 added.1 target targetAddr size) := by
  intro added added'
  have hfirst := addShared_spec memory.1 spaces source sourceAddr size flags "shared_source"
  have hsecond := addShared_spec memory.2 added.1 target targetAddr size flags "shared_target"
  change (_ ∧ ∃ r, added = _) ∨ (_ ∧ added = _) at hfirst
  change (_ ∧ ∃ r, added' = _) ∨ (_ ∧ added' = _) at hsecond
  rcases hfirst with ⟨hfit, r, hadded⟩ | ⟨hfit, hadded⟩ <;>
    rcases hsecond with ⟨hfit', r', hadded'⟩ | ⟨hfit', hadded'⟩
  · exact iff_of_true (by simp [hadded, hadded']) (iff_of_true hfit hfit')
  · refine iff_of_false (fun h => grown_ne spaces source r ?_) fun h => hfit' (h.mp hfit)
    simpa [hadded, hadded'] using h
  · refine iff_of_false (fun h => grown_ne spaces target r' ?_) fun h => hfit (h.mpr hfit')
    simpa [hadded, hadded'] using h
  · exact iff_of_true (by simp [hadded, hadded']) (iff_of_false hfit hfit')

theorem share_memory_atomic_iff (memory : Bool × Bool) (spaces : Spaces) (sourceProc : ℤ)
    (sourceAddr : ℕ) (targetProc : ℤ) (targetAddr size flags : ℕ) :
    let shared := vmmShareMemory memory spaces sourceProc sourceAddr targetProc
      targetAddr size flags
    (shared.2 = -1 → shared.1 = spaces) ↔
      ∀ source target, processSlot sourceProc = some source → processSlot targetProc = some target →
        spaces source ≠ none → spaces target ≠ none → (Fits memory.1 spaces source sourceAddr size ↔
            Fits memory.2 (addShared memory.1 spaces source sourceAddr size flags "shared_source").1
              target targetAddr size) := by
  intro shared
  unfold shared vmmShareMemory
  cases hs : processSlot sourceProc with
  | none => simp
  | some source =>
    cases ht : processSlot targetProc with
    | none => simp
    | some target =>
      simp only [Option.some.injEq]
      by_cases hnone : (spaces source).isNone || (spaces target).isNone
      · rw [if_pos hnone]
        refine iff_of_true (fun _ => rfl) ?_
        rintro _ _ rfl rfl hsource htarget
        simp [hsource, htarget] at hnone
      · have htwice := addShared_twice memory spaces source target sourceAddr targetAddr size flags
        rw [if_neg hnone]
        rw [Bool.or_eq_true, Option.isNone_iff_eq_none, Option.isNone_iff_eq_none, not_or] at hnone
        constructor
        · rintro h _ _ rfl rfl - -
          exact htwice.mp fun hfail => h (by rw [hfail]; rfl)
        · intro h hfail
          refine htwice.mpr (h _ _ rfl rfl hnone.1 hnone.2) (Bool.eq_false_iff.mpr fun hok => ?_)
          rw [hok] at hfail
          cases hfail

/-- A process of a program, and one with a page of its own at `0x5000`. -/
def twoProcesses : Spaces :=
  update (update (fun _ => none) 1 (some [])) 2 (some [⟨0x5000, 0x6000, 0xB, .heap, "heap"⟩])

/-- The source keeps its new region when the target's addresses are taken. -/
theorem source_keeps_region :
    let shared := vmmShareMemory (true, true) twoProcesses 1 0x1000 2 0x5000 0x1000 0xB
    shared.2 = -1 ∧ shared.1 1 = some [⟨0x1000, 0x2000, 0x20B, .shared, "shared_source"⟩] ∧
      twoProcesses 1 = some [] := by
  decide

end UintOS.VmmProcess
