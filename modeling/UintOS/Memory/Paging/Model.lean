import UintOS.Library.PageTable
import UintOS.Library.Loops
import UintOS.Library.Runs

/-!
# Paging

`memory/paging.c`: the physical page allocator, the page tables of the current address space,
address-space creation and cloning, and the copy-on-write fault handler. Page directories, page
tables and the page-information array at 1 MiB live in byte memory, so that a store through one of
them is seen by all. The kernel dereferences physical addresses directly. Log messages, the mutex
(re-entrant) and the TLB are left out; an address of `0` returned by an allocation is `NULL`.
-/

namespace UintOS.PageManager

open Machine PageTable

def pageFree : UInt8 := 0
def pageUsed : UInt8 := 1
def pageReserved : UInt8 := 2

def pageSize : ℕ := 4096
def pageFlagPresent : ℕ := 0x01
def pageFlagWritable : ℕ := 0x02
def pageFlagUser : ℕ := 0x04
def pageFlagGlobal : ℕ := 0x100
def maxProtectedRegions : ℕ := 32
def pageDirectoryEntries : ℕ := 1024
def pageTableEntries : ℕ := 1024

structure ProtectedRegion where
  start : ℕ
  stop : ℕ
  flags : ℕ
  name : String

structure MemoryStats where
  pagesAllocated : ℕ
  pagesFreed : ℕ
  addressSpaceSwitches : ℕ
  pageFaults : ℕ
  cowFaultsHandled : ℕ
  demandPagesLoaded : ℕ

/-- Physical memory, the static variables of `paging.c` and `current_process_id`. -/
structure Paging where
  mem : ℕ → UInt8
  currentPageDirectory : ℕ
  shadowPageDirectory : ℕ → ℕ
  totalPages : ℕ
  freePages : ℕ
  protectedRegions : List ProtectedRegion
  currentProcessId : ℕ
  stats : MemoryStats

/-- Address of `page_info_array[k]`: `state` at 0, `references` at 2, `flags` at 4, `owner_pid` at
8. -/
def pageInfo (k : ℕ) : ℕ := 0x100000 + 12 * k

namespace Paging

variable (s : Paging)

def pageState (k : ℕ) : UInt8 := s.mem (pageInfo k)
def references (k : ℕ) : ℕ := read16 s.mem (pageInfo k + 2)

def setState (k : ℕ) (v : UInt8) : Paging :=
  { s with mem := fill s.mem (pageInfo k) 1 v }

def setReferences (k v : ℕ) : Paging := { s with mem := write16 s.mem (pageInfo k + 2) v }

def setFlags (k v : ℕ) : Paging := { s with mem := write32 s.mem (pageInfo k + 4) v }

def setOwner (k v : ℕ) : Paging := { s with mem := write32 s.mem (pageInfo k + 8) v }

/-- `memset(page, 0, n)`. -/
def zero (a n : ℕ) : Paging := { s with mem := fill s.mem a n 0 }

def dirEntry (i : ℕ) : ℕ := entry s.mem s.currentPageDirectory i

def writeEntry (table i e : ℕ) : Paging := { s with mem := setEntry s.mem table i e }

end Paging

variable (s : Paging)

def getProtectedRegion (addr : ℕ) : Option ProtectedRegion :=
  s.protectedRegions.find? fun r => r.start ≤ addr && addr < r.stop

def protectRegion (start stop flags : ℕ) (name : String) : Paging × ℤ :=
  if maxProtectedRegions ≤ s.protectedRegions.length then (s, -1)
  else ({ s with protectedRegions := s.protectedRegions ++ [⟨start, stop, flags, name⟩] }, 0)

/-- One round of the reservation loop of `paging_init`. -/
def reservePage (i : ℕ) : Paging :=
  let s₁ := (s.setState i pageReserved).setFlags i (pageFlagPresent + pageFlagGlobal)
  { s₁ with freePages := sub32 s₁.freePages 1 }

/-- One round of the two mapping loops of `paging_init`: a table at `tables + i * PAGE_SIZE`
that maps the `i`-th 4 MiB, entered in the directory at `index + i`. -/
def identityTable (tables index : ℕ) (s : Paging) (i : ℕ) : Paging :=
  let table := tables + i * pageSize
  let s₁ := s.zero table 4096
  let s₂ := { s₁ with
    mem := storeWords s₁.mem table pageTableEntries fun j =>
      (i * pageTableEntries + j) * pageSize +
        (pageFlagPresent + pageFlagWritable + pageFlagGlobal) }
  s₂.writeEntry s₂.currentPageDirectory (index + i) (table + (pageFlagPresent + pageFlagWritable))

/-- `paging_init` with `memsize` bytes of memory of arbitrary contents. -/
def pagingInit (mem : ℕ → UInt8) (memsize processId : ℕ) : Paging :=
  let total := memsize / pageSize
  let s₀ : Paging :=
    { mem := fill mem 0x100000 (12 * total) 0
      currentPageDirectory := 0, shadowPageDirectory := fun _ => 0, totalPages := total
      freePages := total, protectedRegions := [], currentProcessId := processId
      stats := ⟨0, 0, 0, 0, 0, 0⟩ }
  let s₁ := (List.range 256).foldl reservePage s₀
  let s₂ := { s₁ with currentPageDirectory := 0x1000 }.zero 0x1000 4096
  let s₃ := (List.range 4).foldl (identityTable 0x2000 0) s₂
  let s₄ := (List.range 4).foldl (identityTable 0x6000 768) s₃
  let s₅ := (protectRegion s₄ 0x0 0x1000 pageFlagPresent "Null guard page").1
  let s₆ := (protectRegion s₅ 0x1000 0xA000 (pageFlagPresent + pageFlagGlobal)
    "Kernel page tables").1
  (protectRegion s₆ 0x100000 0x200000 (pageFlagPresent + pageFlagWritable + pageFlagGlobal)
    "Kernel code & data").1

/-- A page is marked as used, with one reference, by the current process. -/
def claimPage (i : ℕ) : Paging :=
  let s₁ := ((s.setState i pageUsed).setReferences i 1).setFlags i
    (pageFlagPresent + pageFlagWritable)
  if s₁.currentProcessId ≠ 0 then s₁.setOwner i s₁.currentProcessId else s₁

def noteAllocated (num : ℕ) : Paging :=
  { s with
    freePages := sub32 s.freePages num
    stats := { s.stats with pagesAllocated := add32 s.stats.pagesAllocated num } }

/-- The first page whose state is `PAGE_FREE`. -/
def findFreePage : Option ℕ :=
  (List.range s.totalPages).find? fun i => s.pageState i == pageFree

def allocatePage : Paging × ℕ :=
  match findFreePage s with
  | none => (s, 0)
  | some i => ((noteAllocated (claimPage s i) 1).zero (i * pageSize) pageSize, i * pageSize)

/-- The tail of `free_page`: the page becomes free and is cleared. -/
def releasePage (page : ℕ) : Paging :=
  let k := page / pageSize
  let s₁ := (((s.setState k pageFree).setReferences k 0).setFlags k 0).setOwner k 0
  let s₂ := { s₁ with
    freePages := add32 s₁.freePages 1
    stats := { s₁.stats with pagesFreed := add32 s₁.stats.pagesFreed 1 } }
  s₂.zero page pageSize

def freePage (page : ℕ) : Paging :=
  let k := page / pageSize
  if s.totalPages ≤ k then s
  else if s.pageState k = pageFree then s
  else if (getProtectedRegion s page).isSome then s
  else if 1 < s.references k then s.setReferences k (s.references k - 1)
  else releasePage s page

/-- The search of `allocate_pages` for `num` consecutive free pages. -/
def findRun (s : Paging) (num : ℕ) : List ℕ → ℕ → ℕ → Option ℕ
  | [], _, _ => none
  | i :: is, start, found =>
    if s.pageState i = pageFree then
      let start := if found = 0 then i else start
      if found + 1 = num then some start else findRun s num is start (found + 1)
    else findRun s num is start 0

def allocatePages (num : ℕ) : Paging × ℕ :=
  if num = 0 then (s, 0)
  else if num = 1 then allocatePage s
  else if s.freePages < num then (s, 0)
  else
    match findRun s num (List.range s.totalPages) 0 0 with
    | none => (s, 0)
    | some start =>
      let s₁ := (List.range num).foldl (fun s j => claimPage s (start + j)) s
      ((noteAllocated s₁ num).zero (start * pageSize) (num * pageSize), start * pageSize)

def freePages (start num : ℕ) : Paging :=
  (List.range num).foldl (fun s i => freePage s (add32 start (mul32 i pageSize))) s

/-- `pt_physical | PRESENT | WRITABLE | (flags & USER)`. -/
def tableEntry (table flags : ℕ) : ℕ :=
  table + (pageFlagPresent + pageFlagWritable) +
    if flags / pageFlagUser % 2 = 1 then pageFlagUser else 0

/-- `paging_map_page` once the page table exists. -/
def mapEntry (physical virt flags : ℕ) : Paging × ℤ :=
  (s.writeEntry (frame (s.dirEntry (dirIndex virt))) (tableIndex virt)
    (frame physical + flags % 4096), 0)

def mapPage (physical virt flags : ℕ) : Paging × ℤ :=
  if (getProtectedRegion s virt).isSome then (s, -1)
  else if present (s.dirEntry (dirIndex virt)) then mapEntry s physical virt flags
  else
    match allocatePage s with
    | (s₁, 0) => (s₁, -1)
    | (s₁, table) =>
      let s₂ := s₁.zero table pageSize
      mapEntry (s₂.writeEntry s₂.currentPageDirectory (dirIndex virt) (tableEntry table flags))
        physical virt flags

def unmapPage (virt : ℕ) : Paging :=
  if (getProtectedRegion s virt).isSome then s
  else if present (s.dirEntry (dirIndex virt)) then
    s.writeEntry (frame (s.dirEntry (dirIndex virt))) (tableIndex virt) 0
  else s

def updateFlags (virt flags : ℕ) : Paging × ℤ :=
  if present (s.dirEntry (dirIndex virt)) then
    let table := frame (s.dirEntry (dirIndex virt))
    let e := entry s.mem table (tableIndex virt)
    if present e then
      if (getProtectedRegion s virt).isSome then (s, -1)
      else (s.writeEntry table (tableIndex virt) (frame e + flags % 4096), 0)
    else (s, -1)
  else (s, -1)

def createAddressSpace (kernelAccessible : Bool) : Paging × ℕ :=
  match allocatePage s with
  | (s₁, 0) => (s₁, 0)
  | (s₁, dir) =>
    let s₂ := s₁.zero dir pageSize
    if kernelAccessible then
      ({ s₂ with mem := storeWords s₂.mem (dir + 4 * 768) (pageDirectoryEntries - 768) fun i =>
          s₂.dirEntry (768 + i) }, dir)
    else (s₂, dir)

def switchAddressSpace (pageDirectory : ℕ) : Paging :=
  if pageDirectory = 0 then s
  else
    { s with
      currentPageDirectory := pageDirectory
      stats := { s.stats with
        addressSpaceSwitches := add32 s.stats.addressSpaceSwitches 1 } }

/-- What an unfinished clone releases when a page table cannot be allocated. -/
def dropTables (newDir pd : ℕ) : Paging :=
  let s₁ := (List.range pd).foldl (fun s i =>
    if present (entry s.mem newDir i) then freePage s (frame (entry s.mem newDir i)) else s) s
  freePage s₁ newDir

/-- As `dropTables`, with the pages the tables map. -/
def dropPages (newDir pd : ℕ) : Paging :=
  let dropTable := fun (s : Paging) (i : ℕ) =>
    if present (entry s.mem newDir i) then
      let table := frame (entry s.mem newDir i)
      let s₁ := (List.range pageTableEntries).foldl (fun s j =>
        if present (entry s.mem table j) then freePage s (frame (entry s.mem table j)) else s) s
      freePage s₁ (frame (entry s₁.mem newDir i))
    else s
  freePage ((List.range pd).foldl dropTable s) newDir

/-- One copy-on-write entry: both tables map the page read-only, and it counts once more. -/
def shareEntry (src dst : ℕ) (s : Paging) (pt : ℕ) : Paging :=
  let e := entry s.mem src pt
  let s₁ := s.writeEntry src pt (clearWritable e)
  let k := frame e / pageSize
  let s₂ := s₁.setReferences k ((s₁.references k + 1) % 65536)
  s₂.writeEntry dst pt (frame e + clearWritable (flags e))

/-- One entry of a full copy; gives up when no page is left. -/
def copyEntry (newDir pd src dst : ℕ) (s : Paging) (pt : ℕ) : Except Paging Paging :=
  match allocatePage s with
  | (s₁, 0) => .error (dropPages s₁ newDir pd)
  | (s₁, page) =>
    let s₂ := { s₁ with mem := copy s₁.mem page (frame (entry s₁.mem src pt)) pageSize }
    .ok (s₂.writeEntry dst pt (page + flags (entry s₂.mem src pt)))

/-- One round of the entry loop of `paging_clone_address_space`. -/
def cloneEntry (copyOnWrite : Bool) (newDir pd src dst : ℕ) (s : Paging) (pt : ℕ) :
    Except Paging Paging :=
  if present (entry s.mem src pt) then
    if copyOnWrite then .ok (shareEntry src dst s pt) else copyEntry newDir pd src dst s pt
  else .ok (s.writeEntry dst pt 0)

/-- One round of the directory loop of `paging_clone_address_space`. -/
def cloneTable (copyOnWrite : Bool) (newDir : ℕ) (s : Paging) (pd : ℕ) : Except Paging Paging :=
  if present (s.dirEntry pd) then
    let src := frame (s.dirEntry pd)
    match allocatePage s with
    | (s₁, 0) => .error (dropTables s₁ newDir pd)
    | (s₁, dst) =>
      let s₂ := s₁.writeEntry newDir pd (dst + flags (s₁.dirEntry pd))
      (List.range pageTableEntries).foldlM (cloneEntry copyOnWrite newDir pd src dst) s₂
  else .ok s

def cloneAddressSpace (copyOnWrite : Bool) : Paging × ℕ :=
  match createAddressSpace s true with
  | (s₁, 0) => (s₁, 0)
  | (s₁, newDir) =>
    match (List.range 768).foldlM (cloneTable copyOnWrite newDir) s₁ with
    | .error s₂ => (s₂, 0)
    | .ok s₂ => ({ s₂ with shadowPageDirectory := fun i => entry s₂.mem newDir i }, newDir)

def getPhysicalAddress (virt : ℕ) : ℕ :=
  match walk s.mem s.currentPageDirectory virt with
  | none => 0
  | some e => frame e + virt % 4096

/-- The copy-on-write branch of `handle_page_fault` for a shared page: the entry `e` at `pt`
of the table moves to a copy of its page. -/
def copyShared (table pt e : ℕ) : Paging × ℤ :=
  match allocatePage s with
  | (s₁, 0) => (s₁, -1)
  | (s₁, page) =>
    let k := frame e / pageSize
    let s₂ := { s₁ with mem := copy s₁.mem page (frame e) pageSize }
    let s₃ := s₂.setReferences k ((65535 + s₂.references k) % 65536)
    (s₃.writeEntry table pt (page + setWritable (flags (entry s₃.mem table pt))), 0)

/-- The demand-paging branch of `handle_page_fault`. -/
def loadShadow (table pd pt : ℕ) (isWrite : Bool) : Paging × ℤ :=
  let shadow := frame (s.shadowPageDirectory pd)
  if s.shadowPageDirectory pd ≠ 0 ∧ shadow ≠ 0 ∧ present (entry s.mem shadow pt) = true then
    match allocatePage s with
    | (s₁, 0) => (s₁, -1)
    | (s₁, page) =>
      let s₂ := { s₁ with mem := copy s₁.mem page (frame (entry s₁.mem shadow pt)) pageSize }
      let flags := flags (entry s₂.mem shadow pt)
      let s₃ := s₂.writeEntry table pt (page + if isWrite then setWritable flags else flags)
      ({ s₃ with
          stats := { s₃.stats with
            demandPagesLoaded := add32 s₃.stats.demandPagesLoaded 1 } }, 0)
  else (s, -1)

def handlePageFault (faultAddr : ℕ) (isWrite : Bool) : Paging × ℤ :=
  let pd := dirIndex faultAddr
  let pt := tableIndex faultAddr
  if present (s.dirEntry pd) then
    let table := frame (s.dirEntry pd)
    let e := entry s.mem table pt
    if present e then
      if !writable e && isWrite then
        let k := frame e / pageSize
        if 1 < s.references k then copyShared s table pt e
        else if s.references k = 1 then (s.writeEntry table pt (setWritable e), 0)
        else (s, -1)
      else (s, -1)
    else loadShadow s table pd pt isWrite
  else (s, -1)

/-- `page_fault_handler`; `false` when the fault is not resolved and the process is stopped.
Bit 0 of the error code is set for a protection violation, bit 1 for a write. -/
def pageFaultHandler (faultAddr errorCode : ℕ) : Paging × Bool :=
  let s₁ := { s with stats := { s.stats with pageFaults := add32 s.stats.pageFaults 1 } }
  if errorCode % 2 = 1 ∧ errorCode / 2 % 2 = 1 then
    match handlePageFault s₁ faultAddr true with
    | (s₂, 0) =>
      ({ s₂ with
          stats := { s₂.stats with
            cowFaultsHandled := add32 s₂.stats.cowFaultsHandled 1 } }, true)
    | (s₂, _) => (s₂, false)
  else (s₁, false)

end UintOS.PageManager
