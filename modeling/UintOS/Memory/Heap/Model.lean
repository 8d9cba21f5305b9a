import UintOS.Library.Machine
import UintOS.Library.Links
import UintOS.Library.Runs

/-!
# The kernel heap

`memory/heap.c`: a boundary-tag allocator. Blocks are threaded in a physical list (`prev`, `next`),
free blocks also in one of eleven size bins (`prev_free`, `next_free`). Headers and footers are
records at their addresses, apart from the payload bytes; a pointer is an optional address, `none`
being `NULL`. `allocate_pages` is a parameter: a function from the number of pages to the page run
returned. Its calls are logged, and the memory runs the heap obtained are recorded.
-/

namespace UintOS.KernelHeap

open Machine

abbrev Ptr := Option ℕ

def heapMagic : ℕ := 0xC0DEABA
def heapMinSize : ℕ := 4096
def heapAlign : ℕ := 16
def heapMaxBins : ℕ := 11
def heapCanaryValue : ℕ := 0xFEEDFACE
def poisonPattern : UInt8 := 0xDE
def pageSize : ℕ := 4096
def pageFlagPresent : ℕ := 1

/-- `sizeof(block_header_t)` and `sizeof(block_footer_t)` on the 32-bit target. -/
def headerSize : ℕ := 40
def footerSize : ℕ := 16

inductive Status
  | free
  | used
  deriving DecidableEq, Repr

structure BlockHeader where
  magic : ℕ
  size : ℕ
  status : Status
  prev : Ptr
  next : Ptr
  nextFree : Ptr
  prevFree : Ptr
  canary : ℕ
  deriving DecidableEq

structure BlockFooter where
  magic : ℕ
  headerPtr : ℕ
  size : ℕ
  canary : ℕ
  deriving DecidableEq

structure HeapStats where
  totalAllocations : ℕ
  totalFrees : ℕ
  currentAllocations : ℕ
  allocatedBytes : ℕ
  freeBytes : ℕ
  totalSize : ℕ
  fragmentationCount : ℕ
  errorCount : ℕ
  largestAllocation : ℕ
  smallestAllocation : ℕ
  deriving DecidableEq

inductive PageCall
  | allocate (num : ℕ) (result : Ptr)
  | free (start : ℕ) (num : ℕ)
  | updateFlags (virt : ℕ) (flags : ℕ)
  deriving DecidableEq

/-- The heap structure, `heap_stats`, and the memory the heap works on. -/
structure Heap where
  start : ℕ
  limit : ℕ
  maxSize : ℕ
  currentSize : ℕ
  errorCount : ℕ
  bins : ℕ → Ptr
  header : ℕ → BlockHeader
  footer : ℕ → BlockFooter
  byte : ℕ → UInt8
  stats : HeapStats
  calls : List PageCall
  regions : List (ℕ × ℕ)

namespace Heap

variable (h : Heap) (b : ℕ)

def modify (f : BlockHeader → BlockHeader) : Heap :=
  { h with header := Function.update h.header b (f (h.header b)) }

/-- `block->size - sizeof(block_header_t) - sizeof(block_footer_t)`. -/
def payload : ℕ := sub32 (sub32 (h.header b).size headerSize) footerSize

/-- `HEADER_TO_FOOTER`. -/
def footerAddr : ℕ := sub32 (add32 b (h.header b).size) footerSize

def writeFooter : Heap :=
  let f : BlockFooter :=
    { magic := heapMagic, headerPtr := b, size := (h.header b).size, canary := heapCanaryValue }
  { h with footer := Function.update h.footer (h.footerAddr b) f }

end Heap

/-- `HEADER_TO_DATA` and `DATA_TO_HEADER`. -/
def headerToData (b : ℕ) : ℕ := add32 b headerSize
def dataToHeader (p : ℕ) : ℕ := sub32 p headerSize

/-- The shifting loop of `get_bin_for_size`; 32 rounds empty a 32-bit number. -/
def binLoop : ℕ → ℕ → ℕ → ℕ
  | 0, _, bin => bin
  | fuel + 1, size, bin => if 16 < size then binLoop fuel (size / 2) (bin + 1) else bin

def getBinForSize (size : ℕ) : ℕ :=
  if size ≤ 16 then 0
  else
    let bin := binLoop 32 (size - 1) 0
    if bin < heapMaxBins then bin else heapMaxBins - 1

variable (h : Heap) (b : ℕ)

/-- The bin that the free-list functions compute for a block. -/
def Heap.binOf : ℕ :=
  let bin := getBinForSize (h.payload b)
  if heapMaxBins ≤ bin then heapMaxBins - 1 else bin

/-- Bound on the rounds of a pointer walk: a longer walk over 32-bit addresses has
met some address twice and never ends. -/
def walkBound : ℕ := 4294967296

/-- The inner loop of `find_free_block`; `none` when the walk does not end. -/
def findInBin (h : Heap) (size : ℕ) : ℕ → Ptr → Option Ptr
  | _, none => some none
  | 0, some _ => none
  | fuel + 1, some b =>
    if size ≤ h.payload b then some (some b)
    else findInBin h size fuel (h.header b).nextFree

def findInBins (h : Heap) (size : ℕ) : List ℕ → Option Ptr
  | [] => some none
  | i :: is =>
    match findInBin h size walkBound (h.bins i) with
    | none => none
    | some (some b) => some (some b)
    | some none => findInBins h size is

def findFreeBlock (size : ℕ) : Option Ptr :=
  let bin := getBinForSize size
  findInBins h size (List.range' bin (heapMaxBins - bin))

def removeFromFreeList : Heap :=
  let bin := h.binOf b
  let h₁ := match (h.header b).prevFree with
    | some q => h.modify q fun c => { c with nextFree := (h.header b).nextFree }
    | none => { h with bins := Function.update h.bins bin (h.header b).nextFree }
  let h₂ := match (h₁.header b).nextFree with
    | some q => h₁.modify q fun c => { c with prevFree := (h₁.header b).prevFree }
    | none => h₁
  h₂.modify b fun c => { c with nextFree := none, prevFree := none }

def addToFreeList : Heap :=
  let bin := h.binOf b
  let h₁ := h.modify b fun c => { c with nextFree := h.bins bin, prevFree := none }
  let h₂ := match h₁.bins bin with
    | some q => h₁.modify q fun c => { c with prevFree := some b }
    | none => h₁
  { h₂ with bins := Function.update h₂.bins bin (some b) }

/-- The checks of `validate_block`. -/
def Heap.blockValid : Bool :=
  let f := h.footer (h.footerAddr b)
  (h.header b).magic == heapMagic && (h.header b).canary == heapCanaryValue &&
    f.magic == heapMagic && f.headerPtr == b && f.size == (h.header b).size &&
    f.canary == heapCanaryValue

def validateBlock : Heap × Bool :=
  if h.blockValid b then (h, true)
  else ({ h with stats := { h.stats with errorCount := add32 h.stats.errorCount 1 } }, false)

/-- `required_size` and `min_split_size` of `split_block`. -/
def requiredSize (size : ℕ) : ℕ := add32 (add32 size headerSize) footerSize
def minSplitSize : ℕ := 32 + headerSize + footerSize

/-- The memory writes of `split_block`: a new block header and footer `required` bytes
into the block, the shortened block, and the back link of the following block. -/
def carve (required : ℕ) : Heap :=
  let n := add32 b required
  let c : BlockHeader :=
    { magic := heapMagic, size := sub32 (h.header b).size required, status := .free,
      prev := some b, next := (h.header b).next, nextFree := none, prevFree := none,
      canary := heapCanaryValue }
  let h₁ := h.modify n fun _ => c
  let h₂ := h₁.writeFooter n
  let h₃ := h₂.modify b fun c => { c with size := required, next := some n }
  let h₄ := match (h₃.header n).next with
    | some q => h₃.modify q fun c => { c with prev := some n }
    | none => h₃
  h₄.writeFooter b

/-- `heap_stats.free_bytes -= required_size`. -/
def noteSplit (required : ℕ) : Heap :=
  { h with stats := { h.stats with freeBytes := sub32 h.stats.freeBytes required } }

def splitBlock (size : ℕ) : Heap × Ptr :=
  let required := requiredSize size
  if minSplitSize ≤ sub32 (h.header b).size required then
    let n := add32 b required
    (noteSplit (addToFreeList (carve h b required) n) required, some n)
  else (h, none)

/-- `heap_stats.fragmentation_count--`. -/
def noteMerged : Heap :=
  { h with stats := { h.stats with fragmentationCount := sub32 h.stats.fragmentationCount 1 } }

/-- `b` absorbs its physical successor `n`: sizes, links and footer. -/
def absorb (b n : ℕ) : Heap :=
  let h₁ := h.modify b fun c => { c with size := add32 c.size (h.header n).size }
  let h₂ := h₁.modify b fun c => { c with next := (h₁.header n).next }
  let h₃ := match (h₂.header n).next with
    | some q => h₂.modify q fun c => { c with prev := some b }
    | none => h₂
  h₃.writeFooter b

/-- First half of `merge_blocks`; `false` when the function returns early. -/
def mergeNext : Heap × Bool :=
  match (h.header b).next with
  | none => (h, true)
  | some n =>
    if (h.header n).status = .free then
      match validateBlock h n with
      | (h₁, false) => (h₁, false)
      | (h₁, true) => (noteMerged (absorb (removeFromFreeList h₁ n) b n), true)
    else (h, true)

/-- Second half of `merge_blocks`. -/
def mergePrev : Heap × ℕ :=
  match (h.header b).prev with
  | none => (h, b)
  | some p =>
    if (h.header p).status = .free then
      match validateBlock h p with
      | (h₁, false) => (h₁, b)
      | (h₁, true) =>
        let h₂ := removeFromFreeList (removeFromFreeList h₁ p) b
        (noteMerged (addToFreeList (absorb h₂ p b) p), p)
    else (h, b)

def mergeBlocks : Heap × ℕ :=
  if (h.header b).status = .free then
    match mergeNext h b with
    | (h₁, false) => (h₁, b)
    | (h₁, true) => mergePrev h₁ b
  else (h, b)

/-- The walk of `heap_extend` to the last block; `none` when it does not end. -/
def lastFrom (h : Heap) : ℕ → ℕ → Option ℕ
  | 0, _ => none
  | fuel + 1, b =>
    match (h.header b).next with
    | none => some b
    | some c => lastFrom h fuel c

def lastBlock : Option ℕ := lastFrom h walkBound h.start

/-- Round up to whole pages, as `heap_extend` does. -/
def extensionSize (minSize : ℕ) : ℕ :=
  if minSize % pageSize ≠ 0 then mul32 (minSize / pageSize + 1) pageSize else minSize

/-- The header and footer `heap_extend` writes at the start of the new pages. -/
def formatPages (n extension : ℕ) : Heap :=
  let c : BlockHeader :=
    { magic := heapMagic, size := extension, status := .free, prev := none, next := none,
      nextFree := none, prevFree := none, canary := heapCanaryValue }
  (h.modify n fun _ => c).writeFooter n

/-- The bookkeeping of `heap_extend`; the new memory run is recorded. -/
def noteExtension (n extension : ℕ) : Heap :=
  { h with
    limit := add32 n extension
    currentSize := add32 h.currentSize extension
    regions := (n, extension) :: h.regions
    stats := { h.stats with
      totalSize := add32 h.stats.totalSize extension
      freeBytes := add32 h.stats.freeBytes extension } }

/-- The new block is linked behind the last block and put in its bin. -/
def attach (last n extension : ℕ) : Heap :=
  let h₁ := h.modify last fun c => { c with next := some n }
  let h₂ := h₁.modify n fun c => { c with prev := some last }
  noteExtension (addToFreeList h₂ n) n extension

def logCall (call : PageCall) : Heap := { h with calls := call :: h.calls }

variable (pages : ℕ → Ptr)

def heapExtend (h : Heap) (minSize : ℕ) : Option (Heap × Ptr) :=
  let extension := extensionSize minSize
  let num := extension / pageSize
  let h₀ := logCall h (.allocate num (pages num))
  match pages num with
  | none => some (h₀, none)
  | some n =>
    let h₁ := formatPages h₀ n extension
    match lastBlock h₁ with
    | none => none
    | some last =>
      let h₂ := attach h₁ last n extension
      if (h₂.header last).status = .free then
        let merged := mergeBlocks h₂ last
        some (merged.1, some merged.2)
      else some (h₂, some n)

def alignSize (size : ℕ) : ℕ :=
  if size % heapAlign ≠ 0 then add32 size heapAlign / heapAlign * heapAlign else size

def allocSize (size : ℕ) : ℕ := alignSize (if size < 16 then 16 else size)

/-- The `largest_allocation` and `smallest_allocation` updates. -/
def noteExtremes (s : HeapStats) (size : ℕ) : HeapStats :=
  let s := if s.largestAllocation < size then { s with largestAllocation := size } else s
  if s.smallestAllocation = 0 ∨ size < s.smallestAllocation then
    { s with smallestAllocation := size } else s

/-- The guard-page branch of `heap_alloc`. -/
def guardedAlloc (h : Heap) (size : ℕ) : Heap × Ptr :=
  let num := add32 (add32 size (pageSize - 1) / pageSize) 2
  let h₀ := logCall h (.allocate num (pages num))
  match pages num with
  | none => (h₀, none)
  | some a =>
    let user := add32 a pageSize
    let h₁ := { h₀ with
      calls := .updateFlags (add32 user size) pageFlagPresent ::
        .updateFlags a pageFlagPresent :: h₀.calls
      byte := write32 h₀.byte user num
      stats := noteExtremes { h₀.stats with
        totalAllocations := add32 h₀.stats.totalAllocations 1
        currentAllocations := add32 h₀.stats.currentAllocations 1
        allocatedBytes := add32 h₀.stats.allocatedBytes size } size }
    (h₁, some (add32 user 4))

/-- The statistics and the zeroing at the end of `heap_alloc`. -/
def noteAlloc (size : ℕ) : Heap :=
  { h with
    byte := fill h.byte (headerToData b) size 0
    stats := noteExtremes { h.stats with
      totalAllocations := add32 h.stats.totalAllocations 1
      currentAllocations := add32 h.stats.currentAllocations 1
      allocatedBytes := add32 h.stats.allocatedBytes (h.payload b)
      freeBytes := sub32 h.stats.freeBytes (h.header b).size } size }

/-- The tail of `heap_alloc` once a free block was found. -/
def takeBlock (size : ℕ) : Heap × Ptr :=
  let h₁ := removeFromFreeList h b
  let h₂ := (splitBlock h₁ b size).1
  let h₃ := h₂.modify b fun c => { c with status := .used }
  (noteAlloc h₃ b size, some (headerToData b))

def heapAlloc (h : Heap) (request : ℕ) : Option (Heap × Ptr) :=
  let size := allocSize request
  if pageSize ≤ size then some (guardedAlloc pages h size)
  else
    match findFreeBlock h size with
    | none => none
    | some (some b) => some (takeBlock h b size)
    | some none =>
      match heapExtend pages h (requiredSize size) with
      | none => none
      | some (h₁, none) => some (h₁, none)
      | some (h₁, some b) => some (takeBlock h₁ b size)

/-- The page-offset test for pointers from the guard-page path. -/
def looksGuarded (p : ℕ) : Bool :=
  decide (4 ≤ p % pageSize) && decide (p % pageSize ≤ 64)

/-- The guard-page branch of `heap_free`. -/
def guardedFree (p : ℕ) : Heap :=
  let page := p / pageSize * pageSize
  { h with
    calls := .free (sub32 page pageSize) (read32 h.byte page) :: h.calls
    stats := { h.stats with
      totalFrees := add32 h.stats.totalFrees 1
      currentAllocations := sub32 h.stats.currentAllocations 1 } }

/-- `heap->error_count++`. -/
def noteError : Heap := { h with errorCount := add32 h.errorCount 1 }

/-- The statistics and the poisoning of `heap_free`. -/
def noteFree : Heap :=
  { h with
    byte := fill h.byte (headerToData b) (h.payload b) poisonPattern
    stats := { h.stats with
      totalFrees := add32 h.stats.totalFrees 1
      currentAllocations := sub32 h.stats.currentAllocations 1
      freeBytes := add32 h.stats.freeBytes (h.header b).size
      allocatedBytes := sub32 h.stats.allocatedBytes (h.payload b) } }

/-- The tail of `heap_free` for a validated block in use. -/
def releaseBlock : Heap :=
  let h₁ := h.modify b fun c => { c with status := .free }
  let merged := mergeBlocks (noteFree h₁ b) b
  addToFreeList merged.1 merged.2

def heapFree (ptr : Ptr) : Heap :=
  match ptr with
  | none => h
  | some p =>
    if looksGuarded p then guardedFree h p
    else
      let b := dataToHeader p
      match validateBlock h b with
      | (h₁, false) => noteError h₁
      | (h₁, true) =>
        if (h₁.header b).status = .free then noteError h₁ else releaseBlock h₁ b

/-- `memcpy` between payloads. -/
def copyBytes (dst src n : ℕ) : Heap := { h with byte := copy h.byte dst src n }

/-- Allocate, copy `current` bytes and free: the last resort of `heap_realloc`. -/
def moveTo (h : Heap) (p : ℕ) (size current : ℕ) : Option (Heap × Ptr) :=
  match heapAlloc pages h size with
  | none => none
  | some (h₁, none) => some (h₁, none)
  | some (h₁, some q) =>
    some (heapFree (copyBytes h₁ q p current) (some p), some q)

/-- The block grows over its free physical successor `n`. -/
def growInto (b n : ℕ) (size : ℕ) : Heap :=
  let combined := add32 (h.header b).size (h.header n).size
  let usable := sub32 (sub32 combined headerSize) footerSize
  let h₁ := absorb (removeFromFreeList h n) b n
  if 64 ≤ sub32 usable size then (splitBlock h₁ b size).1 else h₁

/-- The part of `heap_realloc` for a validated small block. -/
def reallocBlock (h : Heap) (p b : ℕ) (size : ℕ) : Option (Heap × Ptr) :=
  let current := h.payload b
  if size ≤ current then
    some (if 64 ≤ sub32 current size then (splitBlock h b size).1 else h, some p)
  else
    match (h.header b).next with
    | none => moveTo pages h p size current
    | some n =>
      if (h.header n).status = .free ∧
          size ≤ sub32 (sub32 (add32 (h.header b).size (h.header n).size) headerSize)
            footerSize then
        some (growInto h b n size, some p)
      else moveTo pages h p size current

/-- The usable size of a guarded allocation, from the page count stored before it. -/
def guardedSize (p : ℕ) : ℕ :=
  mul32 (sub32 (read32 h.byte (p / pageSize * pageSize)) 2) pageSize

def heapRealloc (h : Heap) (ptr : Ptr) (request : ℕ) : Option (Heap × Ptr) :=
  match ptr with
  | none => heapAlloc pages h request
  | some p =>
    if request = 0 then some (heapFree h (some p), none)
    else
      let size := alignSize request
      if looksGuarded p then
        let current := guardedSize h p
        if size ≤ current then some (h, some p) else moveTo pages h p size current
      else
        let b := dataToHeader p
        match validateBlock h b with
        | (h₁, false) => some (noteError h₁, none)
        | (h₁, true) => reallocBlock pages h₁ p b size

def initialStats (size : ℕ) : HeapStats where
  totalAllocations := 0
  totalFrees := 0
  currentAllocations := 0
  allocatedBytes := 0
  freeBytes := size
  totalSize := size
  fragmentationCount := 0
  errorCount := 0
  largestAllocation := 0
  smallestAllocation := 0

/-- The aligned address and the size `heap_create` is left with. -/
def createAddr (start : ℕ) : ℕ :=
  if start % heapAlign ≠ 0 then add32 start heapAlign / heapAlign * heapAlign else start

def createSize (start size : ℕ) : ℕ :=
  let size := if size < heapMinSize then heapMinSize else size
  sub32 size (sub32 (createAddr start) start)

/-- `heap_create`. `sizeofHeap` is `sizeof(heap_t)`; the memory before the call is arbitrary. -/
def heapCreate (sizeofHeap : ℕ) (header : ℕ → BlockHeader) (footer : ℕ → BlockFooter)
    (byte : ℕ → UInt8) (start size : ℕ) : Heap :=
  let addr := add32 (createAddr start) sizeofHeap
  let size := sub32 (createSize start size) sizeofHeap
  let h₀ : Heap :=
    { start := addr, limit := add32 addr size, maxSize := size, currentSize := size,
      errorCount := 0, bins := fun _ => none, header, footer, byte, stats := initialStats size,
      calls := [], regions := [(addr, size)] }
  let h₁ := h₀.modify addr fun c =>
    { c with
      magic := heapMagic, size := size, status := .free, prev := none, next := none
      prevFree := none, canary := heapCanaryValue }
  let h₂ := h₁.writeFooter addr
  let bin := getBinForSize (sub32 (sub32 size headerSize) footerSize)
  let bin := if bin < heapMaxBins then bin else heapMaxBins - 1
  let h₃ := h₂.modify addr fun c => { c with nextFree := h₂.bins bin }
  let h₄ := match h₃.bins bin with
    | some q => h₃.modify q fun c => { c with prevFree := some addr }
    | none => h₃
  { h₄ with bins := Function.update h₄.bins bin (some addr) }

end UintOS.KernelHeap
