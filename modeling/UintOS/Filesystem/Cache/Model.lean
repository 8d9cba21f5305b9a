import UintOS.Library.Links
import UintOS.Library.Runs

/-!
# The block cache

A model of `vfs_cache.c` after `vfs_cache_init`. The one field `next` of a block is a link of its
hash chain and of the recency list; the `next` fields are one function here, as every walk reads
only them.

The block devices are outside: their state is of an arbitrary type `δ`, the contents of a block of
an arbitrary type `α`, and an operation of a device is a function of the two.

A walk that visits more than the `n` blocks of the cache is in a circle, and its call returns
`none`.
-/

namespace UintOS.BlockCache

open Function Links

inductive Error
  | ioError
  | noSpace
  | unsupported
  | invalidDev
deriving DecidableEq, Repr

/-- `vfs_block_device_t`. An operation takes the first block and the number of blocks and returns an
`int`, of which the bits are compared. -/
structure Device (δ α : Type*) where
  blockSize : UInt32
  blockSize_ne : blockSize ≠ 0
  readBlocks : Option (δ → UInt64 → UInt32 → α → δ × α × UInt32)
  writeBlocks : Option (δ → UInt64 → UInt32 → α → δ × UInt32)
  sync : Option (δ → δ)

/-- `dev_id` and `block_id`. -/
abbrev Key := UInt32 × UInt32

/-- The key of a block that `cache_alloc_block` takes as free. -/
def noKey : Key := (0, 0)

/-- `vfs_cache_block_t`, without its `next`. -/
structure Block (α : Type*) where
  key : Key
  data : α
  dirty : Bool
deriving DecidableEq, Repr

/-- The block holds a key other than the mark of a free block. -/
def Block.Cached {α : Type*} (b : Block α) : Prop := b.key ≠ noKey

instance {α : Type*} (b : Block α) : Decidable b.Cached := inferInstanceAs (Decidable (_ ≠ _))

/-- An index into `cache_hash_table`, of `CACHE_HASH_SIZE` entries. -/
abbrev Bucket := Fin 256

structure Cache (n : ℕ) (δ α : Type*) where
  /-- The size of every block. -/
  blockSize : UInt32
  enabled : Bool
  /-- `flags & VFS_CACHE_FLAG_WRITE_CACHE`. -/
  writeCache : Bool
  blocks : Fin n → Block α
  next : Fin n → Option (Fin n)
  hashTable : Bucket → Option (Fin n)
  lruHead : Option (Fin n)
  lruTail : Option (Fin n)
  devices : δ

variable {n : ℕ} {δ α : Type*}

/-! ## The start -/

def maxCacheBlocks : ℕ := 256

/-- The block size that `vfs_cache_init` settles on. -/
def alignBlockSize (blockSize : UInt32) : UInt32 :=
  let size := if blockSize < 512 then 512 else blockSize
  if size &&& 511 ≠ 0 then (size + 512) &&& ~~~511 else size

/-- The block put into the recency list before block `i`. -/
def before (i : Fin n) : Option (Fin n) :=
  if i.val = 0 then none else some ⟨i.val - 1, by omega⟩

def oldest (n : ℕ) : Option (Fin n) := if h : 0 < n then some ⟨0, h⟩ else none

def newest (n : ℕ) : Option (Fin n) := if h : 0 < n then some ⟨n - 1, by omega⟩ else none

/-- The loop of `vfs_cache_init` over `n` blocks: each is put in front of the recency
list. `data` is what the buffers contain. -/
def initBlocks (n : ℕ) (blockSize : UInt32) (writeCache : Bool) (data : Fin n → α) (w : δ) :
    Cache n δ α where
  blockSize := blockSize
  enabled := true
  writeCache := writeCache
  blocks := fun i => ⟨noKey, data i, false⟩
  next := before
  hashTable := fun _ => none
  lruHead := newest n
  lruTail := oldest n
  devices := w

/-- `vfs_cache_init`, when no allocation fails. -/
def vfsCacheInit (blockSize numBlocks : UInt32) (writeCache : Bool)
    (data : Fin (min numBlocks.toNat maxCacheBlocks) → α) (w : δ) :
    Cache (min numBlocks.toNat maxCacheBlocks) δ α :=
  initBlocks _ (alignBlockSize blockSize) writeCache data w

/-! ## Blocks and links -/

def cacheHash (k : Key) : Bucket :=
  ⟨(((k.1 <<< 16) ^^^ k.2) % 256).toNat, by
    rw [UInt32.toNat_mod]
    exact Nat.mod_lt _ (by decide)⟩

section

variable (c : Cache n δ α)

def Cache.setBlock (i : Fin n) (b : Block α) : Cache n δ α :=
  { c with blocks := update c.blocks i b }

def Cache.setNext (i : Fin n) (p : Option (Fin n)) : Cache n δ α :=
  { c with next := update c.next i p }

/-- `*pprev = block->next`, where `pprev` is the entry of the table or the `next` of the
block before. -/
def Cache.unlink (h : Bucket) (prev : Option (Fin n)) (i : Fin n) : Cache n δ α :=
  match prev with
  | none => { c with hashTable := update c.hashTable h (c.next i) }
  | some p => c.setNext p (c.next i)

def Cache.insert (i : Fin n) : Cache n δ α :=
  let h := cacheHash (c.blocks i).key
  { c.setNext i (c.hashTable h) with hashTable := update c.hashTable h (some i) }

/-- `dev_id = 0; block_id = 0; dirty = 0`. -/
def Cache.forget (i : Fin n) : Cache n δ α :=
  c.setBlock i { c.blocks i with key := noKey, dirty := false }

/-- The walk along the chain of the key to its block. -/
def lookup (k : Key) : Option (Sought (Fin n)) :=
  seek c.next (fun i => (c.blocks i).key = k) n none (c.hashTable (cacheHash k))

def cacheLookup (k : Key) : Option (Option (Fin n)) :=
  (lookup c k).map fun
    | .absent => none
    | .found _ i => some i

def cacheAllocBlock : Option (Fin n) :=
  Fin.find? fun i => decide ((c.blocks i).key = noKey)

/-- The walk along the recency list to the block before block `i`. -/
def predecessor (i : Fin n) : Option (Sought (Fin n)) :=
  seek c.next (fun p => c.next p = some i) n none c.lruHead

/-- The end of `cache_mark_accessed`: the block becomes the head. -/
def Cache.pushFront (i : Fin n) : Cache n δ α :=
  { c.setNext i c.lruHead with
    lruHead := some i
    lruTail := c.lruTail.or (some i) }

def cacheMarkAccessed (i : Fin n) : Option (Cache n δ α) :=
  if c.lruHead = some i then some c
  else if c.lruTail = some i then some ({ c with lruTail := none }.pushFront i)
  else
    (predecessor c i).map fun
      | .absent => c.pushFront i
      | .found _ prev =>
        { c.setNext prev (c.next i) with
          lruTail := if c.lruTail = some i then some prev else c.lruTail }.pushFront i

end

/-! ## Devices -/

def devCount (size devSize : UInt32) : UInt32 := (size + devSize - 1) / devSize

/-- `dev_block`. The product is one of 32 bits. -/
def devBlock (blockId size devSize : UInt32) : UInt64 :=
  if devSize ≠ size then (blockId * size / devSize).toUInt64 else blockId.toUInt64

variable (dev : UInt32 → Option (Device δ α))

section

variable (c : Cache n δ α)

/-- `cache_writeback_block`; `dev` is `vfs_get_block_device_by_id`. -/
def cacheWritebackBlock (i : Fin n) : Cache n δ α × Except Error Unit :=
  let block := c.blocks i
  if block.dirty then
    match dev block.key.1 with
    | none => (c, .error .invalidDev)
    | some device =>
      match device.writeBlocks with
      | none => (c.setBlock i { block with dirty := false }, .error .unsupported)
      | some writeBlocks =>
        let count := devCount c.blockSize device.blockSize
        let r := writeBlocks c.devices (devBlock block.key.2 c.blockSize device.blockSize) count
          block.data
        if r.2 ≠ count then ({ c with devices := r.1 }, .error .ioError)
        else
          ({ c.setBlock i { block with dirty := false } with
            devices :=
              match device.sync with
              | some sync => if c.writeCache then r.1 else sync r.1
              | none => r.1 }, .ok ())
  else (c, .ok ())

/-- `if (block->dirty) cache_writeback_block(block)`; the result is not looked at. -/
def Cache.save (i : Fin n) : Cache n δ α :=
  if (c.blocks i).dirty then (cacheWritebackBlock dev c i).1 else c

/-- The part of `vfs_cache_read_block` that fills the buffer of a block from the device:
the state of the devices, the buffer and the result. -/
def readDevice (size : UInt32) (k : Key) (w : δ) (data : α) : δ × α × Except Error Unit :=
  match dev k.1 with
  | none => (w, data, .error .invalidDev)
  | some device =>
    match device.readBlocks with
    | none => (w, data, .error .unsupported)
    | some readBlocks =>
      let count := devCount size device.blockSize
      let r := readBlocks w (devBlock k.2 size device.blockSize) count data
      (r.1, r.2.1, if r.2.2 ≠ count then .error .ioError else .ok ())

/-! ## Eviction -/

/-- The part of `cache_evict_block` that takes a block out of its chain. -/
def Cache.unhash (i : Fin n) : Option (Cache n δ α) :=
  if (c.blocks i).key ≠ noKey then
    let h := cacheHash (c.blocks i).key
    (seek c.next (fun j => j = i) n none (c.hashTable h)).map fun
      | .absent => c
      | .found prev _ => c.unlink h prev i
  else some c

/-- The end of `cache_evict_block`, where `i` is `lru_tail`: if the block has a next one,
`lru_tail` moves to the block before it. -/
def Cache.moveTail (i : Fin n) : Option (Cache n δ α) :=
  match c.next i with
  | none => some c
  | some _ =>
    (predecessor c i).map fun
      | .absent => c
      | .found _ prev => { c with lruTail := some prev }

def cacheEvictBlock : Option (Cache n δ α × Except Error Unit) :=
  match c.lruTail with
  | none => some (c, .error .noSpace)
  | some i =>
    ((c.save dev i).unhash i).bind fun c =>
      ((c.forget i).moveTail i).map fun c => (c, .ok ())

/-- The block that a call takes on a miss: a free one, if need be after an eviction. -/
def takeBlock : Option (Cache n δ α × Except Error (Fin n)) :=
  match cacheAllocBlock c with
  | some i => some (c, .ok i)
  | none =>
    (cacheEvictBlock dev c).map fun r =>
      match r.2, cacheAllocBlock r.1 with
      | .ok _, some i => (r.1, .ok i)
      | _, _ => (r.1, .error .noSpace)

/-! ## The calls -/

/-- The part of `vfs_cache_read_block` behind a miss, on the block taken. -/
def fillBlock (k : Key) (i : Fin n) : Option (Cache n δ α × Except Error α) :=
  let r := readDevice dev c.blockSize k c.devices (c.blocks i).data
  let c := { c.setBlock i ⟨k, r.2.1, false⟩ with devices := r.1 }
  match r.2.2 with
  | .error e => some (c, .error e)
  | .ok _ => (cacheMarkAccessed (c.insert i) i).map fun c => (c, .ok (c.blocks i).data)

/-- `vfs_cache_read_block`, with what it puts into the caller's buffer. -/
def vfsCacheReadBlock (k : Key) : Option (Cache n δ α × Except Error α) :=
  if c.enabled then
    (cacheLookup c k).bind fun
      | some i => (cacheMarkAccessed c i).map fun c => (c, .ok (c.blocks i).data)
      | none =>
        (takeBlock dev c).bind fun r =>
          match r.2 with
          | .error e => some (r.1, .error e)
          | .ok i => fillBlock dev r.1 k i
  else some (c, .error .unsupported)

/-- The end of `vfs_cache_write_block`, on the block that holds the key. -/
def storeBlock (i : Fin n) (buffer : α) (sync : Bool) :
    Option (Cache n δ α × Except Error Unit) :=
  (cacheMarkAccessed c i).map fun c =>
    let c := c.setBlock i { c.blocks i with data := buffer, dirty := true }
    if sync then cacheWritebackBlock dev c i else (c, .ok ())

def vfsCacheWriteBlock (k : Key) (buffer : α) (sync : Bool) :
    Option (Cache n δ α × Except Error Unit) :=
  if c.enabled then
    (cacheLookup c k).bind fun
      | some i => storeBlock dev c i buffer sync
      | none =>
        (takeBlock dev c).bind fun r =>
          match r.2 with
          | .error e => some (r.1, .error e)
          | .ok i =>
            storeBlock dev ((r.1.setBlock i { r.1.blocks i with key := k }).insert i) i buffer sync
  else some (c, .error .unsupported)

def vfsCacheFlushBlock (k : Key) : Option (Cache n δ α × Except Error Unit) :=
  (cacheLookup c k).map fun
    | none => (c, .ok ())
    | some i => if (c.blocks i).dirty then cacheWritebackBlock dev c i else (c, .ok ())

/-- What both invalidations do to a block found behind `prev`. -/
def Cache.invalidate (h : Bucket) (prev : Option (Fin n)) (i : Fin n) :
    Cache n δ α :=
  (((c.unlink h prev i).save dev i).forget i).setNext i none

/-- `vfs_cache_invalidate_block`, which always returns `VFS_SUCCESS`. -/
def vfsCacheInvalidateBlock (k : Key) : Option (Cache n δ α) :=
  (lookup c k).map fun
    | .absent => c
    | .found prev i => c.invalidate dev (cacheHash k) prev i

/-- One round of `vfs_cache_flush_all`, with the result so far. -/
def flushOne (r : Cache n δ α × Except Error Unit) (i : Fin n) : Cache n δ α × Except Error Unit :=
  if (r.1.blocks i).dirty then
    let w := cacheWritebackBlock dev r.1 i
    (w.1, match w.2 with
      | .ok _ => r.2
      | .error e => .error e)
  else r

def vfsCacheFlushAll : Cache n δ α × Except Error Unit :=
  (List.finRange n).foldl (flushOne dev) (c, .ok ())

/-- The inner loop of `vfs_cache_invalidate_device`, at the block `p` with `prev` before
it. -/
def invalidateChain (devId : UInt32) (h : Bucket) :
    ℕ → (prev p : Option (Fin n)) → Cache n δ α → Option (Cache n δ α)
  | _, _, none, c => some c
  | 0, _, some _, _ => none
  | rounds + 1, prev, some i, c =>
    if (c.blocks i).key.1 = devId then
      invalidateChain devId h rounds prev (c.next i) (c.invalidate dev h prev i)
    else invalidateChain devId h rounds (some i) (c.next i) c

/-- The rounds of the inner loop: between two invalidations the walk is along links that
do not change, and an invalidation takes a link away. -/
def chainRounds (n : ℕ) : ℕ := (n + 2) * (n + 1)

/-- `vfs_cache_invalidate_device`, which always returns `VFS_SUCCESS`. -/
def vfsCacheInvalidateDevice (devId : UInt32) : Option (Cache n δ α) :=
  (List.finRange 256).foldlM
    (fun c h => invalidateChain dev devId h (chainRounds n) none (c.hashTable h) c) c

/-! ## Requests -/

inductive Request (α : Type*)
  | read (k : Key)
  | write (k : Key) (buffer : α) (sync : Bool)
  | flushBlock (k : Key)
  | invalidateBlock (k : Key)
  | flushAll
  | invalidateDevice (devId : UInt32)

/-- One call; `none` when it does not return. -/
def serve : Request α → Option (Cache n δ α)
  | .read k => (vfsCacheReadBlock dev c k).map Prod.fst
  | .write k buffer sync => (vfsCacheWriteBlock dev c k buffer sync).map Prod.fst
  | .flushBlock k => (vfsCacheFlushBlock dev c k).map Prod.fst
  | .invalidateBlock k => vfsCacheInvalidateBlock dev c k
  | .flushAll => some (vfsCacheFlushAll dev c).1
  | .invalidateDevice devId => vfsCacheInvalidateDevice dev c devId

end

/-! ## What the parts find and change -/

def reused (c : Cache n δ α) : Option (Fin n) := (cacheAllocBlock c).or c.lruTail

variable {c : Cache n δ α} {i : Fin n} {k : Key}

theorem cacheAllocBlock_eq_some (h : cacheAllocBlock c = some i) : (c.blocks i).key = noKey := by
  simpa using (Fin.find?_eq_some_iff.mp h).1

theorem cacheAllocBlock_eq_none (h : cacheAllocBlock c = none) (i : Fin n) :
    (c.blocks i).Cached := by
  simpa [Block.Cached] using Fin.find?_eq_none_iff.mp h i

theorem key_of_lookup {prev : Option (Fin n)}
    (h : lookup c k = some (.found prev i)) : (c.blocks i).key = k := by
  simpa using seek_found h

theorem key_of_cacheLookup (h : cacheLookup c k = some (some i)) : (c.blocks i).key = k := by
  obtain ⟨found, hfound, he⟩ := Option.map_eq_some_iff.mp h
  cases found with
  | absent => cases he
  | found prev j =>
    cases he
    exact key_of_lookup hfound

section

variable (c : Cache n δ α)

section

variable (b : Bucket) (prev : Option (Fin n)) (i : Fin n)

@[simp] theorem unlink_blocks : (c.unlink b prev i).blocks = c.blocks := by
  cases prev <;> rfl

@[simp] theorem unlink_blockSize : (c.unlink b prev i).blockSize = c.blockSize := by
  cases prev <;> rfl

@[simp] theorem unlink_devices : (c.unlink b prev i).devices = c.devices := by
  cases prev <;> rfl

end

theorem setBlock_self (i : Fin n) : c.setBlock i (c.blocks i) = c := by
  rw [Cache.setBlock, update_eq_self]

/-- A write back changes the mark of the block and the devices only. -/
theorem cacheWritebackBlock_eq (i : Fin n) : ∃ d w, (cacheWritebackBlock dev c i).1 =
      { c.setBlock i { c.blocks i with dirty := d } with devices := w } := by
  have hkeep : ∀ w, ({ c with devices := w } : Cache n δ α) =
      { c.setBlock i { c.blocks i with dirty := (c.blocks i).dirty } with devices := w } :=
    fun w => congrArg (fun c' : Cache n δ α => { c' with devices := w }) (setBlock_self c i).symm
  by_cases hd : (c.blocks i).dirty
  · cases hdevice : dev (c.blocks i).key.1 with
    | none =>
      simp only [cacheWritebackBlock, hd, hdevice, if_true]
      exact ⟨_, _, hkeep c.devices⟩
    | some device =>
      cases hwrite : device.writeBlocks with
      | none =>
        simp only [cacheWritebackBlock, hd, hdevice, hwrite, if_true]
        exact ⟨false, c.devices, rfl⟩
      | some writeBlocks =>
        simp only [cacheWritebackBlock, hd, hdevice, hwrite, if_true]
        split
        · exact ⟨_, _, hkeep _⟩
        · exact ⟨false, _, rfl⟩
  · simp only [cacheWritebackBlock, hd]
    exact ⟨_, _, hkeep c.devices⟩

theorem save_eq (i : Fin n) :
    ∃ d w, c.save dev i = { c.setBlock i { c.blocks i with dirty := d } with devices := w } := by
  unfold Cache.save
  split_ifs
  · exact cacheWritebackBlock_eq dev c i
  · exact ⟨(c.blocks i).dirty, c.devices, (setBlock_self c i).symm⟩

/-- The invalidation of the first block of a chain leaves the rest of the chain. -/
theorem invalidate_hashTable (b : Bucket) (i : Fin n) :
    (c.invalidate dev b none i).hashTable b = c.next i := by
  obtain ⟨d, w, hw⟩ := save_eq dev (c.unlink b none i) i
  unfold Cache.invalidate
  rw [hw]
  exact update_self b (c.next i) c.hashTable

end

/-- What every write back of a dirty block keeps, `vfs_cache_flush_all` keeps. -/
theorem vfsCacheFlushAll_keeps {P : Cache n δ α → Prop}
    (hP : ∀ c i, P c → (c.blocks i).dirty → P (cacheWritebackBlock dev c i).1)
    (hc : P c) : P (vfsCacheFlushAll dev c).1 := by
  have hround : ∀ (l : List (Fin n)) (r : Cache n δ α × Except Error Unit),
      P r.1 → P (l.foldl (flushOne dev) r).1 := by
    intro l
    induction l with
    | nil => exact fun r hr => hr
    | cons i l ih =>
      intro r hr
      apply ih
      unfold flushOne
      split_ifs with hi
      · exact hP r.1 i hr hi
      · exact hr
  exact hround _ (c, .ok ()) hc

end UintOS.BlockCache
