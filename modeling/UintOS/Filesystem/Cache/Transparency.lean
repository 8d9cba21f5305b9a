import UintOS.Filesystem.Cache.Model

/-!
# What a read returns

The cache stands for a store: a value for each key, which a write replaces and a read returns, if no
device fails.

This is so as long as no key is the mark of a free block and a block added to a chain finds no other
cached block of its bucket. Then every cached block is the first of its chain, and it does not
matter that the rest of the chain is a part of the recency list.
-/

namespace UintOS.BlockCache

open Function Links Option Runs

abbrev Store (α : Type*) := Key → α

variable {n : ℕ} {δ α : Type*} {r : Except Error Unit} {buffer : α} {sync : Bool}

/-! ## Devices that never fail -/

/-- A device with blocks of the given size, of which each can be read and written; `contents` tells
what the devices hold. -/
structure Serves (size : UInt32) (contents : δ → Store α) (d : UInt32) (device : Device δ α) :
    Prop where
  blockSize : device.blockSize = size
  reads : ∃ read, device.readBlocks = some read ∧ ∀ w b data, ∃ w',
    read w (UInt32.toUInt64 b) 1 data = (w', contents w (d, b), 1) ∧ contents w' = contents w
  writes : ∃ write, device.writeBlocks = some write ∧ ∀ w b data, ∃ w',
    write w (UInt32.toUInt64 b) 1 data = (w', 1) ∧
      contents w' = update (contents w) (d, b) data
  syncs : ∀ sync, device.sync = some sync → ∀ w, contents (sync w) = contents w

def Reliable (dev : UInt32 → Option (Device δ α)) (size : UInt32) (contents : δ → Store α) : Prop :=
  ∀ d, ∃ device, dev d = some device ∧ Serves size contents d device

/-- One device block for a cache block of the same size. Above half of the range the sum in
`dev_count` wraps, and the count is 0. -/
theorem devCount_self {size : UInt32} (hpos : size ≠ 0) (hle : size.toNat ≤ 2 ^ 31) :
    devCount size size = 1 := by
  have hne : size.toNat ≠ 0 := by
    intro h
    exact hpos (UInt32.toNat_inj.mp (by simpa using h))
  apply UInt32.toNat_inj.mp
  have hsub : (size + size - 1).toNat = 2 * size.toNat - 1 := by
    rw [UInt32.toNat_sub, UInt32.toNat_add]
    simp
    omega
  unfold devCount
  rw [UInt32.toNat_div, hsub]
  have hlow : 1 * size.toNat ≤ 2 * size.toNat - 1 := by omega
  have hhigh : 2 * size.toNat - 1 < (1 + 1) * size.toNat := by omega
  exact Nat.div_eq_of_lt_le hlow hhigh

section

variable {dev : UInt32 → Option (Device δ α)} {size : UInt32} {contents : δ → Store α}

theorem Reliable.readDevice_eq (hdev : Reliable dev size contents) (hsize : size.toNat ≤ 2 ^ 31)
    (k : Key) (w : δ) (data : α) :
    ∃ w', readDevice dev size k w data = (w', contents w k, .ok ()) ∧ contents w' = contents w := by
  obtain ⟨device, hd, hserves⟩ := hdev k.1
  obtain ⟨read, hread, hreads⟩ := hserves.reads
  obtain ⟨w', hw', hc⟩ := hreads w k.2 data
  have hcount : devCount size size = 1 :=
    devCount_self (hserves.blockSize ▸ device.blockSize_ne) hsize
  refine ⟨w', ?_, hc⟩
  simp [readDevice, hd, hread, hcount, devBlock, hserves.blockSize, hw']

variable {c c' : Cache n δ α} {i : Fin n} {k : Key} {b : Bucket} {prev : Option (Fin n)}

section

variable (hdev : Reliable dev size contents) (hsize : size.toNat ≤ 2 ^ 31) (hc : c.blockSize = size)
include hdev hsize hc

theorem Reliable.writeback_eq (hi : (c.blocks i).dirty) : ∃ w, cacheWritebackBlock dev c i =
        ({ c.setBlock i { c.blocks i with dirty := false } with devices := w }, .ok ()) ∧
      contents w = update (contents c.devices) (c.blocks i).key (c.blocks i).data := by
  obtain ⟨device, hd, hserves⟩ := hdev (c.blocks i).key.1
  obtain ⟨write, hwrite, hwrites⟩ := hserves.writes
  obtain ⟨w, hw, hcw⟩ := hwrites c.devices (c.blocks i).key.2 (c.blocks i).data
  have hcount : devCount c.blockSize device.blockSize = 1 := by
    rw [hserves.blockSize, hc]
    exact devCount_self (hserves.blockSize ▸ device.blockSize_ne) hsize
  have hblock : devBlock (c.blocks i).key.2 c.blockSize device.blockSize =
      (c.blocks i).key.2.toUInt64 := by
    simp [devBlock, hc, hserves.blockSize]
  simp only [cacheWritebackBlock, hi, if_true, hd, hwrite, hcount, hblock, hw]
  refine ⟨_, rfl, ?_⟩
  cases hs : device.sync with
  | none => exact hcw
  | some sync =>
    split_ifs
    · exact hcw
    · rw [hserves.syncs sync hs]
      exact hcw

/-- After `save` the block is clean, and the device has its contents if it was not. -/
theorem Reliable.save_eq (i : Fin n) :
    ∃ w, c.save dev i = { c.setBlock i { c.blocks i with dirty := false } with devices := w } ∧
      contents w = if (c.blocks i).dirty then
        update (contents c.devices) (c.blocks i).key (c.blocks i).data
      else contents c.devices := by
  by_cases hi : (c.blocks i).dirty
  · obtain ⟨w, hw, hcw⟩ := hdev.writeback_eq hsize hc hi
    exact ⟨w, by rw [Cache.save, if_pos hi, hw], by rw [if_pos hi, hcw]⟩
  · have hsame : { c.blocks i with dirty := false } = c.blocks i := by
      cases hb : c.blocks i
      simp_all
    refine ⟨c.devices, ?_, by rw [if_neg hi]⟩
    rw [Cache.save, if_neg hi, hsame, Cache.setBlock, update_eq_self]

/-- On devices that never fail a flush succeeds and leaves every block clean. -/
theorem Reliable.flushAll_clean : (vfsCacheFlushAll dev c).2 = .ok () ∧
    ∀ i, ((vfsCacheFlushAll dev c).1.blocks i).dirty = false := by
  have hround : ∀ (l : List (Fin n)) (r : Cache n δ α × Except Error Unit), r.1.blockSize = size →
      (l.foldl (flushOne dev) r).2 = r.2 ∧ ∀ i, i ∈ l ∨ (r.1.blocks i).dirty = false →
        ((l.foldl (flushOne dev) r).1.blocks i).dirty = false := by
    intro l
    induction l with
    | nil => simp
    | cons j l ih =>
      intro r hr
      -- block `j` is clean after its round, and no other block changes
      obtain ⟨hres, hb, hj, hrest⟩ : (flushOne dev r j).2 = r.2 ∧
          (flushOne dev r j).1.blockSize = size ∧ ((flushOne dev r j).1.blocks j).dirty = false ∧
          ∀ i, i ≠ j → (flushOne dev r j).1.blocks i = r.1.blocks i := by
        unfold flushOne
        split_ifs with hd
        · obtain ⟨w, hw, -⟩ := hdev.writeback_eq hsize hr hd
          simp +contextual [hw, Cache.setBlock, hr, update_of_ne]
        · simpa [hr] using hd
      rw [List.foldl_cons]
      obtain ⟨hok, hclean⟩ := ih (flushOne dev r j) hb
      refine ⟨hok.trans hres, ?_⟩
      intro i hi
      apply hclean
      by_cases hij : i = j
      · exact .inr (hij ▸ hj)
      · rw [hrest i hij]
        simpa [hij] using hi
  obtain ⟨hok, hclean⟩ := hround (List.finRange n) (c, .ok ()) hc
  exact ⟨hok, fun i => hclean i (.inl (List.mem_finRange i))⟩

end

/-! ## The invariant -/

/-- The cache and its devices hold what the store holds, and every cached block is the first of its
chain. -/
structure Coherent (size : UInt32) (contents : δ → Store α) (c : Cache n δ α) (store : Store α) :
    Prop where
  blockSize : c.blockSize = size
  first : ∀ i, (c.blocks i).Cached → c.hashTable (cacheHash (c.blocks i).key) = some i
  data : ∀ i, (c.blocks i).Cached → (c.blocks i).data = store (c.blocks i).key
  clean : ∀ i, ¬ (c.blocks i).Cached → (c.blocks i).dirty = false
  disk : ∀ k, k ≠ noKey → (∀ i, (c.blocks i).key = k → (c.blocks i).dirty = false) →
    contents c.devices k = store k

structure SameBlocks (c c' : Cache n δ α) : Prop where
  blockSize : c'.blockSize = c.blockSize
  blocks : c'.blocks = c.blocks
  hashTable : c'.hashTable = c.hashTable
  devices : c'.devices = c.devices

theorem SameBlocks.refl (c : Cache n δ α) : SameBlocks c c := ⟨rfl, rfl, rfl, rfl⟩

theorem cacheMarkAccessed_sameBlocks (h : cacheMarkAccessed c i = some c') : SameBlocks c c' := by
  unfold cacheMarkAccessed at h
  split_ifs at h
  · cases h
    exact SameBlocks.refl c
  · cases h
    exact ⟨rfl, rfl, rfl, rfl⟩
  · obtain ⟨found, -, rfl⟩ := map_eq_some_iff.mp h
    cases found <;> exact ⟨rfl, rfl, rfl, rfl⟩

theorem moveTail_sameBlocks (h : c.moveTail i = some c') : SameBlocks c c' := by
  unfold Cache.moveTail at h
  split at h
  · cases h
    exact SameBlocks.refl c
  · obtain ⟨found, -, rfl⟩ := map_eq_some_iff.mp h
    cases found <;> exact ⟨rfl, rfl, rfl, rfl⟩

section

variable {store : Store α} {j : Fin n} (h : Coherent size contents c store)
include h

theorem Coherent.relink (hs : SameBlocks c c') : Coherent size contents c' store := by
  obtain ⟨hsize, hblks, htable, hdevices⟩ := hs
  constructor
  · exact hsize.trans h.blockSize
  · rw [hblks, htable]
    exact h.first
  · rw [hblks]
    exact h.data
  · rw [hblks]
    exact h.clean
  · rw [hblks, hdevices]
    exact h.disk

theorem Coherent.bucket_injective (hi : (c.blocks i).Cached) (hj : (c.blocks j).Cached)
    (hij : cacheHash (c.blocks i).key = cacheHash (c.blocks j).key) : i = j := by
  have hfirst := h.first i hi
  rw [hij, h.first j hj] at hfirst
  exact (some.inj hfirst).symm

/-- A block takes the place of a free one, or of the one that held its key. -/
theorem Coherent.put {store' : Store α} {b : Block α} (hkey : b.Cached)
    (hi : (c.blocks i).key = noKey ∨ (c.blocks i).key = b.key)
    (halone : ∀ j, j ≠ i → (c.blocks j).Cached →
      cacheHash (c.blocks j).key ≠ cacheHash b.key) (hsize : c'.blockSize = c.blockSize)
    (hblks : c'.blocks = update c.blocks i b)
    (htable : c'.hashTable = update c.hashTable (cacheHash b.key) (some i))
    (hdevices : ∀ k, k ≠ b.key → contents c'.devices k = contents c.devices k)
    (hstore : store' = update store b.key b.data)
    (hclean : b.dirty = false → contents c'.devices b.key = b.data) :
    Coherent size contents c' store' := by
  have hother : ∀ j, j ≠ i → (c.blocks j).Cached → (c.blocks j).key ≠ b.key :=
    fun j hj hc he => halone j hj hc (he ▸ rfl)
  constructor
  · exact hsize.trans h.blockSize
  · intro j hj
    rw [hblks] at hj ⊢
    rw [htable]
    by_cases hji : j = i
    · subst hji
      simp
    · rw [update_of_ne hji] at hj ⊢
      rw [update_of_ne (halone j hji hj)]
      exact h.first j hj
  · intro j hj
    rw [hblks] at hj ⊢
    rw [hstore]
    by_cases hji : j = i
    · subst hji
      simp
    · rw [update_of_ne hji] at hj ⊢
      rw [update_of_ne (hother j hji hj)]
      exact h.data j hj
  · intro j hj
    rw [hblks] at hj ⊢
    by_cases hji : j = i
    · subst hji
      rw [update_self] at hj
      exact absurd hkey hj
    · rw [update_of_ne hji] at hj ⊢
      exact h.clean j hj
  · intro k hk hall
    rw [hblks] at hall
    rw [hstore]
    rw [update_apply]
    split_ifs with hkb
    · subst hkb
      exact hclean (by simpa using hall i (by simp))
    · rw [hdevices k hkb]
      apply h.disk k hk
      intro j hj
      -- block `i` does not hold `k`: it is free, or it holds the key of `b`
      have hji : j ≠ i := by
        rintro rfl
        rcases hi with hi | hi
        · exact hk (hj.symm.trans hi)
        · exact hkb (hj.symm.trans hi)
      simpa [update_of_ne hji, hj] using hall j

theorem Coherent.release (hsize : c'.blockSize = c.blockSize) (hblks : c'.blocks =
      update c.blocks i { c.blocks i with key := noKey, dirty := false })
    (htable : ∀ j, j ≠ i → (c.blocks j).Cached → c'.hashTable (cacheHash (c.blocks j).key) = some j)
    (hdevices : contents c'.devices = if (c.blocks i).dirty then
        update (contents c.devices) (c.blocks i).key (c.blocks i).data
      else contents c.devices) : Coherent size contents c' store := by
  constructor
  · exact hsize.trans h.blockSize
  · intro j hj
    rw [hblks] at hj ⊢
    by_cases hji : j = i
    · subst hji
      simp [Block.Cached] at hj
    · rw [update_of_ne hji] at hj ⊢
      exact htable j hji hj
  · intro j hj
    rw [hblks] at hj ⊢
    by_cases hji : j = i
    · subst hji
      simp [Block.Cached] at hj
    · rw [update_of_ne hji] at hj ⊢
      exact h.data j hj
  · intro j hj
    rw [hblks] at hj ⊢
    by_cases hji : j = i
    · subst hji
      simp
    · rw [update_of_ne hji] at hj ⊢
      exact h.clean j hj
  · intro k hk hall
    rw [hblks] at hall
    have hrest : ∀ j, j ≠ i → (c.blocks j).key = k → (c.blocks j).dirty = false := by
      intro j hji hj
      simpa [update_of_ne hji, hj] using hall j
    rw [hdevices]
    split_ifs with hd
    · by_cases hki : k = (c.blocks i).key
      · subst hki
        rw [update_self]
        exact h.data i hk
      · rw [update_of_ne hki]
        apply h.disk k hk
        intro j hj
        have hji : j ≠ i := by
          rintro rfl
          exact hki hj.symm
        exact hrest j hji hj
    · apply h.disk k hk
      intro j hj
      by_cases hji : j = i
      · subst hji
        simpa using hd
      · exact hrest j hji hj

theorem Coherent.save (hdev : Reliable dev size contents) (hsize : size.toNat ≤ 2 ^ 31)
    (i : Fin n) :
    Coherent size contents (c.save dev i) store := by
  obtain ⟨w, hw, hcw⟩ := hdev.save_eq hsize h.blockSize i
  by_cases hi : (c.blocks i).dirty
  · have hcached : (c.blocks i).Cached := by
      by_contra hfree
      simp [h.clean i hfree] at hi
    have hother : ∀ j, j ≠ i → (c.blocks j).Cached →
        cacheHash (c.blocks j).key ≠ cacheHash (c.blocks i).key :=
      fun j hji hj he => hji (h.bucket_injective hj hcached he)
    rw [if_pos hi] at hcw
    rw [hw]
    refine h.put (i := i) (b := { c.blocks i with dirty := false }) hcached (.inr rfl) hother
      rfl rfl ?_ ?_ ?_ ?_
    · rw [← h.first i hcached, update_eq_self]
      rfl
    · intro k hk
      rw [hcw, update_of_ne hk]
    · rw [h.data i hcached, update_eq_self]
    · intro _
      rw [hcw, update_self]
  · have hsame : c.save dev i = c := by rw [Cache.save, if_neg hi]
    rw [hsame]
    exact h

theorem Coherent.lookup_eq (hi : (c.blocks i).Cached) :
    lookup c (c.blocks i).key = some (.found none i) := by
  unfold lookup
  rw [h.first i hi]
  exact seek_hit i.pos none (by simp)

theorem Coherent.key_ne_of_miss (hk : k ≠ noKey) (hmiss : cacheLookup c k = some none) (i : Fin n) :
    (c.blocks i).key ≠ k := by
  rintro rfl
  simp [cacheLookup, h.lookup_eq hk] at hmiss

/-- The table after a block is taken out of a chain at whose head it may be. -/
theorem Coherent.first_unlink (hprev : prev = none → c.hashTable b = some i) (hji : j ≠ i)
    (hj : (c.blocks j).Cached) :
    (c.unlink b prev i).hashTable (cacheHash (c.blocks j).key) = some j := by
  cases prev with
  | some p => exact h.first j hj
  | none =>
    have hne : cacheHash (c.blocks j).key ≠ b := by
      intro he
      have hfirst := h.first j hj
      rw [he, hprev rfl] at hfirst
      exact hji (some.inj hfirst).symm
    simp only [Cache.unlink, update_of_ne hne]
    exact h.first j hj

/-! ## Taking blocks out -/

theorem Coherent.unhash (hi : (c.blocks i).Cached)
    (hc' : c.unhash i = some c') : c' = c.unlink (cacheHash (c.blocks i).key) none i := by
  unfold Cache.unhash at hc'
  rw [if_pos (show (c.blocks i).key ≠ noKey from hi)] at hc'
  dsimp only at hc'
  rw [h.first i hi, seek_hit i.pos none (by simp)] at hc'
  cases hc'
  rfl

variable {devId : UInt32} (hdev : Reliable dev size contents) (hsize : size.toNat ≤ 2 ^ 31)
include hdev hsize

theorem Coherent.invalidate (hprev : prev = none → c.hashTable b = some i) :
    Coherent size contents (c.invalidate dev b prev i) store := by
  obtain ⟨w, hw, hcw⟩ := hdev.save_eq (c := c.unlink b prev i) hsize
    ((unlink_blockSize c b prev i).trans h.blockSize) i
  unfold Cache.invalidate
  rw [hw]
  apply h.release (i := i)
  · exact unlink_blockSize c b prev i
  · simp [Cache.setNext, Cache.forget, Cache.setBlock]
  · intro j hji hj
    exact h.first_unlink hprev hji hj
  · rw [unlink_blocks, unlink_devices] at hcw
    exact hcw

theorem Coherent.evict (ht : c.lruTail = some i) (hi : (c.blocks i).Cached)
    (hc' : cacheEvictBlock dev c = some (c', r)) :
    Coherent size contents c' store ∧ (c'.blocks i).key = noKey ∧
      ∀ j, j ≠ i → c'.blocks j = c.blocks j := by
  obtain ⟨w, hw, -⟩ := hdev.save_eq hsize h.blockSize i
  have hsaved : Coherent size contents (c.save dev i) store := h.save hdev hsize i
  have hblks : (c.save dev i).blocks = update c.blocks i { c.blocks i with dirty := false } := by
    rw [hw]
    rfl
  simp only [cacheEvictBlock, ht] at hc'
  obtain ⟨u, hu, hc'⟩ := bind_eq_some_iff.mp hc'
  obtain ⟨v, hv, hc'⟩ := map_eq_some_iff.mp hc'
  cases hc'
  generalize c.save dev i = s at *
  have hcached : (s.blocks i).Cached := by
    rw [hblks, update_self]
    exact hi
  have hclean : (s.blocks i).dirty = false := by
    rw [hblks, update_self]
  have hsame := moveTail_sameBlocks hv
  obtain rfl := hsaved.unhash hcached hu
  have hkept : c'.blocks = update s.blocks i { s.blocks i with key := noKey, dirty := false } := by
    rw [hsame.blocks]
    rfl
  refine ⟨?_, ?_, ?_⟩
  · apply Coherent.relink ?_ hsame
    refine hsaved.release (i := i) rfl rfl ?_ ?_
    · intro j hji hj
      have hfirst : (s.unlink (cacheHash (s.blocks i).key) none i).hashTable
          (cacheHash (s.blocks j).key) = some j :=
        hsaved.first_unlink (fun _ => hsaved.first i hcached) hji hj
      exact hfirst
    · rw [hclean]
      rfl
  · rw [hkept, update_self]
  · intro j hji
    rw [hkept, update_of_ne hji, hblks, update_of_ne hji]

theorem Coherent.take {r : Except Error (Fin n)} (hc' : takeBlock dev c = some (c', r)) :
    Coherent size contents c' store ∧ ∀ i, r = .ok i →
      (c'.blocks i).key = noKey ∧ reused c = some i ∧ ∀ j, j ≠ i → c'.blocks j = c.blocks j := by
  unfold takeBlock at hc'
  cases halloc : cacheAllocBlock c with
  | some i =>
    rw [halloc] at hc'
    cases hc'
    refine ⟨h, ?_⟩
    intro j hj
    cases hj
    exact ⟨cacheAllocBlock_eq_some halloc, by simp [reused, halloc], fun _ _ => rfl⟩
  | none =>
    rw [halloc] at hc'
    obtain ⟨⟨u, e⟩, hu, he⟩ := map_eq_some_iff.mp hc'
    cases htail : c.lruTail with
    | none =>
      simp only [cacheEvictBlock, htail] at hu
      cases hu
      cases he
      exact ⟨h, fun i hi => by cases hi⟩
    | some i =>
      have hi : (c.blocks i).Cached := cacheAllocBlock_eq_none halloc i
      obtain ⟨hcoh, hfree, hrest⟩ := h.evict hdev hsize htail hi hu
      -- the evicted block is the only free one
      have honly : ∀ j, (u.blocks j).key = noKey → j = i := by
        intro j hj
        by_contra hji
        rw [hrest j hji] at hj
        exact cacheAllocBlock_eq_none halloc j hj
      dsimp only at he
      split at he
      next j hj =>
        cases he
        refine ⟨hcoh, ?_⟩
        intro j' hj'
        cases hj'
        obtain rfl := honly j (cacheAllocBlock_eq_some hj)
        exact ⟨hfree, by simp [reused, halloc, htail], hrest⟩
      next =>
        cases he
        exact ⟨hcoh, fun j hj => by cases hj⟩

/-! ## The calls -/

theorem Coherent.fill (hk : k ≠ noKey) (hi : (c.blocks i).key = noKey)
    (halone : ∀ j, j ≠ i → (c.blocks j).Cached → cacheHash (c.blocks j).key ≠ cacheHash k)
    {r : Except Error α} (hc' : fillBlock dev c k i = some (c', r)) :
    Coherent size contents c' store ∧ ∀ x, r = .ok x → x = store k := by
  have hdisk : contents c.devices k = store k := by
    apply h.disk k hk
    intro j hj
    by_cases hji : j = i
    · subst hji
      exact absurd (hj.symm.trans hi) hk
    · have hcached : (c.blocks j).Cached := fun he => hk (hj.symm.trans he)
      exact absurd (by rw [hj]) (halone j hji hcached)
  obtain ⟨w, hw, hcw⟩ := hdev.readDevice_eq hsize k c.devices (c.blocks i).data
  unfold fillBlock at hc'
  rw [h.blockSize, hw] at hc'
  obtain ⟨u, hu, hr⟩ := map_eq_some_iff.mp hc'
  have hsame := cacheMarkAccessed_sameBlocks hu
  cases hr
  constructor
  · apply Coherent.relink ?_ hsame
    refine h.put (i := i) (b := ⟨k, contents c.devices k, false⟩) hk (.inl hi) halone
      rfl rfl ?_ ?_ ?_ ?_
    · simp [Cache.insert, Cache.setNext, Cache.setBlock]
    · intro k' _
      exact congrFun hcw k'
    · rw [hdisk, update_eq_self]
    · intro _
      exact congrFun hcw k
  · intro x hx
    cases hx
    rw [hsame.blocks]
    simp [Cache.insert, Cache.setNext, Cache.setBlock, hdisk]

theorem Coherent.storeBlock {u : Cache n δ α} (hk : k ≠ noKey)
    (hi : (c.blocks i).key = noKey ∨ (c.blocks i).key = k)
    (halone : ∀ j, j ≠ i → (c.blocks j).Cached → cacheHash (c.blocks j).key ≠ cacheHash k)
    (hblockSize : u.blockSize = c.blockSize)
    (hblks : u.blocks = update c.blocks i { c.blocks i with key := k })
    (htable : u.hashTable = update c.hashTable (cacheHash k) (some i))
    (hdevices : u.devices = c.devices)
    (hc' : storeBlock dev u i buffer sync = some (c', r)) :
    r = .ok () ∧ Coherent size contents c' (update store k buffer) := by
  obtain ⟨v, hv, hr⟩ := map_eq_some_iff.mp hc'
  have hsame := cacheMarkAccessed_sameBlocks hv
  have hput : Coherent size contents
      (v.setBlock i { v.blocks i with data := buffer, dirty := true })
      (update store k buffer) := by
    refine h.put (i := i) (b := ⟨k, buffer, true⟩) hk hi halone ?_ ?_ ?_ ?_ rfl ?_
    · exact hsame.blockSize.trans hblockSize
    · simp [Cache.setBlock, hsame.blocks, hblks]
    · exact hsame.hashTable.trans htable
    · intro k' _
      exact congrArg (contents · k') (hsame.devices.trans hdevices)
    · intro hd
      cases hd
  have hdirty :
      ((v.setBlock i { v.blocks i with data := buffer, dirty := true }).blocks i).dirty := by
    simp [Cache.setBlock]
  dsimp only at hr
  generalize v.setBlock i { v.blocks i with data := buffer, dirty := true } = t at *
  cases sync with
  | false =>
    cases hr
    exact ⟨rfl, hput⟩
  | true =>
    rw [if_pos rfl] at hr
    obtain ⟨w, hw, -⟩ := hdev.writeback_eq hsize hput.blockSize hdirty
    have hsaved := hput.save hdev hsize i
    rw [Cache.save, if_pos hdirty, hr] at hsaved
    rw [hr] at hw
    exact ⟨congrArg Prod.snd hw, hsaved⟩

theorem Coherent.writeback (hi : (c.blocks i).dirty) :
    Coherent size contents (cacheWritebackBlock dev c i).1 store := by
  have hsaved := h.save hdev hsize i
  rw [Cache.save, if_pos hi] at hsaved
  exact hsaved

theorem Coherent.flushAll : Coherent size contents (vfsCacheFlushAll dev c).1 store :=
  vfsCacheFlushAll_keeps dev (P := fun c => Coherent size contents c store)
    (fun _ _ hc hi => hc.writeback hdev hsize hi) h

/-- The invariant of the inner loop: the walk is at the head of the chain while there is no block
before it. -/
theorem Coherent.invalidateChain {rounds : ℕ} {p : Option (Fin n)}
    (hprev : prev = none → c.hashTable b = p)
    (hc' : invalidateChain dev devId b rounds prev p c = some c') :
    Coherent size contents c' store := by
  induction rounds generalizing c prev p with
  | zero =>
    cases p with
    | none =>
      cases hc'
      exact h
    | some i => cases hc'
  | succ rounds ih =>
    cases p with
    | none =>
      cases hc'
      exact h
    | some i =>
      rw [BlockCache.invalidateChain] at hc'
      split_ifs at hc' with hi
      · refine ih (h.invalidate hdev hsize hprev) ?_ hc'
        intro hnone
        subst hnone
        exact invalidate_hashTable dev c b i
      · exact ih h (fun hnone => by cases hnone) hc'

theorem Coherent.invalidateDevice
    (hc' : vfsCacheInvalidateDevice dev c devId = some c') : Coherent size contents c' store := by
  unfold vfsCacheInvalidateDevice at hc'
  generalize List.finRange 256 = l at hc'
  induction l generalizing c with
  | nil =>
    cases hc'
    exact h
  | cons b l ih =>
    obtain ⟨u, hu, hc'⟩ := bind_eq_some_iff.mp hc'
    exact ih (h.invalidateChain hdev hsize (fun _ => rfl) hu) hc'

end

end

/-! ## Runs -/

structure Session (n : ℕ) (δ α : Type*) where
  cache : Cache n δ α
  store : Store α

variable (dev : UInt32 → Option (Device δ α)) (s : Session n δ α)

/-- One call; a write that succeeds is made to the store as well. -/
def Session.step : Request α → Option (Session n δ α)
  | .write k buffer sync =>
    (vfsCacheWriteBlock dev s.cache k buffer sync).map fun r =>
      match r.2 with
      | .ok _ => ⟨r.1, update s.store k buffer⟩
      | .error _ => ⟨r.1, s.store⟩
  | request => (serve dev s.cache request).map fun c => ⟨c, s.store⟩

def Session.Transparent : Request α → Prop
  | .read k => ∀ c x, vfsCacheReadBlock dev s.cache k = some (c, .ok x) → x = s.store k
  | _ => True

/-- The key is not the mark of a free block and, unless a block holds it, the block that is
going to hold it is the only one of its bucket. -/
def Cache.Alone (c : Cache n δ α) (k : Key) : Prop :=
  k ≠ noKey ∧ ((∃ i, (c.blocks i).key = k) ∨
    ∀ i, reused c ≠ some i → (c.blocks i).Cached → cacheHash (c.blocks i).key ≠ cacheHash k)

instance (c : Cache n δ α) (k : Key) : Decidable (c.Alone k) :=
  inferInstanceAs (Decidable (_ ∧ _))

def Session.Separate : Request α → Prop
  | .read k => s.cache.Alone k
  | .write k _ _ => s.cache.Alone k
  | _ => True

instance : (request : Request α) → Decidable (s.Separate request)
  | .read k | .write k _ _ => inferInstanceAs (Decidable (s.cache.Alone k))
  | .flushBlock _ | .invalidateBlock _ | .flushAll | .invalidateDevice _ => isTrue trivial

section

variable {dev} {size : UInt32} {contents : δ → Store α}

variable {c c' : Cache n δ α} {k : Key}

section

variable {store : Store α} (h : Coherent size contents c store) (hdev : Reliable dev size contents)
  (hsize : size.toNat ≤ 2 ^ 31) (hk : c.Alone k)
include h hdev hsize hk

theorem Coherent.take_alone (hmiss : cacheLookup c k = some none) {i : Fin n}
    (hc' : takeBlock dev c = some (c', .ok i)) :
    Coherent size contents c' store ∧ (c'.blocks i).key = noKey ∧
      ∀ j, j ≠ i → (c'.blocks j).Cached → cacheHash (c'.blocks j).key ≠ cacheHash k := by
  obtain ⟨hcoh, htaken⟩ := h.take hdev hsize hc'
  obtain ⟨hfree, hreused, hrest⟩ := htaken i rfl
  refine ⟨hcoh, hfree, ?_⟩
  intro j hji hj
  rw [hrest j hji] at hj ⊢
  rcases hk.2 with ⟨l, hl⟩ | hall
  · exact absurd hl (h.key_ne_of_miss hk.1 hmiss l)
  · apply hall j ?_ hj
    rw [hreused]
    intro he
    exact hji (some.inj he).symm

theorem Coherent.read {r : Except Error α} (hc' : vfsCacheReadBlock dev c k = some (c', r)) :
    Coherent size contents c' store ∧ ∀ x, r = .ok x → x = store k := by
  unfold vfsCacheReadBlock at hc'
  split_ifs at hc' with hen
  · obtain ⟨found, hfound, hc'⟩ := bind_eq_some_iff.mp hc'
    cases found with
    | some i =>
      obtain ⟨u, hu, hr⟩ := map_eq_some_iff.mp hc'
      cases hr
      have hsame := cacheMarkAccessed_sameBlocks hu
      have hkey : (c.blocks i).key = k := key_of_cacheLookup hfound
      refine ⟨h.relink hsame, ?_⟩
      intro x hx
      cases hx
      rw [hsame.blocks, ← hkey]
      exact h.data i (by rw [Block.Cached, hkey]; exact hk.1)
    | none =>
      obtain ⟨⟨u, taken⟩, hu, hc'⟩ := bind_eq_some_iff.mp hc'
      cases taken with
      | error e =>
        cases hc'
        exact ⟨(h.take hdev hsize hu).1, fun x hx => by cases hx⟩
      | ok i =>
        obtain ⟨hcoh, hfree, halone⟩ := h.take_alone hdev hsize hk hfound hu
        exact hcoh.fill hdev hsize hk.1 hfree halone hc'
  · cases hc'
    exact ⟨h, fun x hx => by cases hx⟩

theorem Coherent.write (hc' : vfsCacheWriteBlock dev c k buffer sync = some (c', r)) :
    (r = .ok () → Coherent size contents c' (update store k buffer)) ∧
      (r ≠ .ok () → Coherent size contents c' store) := by
  unfold vfsCacheWriteBlock at hc'
  split_ifs at hc' with hen
  · obtain ⟨found, hfound, hc'⟩ := bind_eq_some_iff.mp hc'
    cases found with
    | some i =>
      have hkey : (c.blocks i).key = k := key_of_cacheLookup hfound
      have hcached : (c.blocks i).Cached := by
        rw [Block.Cached, hkey]
        exact hk.1
      have halone : ∀ j, j ≠ i → (c.blocks j).Cached →
        cacheHash (c.blocks j).key ≠ cacheHash k := by
        intro j hji hj he
        rw [← hkey] at he
        exact hji (h.bucket_injective hj hcached he)
      have hstored := h.storeBlock hdev hsize hk.1 (.inr hkey) halone rfl
        (by rw [← hkey, update_eq_self])
        (by rw [← hkey, ← h.first i hcached, update_eq_self]) rfl hc'
      exact ⟨fun _ => hstored.2, fun hr => absurd hstored.1 hr⟩
    | none =>
      obtain ⟨⟨u, taken⟩, hu, hc'⟩ := bind_eq_some_iff.mp hc'
      cases taken with
      | error e =>
        cases hc'
        exact ⟨fun hr => (by cases hr), fun _ => (h.take hdev hsize hu).1⟩
      | ok i =>
        obtain ⟨hcoh, hfree, halone⟩ := h.take_alone hdev hsize hk hfound hu
        have hstored := hcoh.storeBlock (u := (u.setBlock i { u.blocks i with key := k }).insert i)
          hdev hsize hk.1 (.inl hfree) halone rfl rfl
          (by simp [Cache.insert, Cache.setNext, Cache.setBlock]) rfl hc'
        exact ⟨fun _ => hstored.2, fun hr => absurd hstored.1 hr⟩
  · cases hc'
    exact ⟨fun hr => (by cases hr), fun _ => h⟩

end

theorem Session.step_coherent {s t : Session n δ α} {request : Request α}
    (h : Coherent size contents s.cache s.store) (hdev : Reliable dev size contents)
    (hsize : size.toNat ≤ 2 ^ 31) (hok : s.Separate request)
    (hstep : s.step dev request = some t) : Coherent size contents t.cache t.store := by
  cases request with
  | read k =>
    obtain ⟨c, hc, rfl⟩ := map_eq_some_iff.mp hstep
    obtain ⟨⟨c, r⟩, hr, rfl⟩ := map_eq_some_iff.mp hc
    exact (h.read hdev hsize hok hr).1
  | write k buffer sync =>
    obtain ⟨⟨c, r⟩, hr, rfl⟩ := map_eq_some_iff.mp hstep
    have hw := h.write hdev hsize hok hr
    cases r with
    | ok u => exact hw.1 rfl
    | error e => exact hw.2 (fun he => by cases he)
  | flushBlock k =>
    obtain ⟨c, hc, rfl⟩ := map_eq_some_iff.mp hstep
    obtain ⟨r, hr, rfl⟩ := map_eq_some_iff.mp hc
    obtain ⟨found, -, rfl⟩ := map_eq_some_iff.mp hr
    cases found with
    | none => exact h
    | some i =>
      dsimp only
      split_ifs with hi
      · exact h.writeback hdev hsize hi
      · exact h
  | invalidateBlock k =>
    obtain ⟨c, hc, rfl⟩ := map_eq_some_iff.mp hstep
    obtain ⟨found, hfound, rfl⟩ := map_eq_some_iff.mp hc
    cases found with
    | absent => exact h
    | found prev i =>
      apply h.invalidate hdev hsize
      rintro rfl
      exact seek_found_first hfound
  | flushAll =>
    cases hstep
    exact h.flushAll hdev hsize
  | invalidateDevice devId =>
    obtain ⟨c, hc, rfl⟩ := map_eq_some_iff.mp hstep
    exact h.invalidateDevice hdev hsize hc

theorem coherent_init (wc : Bool) (data : Fin n → α) (w : δ) :
    Coherent size contents (initBlocks n size wc data w) (contents w) := by
  constructor
  · rfl
  · intro i hi
    exact absurd rfl hi
  · intro i hi
    exact absurd rfl hi
  · intro i _
    rfl
  · intro k _ _
    rfl

end

/-- The session that starts with `vfs_cache_init`: the store is what the devices hold. -/
def Session.start (contents : δ → Store α) (blockSize numBlocks : UInt32) (writeCache : Bool)
    (data : Fin (min numBlocks.toNat maxCacheBlocks) → α) (w : δ) :
    Session (min numBlocks.toNat maxCacheBlocks) δ α :=
  ⟨vfsCacheInit blockSize numBlocks writeCache data w, contents w⟩

/-- Every successful read returns the last value written, or what was on the device at the start, as
long as the keys used are alone. -/
theorem read_returns_last_write (blockSize numBlocks : UInt32) {contents : δ → Store α}
    (hsize : (alignBlockSize blockSize).toNat ≤ 2 ^ 31)
    (hdev : Reliable dev (alignBlockSize blockSize) contents) (writeCache : Bool)
    (data : Fin (min numBlocks.toNat maxCacheBlocks) → α) (w : δ) (requests : List (Request α))
    (hok : Meets (Session.step dev) Session.Separate
      (Session.start contents blockSize numBlocks writeCache data w) requests) :
    Meets (Session.step dev) (Session.Transparent dev)
      (Session.start contents blockSize numBlocks writeCache data w) requests := by
  apply Meets.imp (Session.step dev) (I := fun s => Coherent (alignBlockSize blockSize) contents
    s.cache s.store) ?_ ?_ (coherent_init writeCache data w) hok
  · intro s request t h hsep hstep
    exact Session.step_coherent h hdev hsize hsep hstep
  · intro s request h hsep
    cases request with
    | read k =>
      intro c x hread
      exact (h.read hdev hsize hsep hread).2 x rfl
    | _ => trivial

def memoryDisk (d : UInt32) : Option (Device (Store ℕ) ℕ) :=
  some {
    blockSize := 512
    blockSize_ne := by decide
    readBlocks := some fun w b count _ => (w, w (d, b.toUInt32), count)
    writeBlocks := some fun w b count data => (update w (d, b.toUInt32) data, count)
    sync := none }

theorem memoryDisk_reliable : Reliable memoryDisk 512 id := by
  intro d
  refine ⟨_, rfl, rfl, ⟨_, rfl, ?_⟩, ⟨_, rfl, ?_⟩, ?_⟩
  · intro w b data
    exact ⟨w, by simp, rfl⟩
  · intro w b data
    exact ⟨_, rfl, by simp⟩
  · intro sync hsync
    cases hsync

def emptySession : Session 4 (Store ℕ) ℕ :=
  Session.start id 512 4 false (fun _ => 0) (fun _ => 0)

theorem two_buckets_transparent : Meets (Session.step memoryDisk) Session.Separate emptySession
      [.write (1, 5) 7 false, .write (1, 6) 8 true, .read (1, 5)] ∧
    Meets (Session.step memoryDisk) (Session.Transparent memoryDisk) emptySession
      [.write (1, 5) 7 false, .write (1, 6) 8 true, .read (1, 5)] := by
  have hok : Meets (Session.step memoryDisk) Session.Separate emptySession
      [.write (1, 5) 7 false, .write (1, 6) 8 true, .read (1, 5)] := by
    refine meets_cons _ (by decide) (by decide) ?_
    refine meets_cons _ (by decide) (by decide) ?_
    refine meets_cons _ (by decide) (by decide) ?_
    trivial
  exact ⟨hok, read_returns_last_write memoryDisk 512 4 (by decide) memoryDisk_reliable
    false (fun _ => 0) (fun _ => 0) _ hok⟩

/-- A block that holds key (0, 0) is taken for a free one and given to another key, and what
was written to it is gone. -/
theorem key_zero_is_lost : ∃ s c x, exec (Session.step memoryDisk) emptySession
        [.write (0, 0) 7 false, .write (1, 5) 8 false] = some s ∧
      vfsCacheReadBlock memoryDisk s.cache (0, 0) = some (c, .ok x) ∧ x ≠ s.store (0, 0) := by
  have hrun : ((exec (Session.step memoryDisk) emptySession
      [.write (0, 0) 7 false, .write (1, 5) 8 false]).bind fun s =>
        (vfsCacheReadBlock memoryDisk s.cache (0, 0)).map fun r =>
          (r.2.toOption, s.store (0, 0))) = some (some 0, 7) := by
    decide
  obtain ⟨s, hs, hread⟩ := bind_eq_some_iff.mp hrun
  obtain ⟨⟨c, r⟩, hr, he⟩ := map_eq_some_iff.mp hread
  cases r with
  | error e => simp [Except.toOption] at he
  | ok x =>
    refine ⟨s, c, x, hs, hr, ?_⟩
    simp only [Except.toOption, Prod.mk.injEq, some.injEq] at he
    omega

/-- After a flush every device holds the last value written to each of its blocks, or what it held
at the start, as long as the keys used are alone. -/
theorem flush_reaches_devices (blockSize numBlocks : UInt32) {contents : δ → Store α}
    (hsize : (alignBlockSize blockSize).toNat ≤ 2 ^ 31)
    (hdev : Reliable dev (alignBlockSize blockSize) contents) (writeCache : Bool)
    (data : Fin (min numBlocks.toNat maxCacheBlocks) → α) (w : δ) (requests : List (Request α))
    (hok : Meets (Session.step dev) Session.Separate
      (Session.start contents blockSize numBlocks writeCache data w) requests)
    {s : Session _ δ α} (hs : exec (Session.step dev)
      (Session.start contents blockSize numBlocks writeCache data w) requests = some s) :
    (vfsCacheFlushAll dev s.cache).2 = .ok () ∧
      (∀ i, ((vfsCacheFlushAll dev s.cache).1.blocks i).dirty = false) ∧
      ∀ k, k ≠ noKey → contents (vfsCacheFlushAll dev s.cache).1.devices k = s.store k := by
  have hrun : Throughout (Session.step dev)
      (fun s => Coherent (alignBlockSize blockSize) contents s.cache s.store) _ requests :=
    throughout_of_meets _ (fun _ _ _ h hsep hstep => Session.step_coherent h hdev hsize hsep hstep)
      (coherent_init writeCache data w) hok
  have h := hrun.last _ hs
  obtain ⟨hres, hclean⟩ := hdev.flushAll_clean hsize h.blockSize
  exact ⟨hres, hclean, fun k hk => (h.flushAll hdev hsize).disk k hk fun i _ => hclean i⟩

theorem written_block_flushed : ∃ s,
    exec (Session.step memoryDisk) emptySession [.write (1, 5) 7 false] = some s ∧
      (vfsCacheFlushAll memoryDisk s.cache).1.devices (1, 5) = 7 := by
  have hstore : (exec (Session.step memoryDisk) emptySession [.write (1, 5) 7 false]).map
      (·.store (1, 5)) = some 7 := by
    decide
  obtain ⟨s, hs, h7⟩ := map_eq_some_iff.mp hstore
  have hflushed := flush_reaches_devices memoryDisk 512 4 (by decide) memoryDisk_reliable false
    (fun _ => 0) (fun _ => 0) [.write (1, 5) 7 false] ⟨by decide, fun _ _ => trivial⟩ hs
  exact ⟨s, hs, (hflushed.2.2 (1, 5) (by decide)).trans h7⟩

end UintOS.BlockCache
