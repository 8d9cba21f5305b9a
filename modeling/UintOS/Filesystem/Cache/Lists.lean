import UintOS.Filesystem.Cache.Model

/-!
# The recency list and the hash chains

Both lists are threaded through the one field `next`. With two blocks or more, the first block added
to a chain closes the recency list to a circle: it moves from the tail to the head, and the block
before it still points to it. With one block the only link is null, and the lists go wrong only when
the block gets a key without being added to a chain, or is added with the key of a free block.
-/

namespace UintOS.BlockCache

open Function Links List Runs

variable {n : ℕ} {δ α : Type*}

/-- The recency list is null-terminated, has every block once and ends at the tail; a chain is
null-terminated and has the cached blocks of its bucket, each once; and the walks end. -/
structure Integral (c : Cache n δ α) : Prop where
  recency : ∃ l, Chain c.next l ∧ l.Nodup ∧ l.head? = c.lruHead ∧ l.getLast? = c.lruTail ∧
    ∀ i, i ∈ l
  chains : ∀ h, ∃ l, Chain c.next l ∧ l.Nodup ∧ l.head? = c.hashTable h ∧
    ∀ i, i ∈ l ↔ (c.blocks i).Cached ∧ cacheHash (c.blocks i).key = h
  lookups : ∀ k, (cacheLookup c k).isSome
  predecessors : ∀ i, (predecessor c i).isSome

theorem seek_isSome_of_nodup {next : Fin n → Option (Fin n)} {l : List (Fin n)}
    (h : Chain next l) (hnd : l.Nodup) (test : Fin n → Bool) :
    (seek next test n none l.head?).isSome := by
  apply h.seek_isSome
  simpa using hnd.length_le_card

variable {c c' : Cache n δ α} {i : Fin n} {b : Block α}

/-- The walks end because the lists do. -/
theorem Integral.of_lists
    (hrec : ∃ l, Chain c.next l ∧ l.Nodup ∧ l.head? = c.lruHead ∧ l.getLast? = c.lruTail ∧
      ∀ i, i ∈ l) (hchains : ∀ h, ∃ l, Chain c.next l ∧ l.Nodup ∧ l.head? = c.hashTable h ∧
      ∀ i, i ∈ l ↔ (c.blocks i).Cached ∧ cacheHash (c.blocks i).key = h) : Integral c := by
  refine ⟨hrec, hchains, ?_, ?_⟩
  · intro k
    obtain ⟨l, hl, hnd, hhead, -⟩ := hchains (cacheHash k)
    unfold cacheLookup lookup
    rw [Option.isSome_map, ← hhead]
    exact seek_isSome_of_nodup hl hnd _
  · intro i
    obtain ⟨l, hl, hnd, hhead, -⟩ := hrec
    unfold predecessor
    rw [← hhead]
    exact seek_isSome_of_nodup hl hnd _

theorem not_integral_of_next_head {j : Fin n} (hhead : c.lruHead = some i)
    (hj : c.next j = some i) : ¬ Integral c := by
  rintro ⟨⟨l, hl, hnd, hl', -, hall⟩, -⟩
  exact hl.next_ne_head (hall j) (hl'.trans hhead) hj

theorem not_integral_of_empty (hi : (c.blocks i).Cached)
    (hempty : c.hashTable (cacheHash (c.blocks i).key) = none) : ¬ Integral c := by
  rintro ⟨-, hchains, -⟩
  obtain ⟨l, -, -, hhead, hmem⟩ := hchains (cacheHash (c.blocks i).key)
  rw [hempty, head?_eq_none_iff] at hhead
  subst hhead
  exact not_mem_nil ((hmem i).mpr ⟨hi, rfl⟩)

theorem not_integral_of_free {h : Bucket} (hi : ¬ (c.blocks i).Cached)
    (hfirst : c.hashTable h = some i) : ¬ Integral c := by
  rintro ⟨-, hchains, -⟩
  obtain ⟨l, -, -, hhead, hmem⟩ := hchains h
  exact hi ((hmem i).mp (mem_of_head? (hhead.trans hfirst))).1

/-! ## The recency list of `vfs_cache_init` -/

def newestFirst : (k : ℕ) → k ≤ n → List (Fin n)
  | 0, _ => []
  | k + 1, h => ⟨k, h⟩ :: newestFirst k (by omega)

section

variable (k : ℕ) (h : k ≤ n)
include h

theorem newestFirst_head :
    (newestFirst k h).head? = if hk : 0 < k then some ⟨k - 1, by omega⟩ else none := by
  cases k <;> simp [newestFirst]

theorem newestFirst_chain : Chain before (newestFirst k h) := by
  induction k with
  | zero => trivial
  | succ k ih =>
    refine ⟨?_, ih (by omega)⟩
    rw [newestFirst_head]
    by_cases hk : k = 0
    · simp [before, hk]
    · rw [dif_pos (by omega)]
      simp [before, hk]

theorem mem_newestFirst (i : Fin n) : i ∈ newestFirst k h ↔ i.val < k := by
  induction k with
  | zero => simp [newestFirst]
  | succ k ih =>
    rw [newestFirst, mem_cons, ih, Fin.ext_iff]
    dsimp only
    omega

theorem newestFirst_nodup : (newestFirst k h).Nodup := by
  induction k with
  | zero => exact nodup_nil
  | succ k ih =>
    refine nodup_cons.mpr ⟨?_, ih (by omega)⟩
    rw [mem_newestFirst]
    exact Nat.lt_irrefl k

end

theorem newestFirst_last (k : ℕ) (h : k + 1 ≤ n) :
    (newestFirst (k + 1) h).getLast? = some ⟨0, by omega⟩ := by
  induction k with
  | zero => rfl
  | succ k ih =>
    rw [newestFirst, getLast?_cons, ih (by omega)]
    rfl

/-! ## States with sound lists -/

/-- The links are as `vfs_cache_init` left them; if a block is cached, it is the only one. -/
structure Settled (c : Cache n δ α) : Prop where
  enabled : c.enabled = true
  next : c.next = before
  head : c.lruHead = newest n
  tail : c.lruTail = oldest n
  table : ∀ h i, c.hashTable h = some i ↔
    (c.blocks i).Cached ∧ cacheHash (c.blocks i).key = h
  single : ∀ i, (c.blocks i).Cached → n = 1
  clean : ∀ i, ¬ (c.blocks i).Cached → (c.blocks i).dirty = false

theorem before_single (hn : n = 1) (i : Fin n) : before i = none := by
  subst hn
  simp [before]

section

variable (h : Settled c)
include h

theorem Settled.next_none (hi : (c.blocks i).Cached) : c.next i = none := by
  rw [h.next]
  exact before_single (h.single i hi) i

theorem Settled.integral : Integral c := by
  apply Integral.of_lists
  · refine ⟨newestFirst n le_rfl, ?_, newestFirst_nodup n _, ?_, ?_, ?_⟩
    · rw [h.next]
      exact newestFirst_chain n _
    · rw [h.head]
      exact newestFirst_head n _
    · rw [h.tail]
      cases n with
      | zero => rfl
      | succ n => exact newestFirst_last n _
    · intro i
      rw [mem_newestFirst]
      exact i.isLt
  · intro b
    cases hb : c.hashTable b with
    | none =>
      refine ⟨[], trivial, nodup_nil, rfl, ?_⟩
      intro i
      rw [← h.table b i, hb]
      simp
    | some i =>
      refine ⟨[i], ⟨h.next_none ((h.table b i).mp hb).1, trivial⟩, nodup_singleton i, rfl, ?_⟩
      intro j
      rw [← h.table b j, hb]
      simp [eq_comm]

theorem Settled.setBlock (hkey : b.key = (c.blocks i).key)
    (hclean : ¬ b.Cached → b.dirty = false) (w : δ) :
    Settled { c.setBlock i b with devices := w } := by
  have hkeys : ∀ j, (update c.blocks i b j).key = (c.blocks j).key := by
    intro j
    by_cases hji : j = i
    · subst hji
      simpa using hkey
    · rw [update_of_ne hji]
  constructor
  · exact h.enabled
  · exact h.next
  · exact h.head
  · exact h.tail
  · intro b' j
    simp only [Cache.setBlock, Block.Cached, hkeys]
    exact h.table b' j
  · intro j hj
    simp only [Cache.setBlock, Block.Cached, hkeys] at hj
    exact h.single j hj
  · intro j hj
    by_cases hji : j = i
    · subst hji
      simp only [Cache.setBlock, update_self] at hj ⊢
      exact hclean hj
    · simp only [Cache.setBlock, update_of_ne hji] at hj ⊢
      exact h.clean j hj

theorem Settled.drop (hi : (c.blocks i).Cached)
    (hen : c'.enabled = c.enabled) (hnext : c'.next = c.next) (hhead : c'.lruHead = c.lruHead)
    (htail : c'.lruTail = c.lruTail) (hkey : (c'.blocks i).key = noKey)
    (hdirty : (c'.blocks i).dirty = false)
    (htable : c'.hashTable = update c.hashTable (cacheHash (c.blocks i).key) none) :
    Settled c' := by
  obtain rfl : n = 1 := h.single i hi
  have hfree : ∀ j, ¬ (c'.blocks j).Cached := by
    intro j hj
    rw [Subsingleton.elim j i] at hj
    exact hj hkey
  refine ⟨hen.trans h.enabled, hnext.trans h.next, hhead.trans h.head, htail.trans h.tail,
    ?_, fun _ _ => rfl, ?_⟩
  · intro b j
    constructor
    · intro hb
      rw [htable] at hb
      by_cases hbi : b = cacheHash (c.blocks i).key
      · subst hbi
        rw [update_self] at hb
        cases hb
      · rw [update_of_ne hbi] at hb
        rw [Subsingleton.elim j i] at hb
        exact absurd ((h.table b i).mp hb).2.symm hbi
    · rintro ⟨hj, -⟩
      exact absurd hj (hfree j)
  · intro j _
    rw [Subsingleton.elim j i]
    exact hdirty

def Cache.Empty (c : Cache n δ α) : Prop := ∀ i, ¬ (c.blocks i).Cached

theorem Settled.table_empty (hempty : c.Empty) (b : Bucket) : c.hashTable b = none := by
  cases hb : c.hashTable b with
  | none => rfl
  | some i => exact absurd ((h.table b i).mp hb).1 (hempty i)

theorem Settled.add (hn : n = 1) (hempty : c.Empty)
    (hi : (c'.blocks i).Cached) (hen : c'.enabled = c.enabled) (hnext : c'.next = c.next)
    (hhead : c'.lruHead = c.lruHead) (htail : c'.lruTail = c.lruTail) (htable : c'.hashTable =
      update c.hashTable (cacheHash (c'.blocks i).key) (some i)) : Settled c' := by
  subst hn
  refine ⟨hen.trans h.enabled, hnext.trans h.next, hhead.trans h.head, htail.trans h.tail,
    ?_, fun _ _ => rfl, ?_⟩
  · intro b j
    rw [Subsingleton.elim j i, htable]
    by_cases hbi : b = cacheHash (c'.blocks i).key
    · subst hbi
      simp [hi]
    · rw [update_of_ne hbi, h.table_empty hempty b]
      constructor
      · intro hb
        cases hb
      · rintro ⟨-, hb⟩
        exact absurd hb.symm hbi
  · intro j hj
    rw [Subsingleton.elim j i] at hj
    exact absurd hi hj

end

section

variable (dev : UInt32 → Option (Device δ α))

variable {c : Cache n δ α} {i : Fin n}

theorem Settled.writeback (h : Settled c) (hi : (c.blocks i).dirty) :
    Settled (cacheWritebackBlock dev c i).1 := by
  obtain ⟨d, w, hw⟩ := cacheWritebackBlock_eq dev c i
  rw [hw]
  apply h.setBlock
  · rfl
  · intro hfree
    have := h.clean i hfree
    simp_all

theorem Settled.lookup_eq (h : Settled c) (k : Key) : lookup c k = some .absent ∨
      ∃ i, lookup c k = some (.found none i) ∧ (c.blocks i).key = k ∧ (c.blocks i).Cached := by
  unfold lookup
  cases hb : c.hashTable (cacheHash k) with
  | none => exact .inl (seek_null _ _ _)
  | some i =>
    have hi := ((h.table _ i).mp hb).1
    by_cases hk : (c.blocks i).key = k
    · exact .inr ⟨i, seek_hit i.pos none (by simpa using hk), hk, hi⟩
    · obtain rfl := h.single i hi
      left
      rw [seek, if_neg (by simpa using hk), h.next, before_single rfl i]
      rfl

/-- The only block is at the head of the recency list and stays there. -/
theorem cacheMarkAccessed_single (hhead : c.lruHead = newest n) (hn : n = 1)
    (i : Fin n) : cacheMarkAccessed c i = some c := by
  subst hn
  have hi : c.lruHead = some i := by
    rw [hhead, Subsingleton.elim i 0]
    rfl
  rw [cacheMarkAccessed, if_pos hi]

/-- The first of several blocks is the tail of the recency list. When it moves to the head,
the block before it still points to it. -/
theorem cacheMarkAccessed_circle (hnext : c.next = before) (hhead : c.lruHead = newest n)
    (htail : c.lruTail = oldest n) (hn : 2 ≤ n) (hi : i.val = 0) :
    ∃ c', cacheMarkAccessed c i = some c' ∧ c'.lruHead = some i ∧ ∃ j, c'.next j = some i := by
  have hi0 : i = ⟨0, by omega⟩ := Fin.ext hi
  have hne : c.lruHead ≠ some i := by
    rw [hhead, newest, dif_pos (by omega), hi0]
    simp
    omega
  have htl : c.lruTail = some i := by
    rw [htail, oldest, dif_pos (by omega), hi0]
  refine ⟨_, by rw [cacheMarkAccessed, if_neg hne, if_pos htl], rfl, ⟨1, by omega⟩, ?_⟩
  have hone : (⟨1, by omega⟩ : Fin n) ≠ i := by
    rw [hi0]
    simp
  simp only [Cache.pushFront, Cache.setNext]
  rw [update_of_ne hone, hnext, hi0]
  simp [before]

theorem unhash_first (hi : (c.blocks i).Cached)
    (hfirst : c.hashTable (cacheHash (c.blocks i).key) = some i) :
    c.unhash i = some (c.unlink (cacheHash (c.blocks i).key) none i) := by
  have hne : (c.blocks i).key ≠ noKey := hi
  simp only [Cache.unhash, if_pos hne, hfirst]
  rw [seek_hit i.pos none (by simp)]
  rfl

section

variable (h : Settled c)
include h

theorem Settled.evict (hi : (c.blocks i).Cached) :
    ∃ c', cacheEvictBlock dev c = some (c', .ok ()) ∧ Settled c' ∧ (c'.blocks i).key = noKey ∧
      c'.blockSize = c.blockSize ∧ c'.devices = (c.save dev i).devices ∧
      (c'.blocks i).data = (c.blocks i).data := by
  obtain rfl : n = 1 := h.single i hi
  have htail : c.lruTail = some i := by
    rw [h.tail, Subsingleton.elim i 0]
    rfl
  obtain ⟨d, w, hw⟩ := save_eq dev c i
  have hblock : (c.save dev i).blocks i = { c.blocks i with dirty := d } := by
    rw [hw]
    exact update_self i _ c.blocks
  have hfirst : (c.save dev i).hashTable (cacheHash ((c.save dev i).blocks i).key) = some i := by
    rw [hblock, hw]
    exact (h.table _ i).mpr ⟨hi, rfl⟩
  have hun := unhash_first (show ((c.save dev i).blocks i).Cached by rw [hblock]; exact hi) hfirst
  have hnone := h.next_none hi
  refine ⟨(((c.save dev i).unlink (cacheHash ((c.save dev i).blocks i).key) none i).forget i),
    ?_, ?_, ?_, ?_, ?_, ?_⟩
  · have hlink : (((c.save dev i).unlink (cacheHash ((c.save dev i).blocks i).key) none i).forget
        i).next i = none := by
      rw [hw]
      exact hnone
    simp only [cacheEvictBlock, htail, hun, Option.bind_some, Cache.moveTail, hlink,
      Option.map_some]
  · rw [hblock, hw]
    refine h.drop hi rfl rfl rfl rfl ?_ ?_
      (congrArg (update c.hashTable (cacheHash (c.blocks i).key)) hnone)
    · simp [Cache.forget, Cache.setBlock]
    · simp [Cache.forget, Cache.setBlock]
  · simp [Cache.forget, Cache.setBlock]
  · rw [hw]
    rfl
  · rfl
  · simp [Cache.forget, Cache.setBlock, hblock]

/-- What a miss finds: no space in a cache without blocks, and otherwise the first block, in
a cache that is empty then. -/
theorem Settled.take : (n = 0 ∧ takeBlock dev c = some (c, .error .noSpace)) ∨
      ∃ i c', takeBlock dev c = some (c', .ok i) ∧ reused c = some i ∧ i.val = 0 ∧ Settled c' ∧
        c'.Empty ∧ c'.blockSize = c.blockSize ∧ c'.devices = (c.save dev i).devices ∧
        (c'.blocks i).data = (c.blocks i).data := by
  cases halloc : cacheAllocBlock c with
  | some i =>
    have hfree : (c.blocks i).key = noKey := cacheAllocBlock_eq_some halloc
    have hempty : c.Empty := by
      intro j hj
      obtain rfl := h.single j hj
      rw [Subsingleton.elim j i] at hj
      exact hj hfree
    have hzero : i.val = 0 := by
      by_contra hpos
      have hlt : (⟨0, i.pos⟩ : Fin n) < i := by
        rw [Fin.lt_def]
        dsimp only
        omega
      have hsome := (Fin.find?_eq_some_iff.mp halloc).2 _ hlt
      simp only [decide_eq_false_iff_not] at hsome
      exact hempty _ hsome
    have hclean : (c.blocks i).dirty = false := h.clean i (hempty i)
    right
    refine ⟨i, c, by simp [takeBlock, halloc], by simp [reused, halloc], hzero, h, hempty, rfl, ?_,
      rfl⟩
    simp [Cache.save, hclean]
  | none =>
    by_cases hn : n = 0
    · left
      have htail : c.lruTail = none := by
        rw [h.tail, oldest, dif_neg (by omega)]
      exact ⟨hn, by simp [takeBlock, halloc, cacheEvictBlock, htail]⟩
    · right
      have hcached := cacheAllocBlock_eq_none halloc ⟨0, by omega⟩
      obtain ⟨c', hc', hsettled, hfree, hsize, hdevices, hdata⟩ := h.evict dev hcached
      obtain rfl := h.single _ hcached
      have halloc' : cacheAllocBlock c' = some 0 := by
        cases hfind : cacheAllocBlock c' with
        | none => exact absurd hfree (cacheAllocBlock_eq_none hfind _)
        | some j => rw [Subsingleton.elim j 0]
      refine ⟨0, c', ?_, ?_, rfl, hsettled, ?_, hsize, hdevices, hdata⟩
      · simp [takeBlock, halloc, hc', halloc']
      · simp [reused, halloc, h.tail, oldest]
      · intro j hj
        rw [Subsingleton.elim j ⟨0, by omega⟩] at hj
        exact hj hfree

/-! ## The calls -/

theorem Settled.insert (hempty : c.Empty) (hi : i.val = 0) {w : δ}
    (hc' : c' = { c.setBlock i b with devices := w }.insert i) :
    (n = 1 → cacheMarkAccessed c' i = some c' ∧ (b.Cached → Settled c')) ∧
      (2 ≤ n → ∃ u, cacheMarkAccessed c' i = some u ∧ u.lruHead = some i ∧ ∃ j, u.next j = some i) ∧
      c'.hashTable (cacheHash b.key) = some i ∧ c'.blocks = update c.blocks i b := by
  have hbef : before i = none := by simp [before, hi]
  have hkey : (c'.blocks i).key = b.key := by
    simp [hc', Cache.insert, Cache.setNext, Cache.setBlock]
  have hnext : c'.next = c.next := by
    have hupd : c'.next = update c.next i
        (c.hashTable (cacheHash (update c.blocks i b i).key)) := by
      rw [hc']
      rfl
    rw [hupd, h.table_empty hempty, h.next, ← hbef, update_eq_self]
  have htable : c'.hashTable = update c.hashTable (cacheHash b.key) (some i) := by
    simp [hc', Cache.insert, Cache.setNext, Cache.setBlock]
  have hhead : c'.lruHead = c.lruHead := by rw [hc']; rfl
  have htail : c'.lruTail = c.lruTail := by rw [hc']; rfl
  refine ⟨?_, ?_, ?_, ?_⟩
  · intro hn
    refine ⟨cacheMarkAccessed_single (hhead.trans h.head) hn i, ?_⟩
    intro hb
    refine h.add hn hempty (i := i) ?_ ?_ hnext hhead htail ?_
    · rw [Block.Cached, hkey]
      exact hb
    · rw [hc']
      rfl
    · rw [hkey]
      exact htable
  · intro hn
    exact cacheMarkAccessed_circle (hnext.trans h.next) (hhead.trans h.head)
      (htail.trans h.tail) hn hi
  · rw [htable, update_self]
  · rw [hc']
    rfl

def Cache.Hit (c : Cache n δ α) (k : Key) : Prop := ∃ i, cacheLookup c k = some (some i)

/-- The device answers the read of a miss, once the block that is going to hold the key has been
written back. -/
def Cache.Fetches (c : Cache n δ α) (k : Key) : Prop :=
  ∃ i, reused c = some i ∧
    (readDevice dev c.blockSize k (c.save dev i).devices (c.blocks i).data).2.2 = .ok ()

/-- In a cache with blocks, a read and a write hit, or the block is the only one and gets a key and
its place in a chain together, or neither. -/
def Cache.Sound (c : Cache n δ α) : Request α → Prop
  | .read k =>
    n = 0 ∨ c.Hit k ∨ (k = noKey ∧ ¬ c.Fetches dev k) ∨ (n = 1 ∧ k ≠ noKey ∧ c.Fetches dev k)
  | .write k _ _ => n = 0 ∨ c.Hit k ∨ (n = 1 ∧ k ≠ noKey)
  | _ => True

theorem Settled.fill (hempty : c.Empty) (hi : i.val = 0) (k : Key) :
    ∃ r, fillBlock dev c k i = some r ∧
      ((readDevice dev c.blockSize k c.devices (c.blocks i).data).2.2 = .ok () →
        (n = 1 ∧ k ≠ noKey → Settled r.1) ∧ (¬ (n = 1 ∧ k ≠ noKey) → ¬ Integral r.1)) ∧
      ((readDevice dev c.blockSize k c.devices (c.blocks i).data).2.2 ≠ .ok () →
        (k = noKey → Settled r.1) ∧ (k ≠ noKey → ¬ Integral r.1)) := by
  have hn : n = 1 ∨ 2 ≤ n := by
    omega
  unfold fillBlock
  generalize readDevice dev c.blockSize k c.devices (c.blocks i).data = r
  obtain ⟨w, data, result⟩ := r
  cases result with
  | error e =>
    refine ⟨_, rfl, fun he => (by cases he), fun _ => ⟨?_, ?_⟩⟩
    · rintro rfl
      apply h.setBlock
      · exact (not_not.mp (hempty i)).symm
      · intro _
        rfl
    · intro hk
      apply not_integral_of_empty (i := i)
      · simpa [Cache.setBlock, Block.Cached] using hk
      · exact h.table_empty hempty _
  | ok u =>
    obtain ⟨hone, hmany, htable, hblks⟩ :=
      h.insert hempty hi (b := ⟨k, data, false⟩) (w := w) rfl
    rcases hn with hn | hn
    · obtain ⟨hmark, hsettled⟩ := hone hn
      refine ⟨_, by dsimp only; rw [hmark]; rfl, fun _ => ⟨?_, ?_⟩, fun he => absurd rfl he⟩
      · rintro ⟨-, hk⟩
        exact hsettled hk
      · intro hk
        refine not_integral_of_free (i := i) ?_ htable
        rw [hblks, update_self]
        exact fun hne => hk ⟨hn, hne⟩
    · obtain ⟨u, hu, hhead, j, hj⟩ := hmany hn
      refine ⟨_, by dsimp only; rw [hu]; rfl, fun _ => ⟨?_, ?_⟩, fun he => absurd rfl he⟩
      · rintro ⟨h1, -⟩
        omega
      · intro _
        exact not_integral_of_next_head hhead hj

end

theorem not_hit {k : Key} (hmiss : cacheLookup c k = some none) : ¬ c.Hit k := by
  rintro ⟨i, hi⟩
  rw [hmiss] at hi
  cases hi

theorem Settled.read (h : Settled c) (k : Key) :
    ∃ c', serve dev c (.read k) = some c' ∧ (c.Sound dev (.read k) → Settled c') ∧
      (¬ c.Sound dev (.read k) → ¬ Integral c') := by
  rcases h.lookup_eq k with hmiss | ⟨i, hhit, -, hi⟩
  · have hlook : cacheLookup c k = some none := by rw [cacheLookup, hmiss]; rfl
    have hnot := not_hit hlook
    rcases h.take dev with ⟨hn, htake⟩ | ⟨i, u, htake, hreused, hi, hu, hempty, hsize, hdevices,
      hdata⟩
    · refine ⟨c, ?_, fun _ => h, fun hno => absurd (.inl hn) hno⟩
      simp [serve, vfsCacheReadBlock, h.enabled, hlook, htake]
    · obtain ⟨r, hr, hverdict⟩ := hu.fill dev hempty hi k
      have hfetch : c.Fetches dev k ↔
          (readDevice dev u.blockSize k u.devices (u.blocks i).data).2.2 = .ok () := by
        rw [hsize, hdevices, hdata]
        constructor
        · rintro ⟨j, hj, hread⟩
          rw [hreused] at hj
          cases hj
          exact hread
        · intro hread
          exact ⟨i, hreused, hread⟩
      have hpos : n ≠ 0 := i.pos.ne'
      refine ⟨r.1, ?_, ?_⟩
      · simp [serve, vfsCacheReadBlock, h.enabled, hlook, htake, hr]
      · simp only [Cache.Sound, hnot, hpos, false_or]
        by_cases hf : c.Fetches dev k
        · simp only [hf, not_true_eq_false, and_false, false_or, and_true]
          exact hverdict.1 (hfetch.mp hf)
        · simp only [hf, not_false_eq_true, and_false, or_false, and_true]
          exact hverdict.2 (fun hread => hf (hfetch.mpr hread))
  · have hlook : cacheLookup c k = some (some i) := by rw [cacheLookup, hhit]; rfl
    have hmark := cacheMarkAccessed_single h.head (h.single i hi) i
    refine ⟨c, ?_, fun _ => h, fun hno => absurd (.inr (.inl ⟨i, hlook⟩)) hno⟩
    simp [serve, vfsCacheReadBlock, h.enabled, hlook, hmark]

theorem storeBlock_eq {u : Cache n δ α} (hu : cacheMarkAccessed c i = some u) (buffer : α)
    (sync : Bool) :
    ∃ r d w, storeBlock dev c i buffer sync = some r ∧
      r.1 = { u.setBlock i ⟨(u.blocks i).key, buffer, d⟩ with devices := w } := by
  unfold storeBlock
  rw [hu]
  cases sync with
  | false => exact ⟨_, true, u.devices, rfl, rfl⟩
  | true =>
    obtain ⟨d, w, hw⟩ := cacheWritebackBlock_eq dev
      (u.setBlock i { u.blocks i with data := buffer, dirty := true }) i
    refine ⟨_, d, w, rfl, ?_⟩
    simp only [if_true, hw]
    simp [Cache.setBlock]

section

variable (h : Settled c)
include h

theorem Settled.write (k : Key) (buffer : α) (sync : Bool) :
    ∃ c', serve dev c (.write k buffer sync) = some c' ∧
      (c.Sound dev (.write k buffer sync) → Settled c') ∧
      (¬ c.Sound dev (.write k buffer sync) → ¬ Integral c') := by
  rcases h.lookup_eq k with hmiss | ⟨i, hhit, -, hi⟩
  · have hlook : cacheLookup c k = some none := by rw [cacheLookup, hmiss]; rfl
    have hnot := not_hit hlook
    rcases h.take dev with ⟨hn, htake⟩ | ⟨i, u, htake, -, hi, hu, hempty, -, -, -⟩
    · refine ⟨c, ?_, fun _ => h, fun hno => absurd (.inl hn) hno⟩
      simp [serve, vfsCacheWriteBlock, h.enabled, hlook, htake]
    · have hpos : n ≠ 0 := i.pos.ne'
      obtain ⟨v, hv⟩ : ∃ v, v = (u.setBlock i { u.blocks i with key := k }).insert i := ⟨_, rfl⟩
      obtain ⟨hone, hmany, htable, hblks⟩ :=
        hu.insert hempty hi (b := { u.blocks i with key := k }) (w := u.devices) hv
      have hstart : ∀ r, storeBlock dev v i buffer sync = some r →
          serve dev c (.write k buffer sync) = some r.1 := by
        intro r hr
        rw [hv] at hr
        simp [serve, vfsCacheWriteBlock, h.enabled, hlook, htake, hr]
      simp only [Cache.Sound, hnot, hpos, false_or]
      by_cases hn : n = 1
      · obtain ⟨hmark, hsettled⟩ := hone hn
        obtain ⟨r, d, w, hr, hr'⟩ := storeBlock_eq dev hmark buffer sync
        refine ⟨r.1, hstart r hr, ?_, ?_⟩
        · rintro ⟨-, hk⟩
          rw [hr']
          refine (hsettled hk).setBlock ?_ ?_ w
          · rfl
          · intro hfree
            rw [hblks, update_self] at hfree
            exact absurd hk hfree
        · intro hk
          have hfree : k = noKey := by
            by_contra hne
            exact hk ⟨hn, hne⟩
          rw [hr']
          refine not_integral_of_free (i := i) ?_ htable
          simp [Cache.setBlock, hblks, Block.Cached, hfree]
      · obtain ⟨m, hm, hhead, j, hj⟩ := hmany (by omega)
        obtain ⟨r, d, w, hr, hr'⟩ := storeBlock_eq dev hm buffer sync
        refine ⟨r.1, hstart r hr, fun hk => absurd hk.1 hn, ?_⟩
        intro _
        rw [hr']
        exact not_integral_of_next_head hhead hj
  · have hlook : cacheLookup c k = some (some i) := by rw [cacheLookup, hhit]; rfl
    have hmark := cacheMarkAccessed_single h.head (h.single i hi) i
    obtain ⟨r, d, w, hr, hr'⟩ := storeBlock_eq dev hmark buffer sync
    refine ⟨r.1, ?_, ?_, fun hno => absurd (.inr (.inl ⟨i, hlook⟩)) hno⟩
    · simp [serve, vfsCacheWriteBlock, h.enabled, hlook, hr]
    · intro _
      rw [hr']
      refine h.setBlock ?_ ?_ w
      · rfl
      · exact fun hfree => absurd hi hfree

theorem Settled.invalidate (hi : (c.blocks i).Cached) :
    Settled (c.invalidate dev (cacheHash (c.blocks i).key) none i) := by
  obtain rfl : n = 1 := h.single i hi
  have hnone := h.next_none hi
  have hsame := update_eq_self i c.next
  rw [hnone] at hsame
  obtain ⟨d, w, hw⟩ := save_eq dev (c.unlink (cacheHash (c.blocks i).key) none i) i
  unfold Cache.invalidate
  rw [hw]
  refine h.drop hi rfl ?_ rfl rfl ?_ ?_ ?_
  · exact hsame
  · simp [Cache.setNext, Cache.forget, Cache.setBlock]
  · simp [Cache.setNext, Cache.forget, Cache.setBlock]
  · exact congrArg (update c.hashTable (cacheHash (c.blocks i).key)) hnone

theorem Settled.flushAll : Settled (vfsCacheFlushAll dev c).1 :=
  vfsCacheFlushAll_keeps dev (fun _ _ hc hi => hc.writeback dev hi) h

theorem Settled.invalidateChain (devId : UInt32) (b : Bucket) {rounds : ℕ} (hrounds : 2 ≤ rounds) :
    ∃ c', invalidateChain dev devId b rounds none (c.hashTable b) c = some c' ∧ Settled c' := by
  obtain ⟨rounds, rfl⟩ := Nat.exists_eq_add_of_le' hrounds
  cases hb : c.hashTable b with
  | none => exact ⟨c, rfl, h⟩
  | some i =>
    obtain ⟨hi, rfl⟩ := (h.table b i).mp hb
    rw [BlockCache.invalidateChain, h.next_none hi]
    split_ifs
    · exact ⟨_, rfl, h.invalidate dev hi⟩
    · exact ⟨_, rfl, h⟩

theorem Settled.invalidateDevice (devId : UInt32) :
    ∃ c', vfsCacheInvalidateDevice dev c devId = some c' ∧ Settled c' := by
  unfold vfsCacheInvalidateDevice
  generalize List.finRange 256 = l
  induction l generalizing c with
  | nil => exact ⟨c, rfl, h⟩
  | cons b l ih =>
    have hrounds : 2 ≤ chainRounds n := by
      unfold chainRounds
      nlinarith
    obtain ⟨u, hu, hsettled⟩ := h.invalidateChain dev devId b hrounds
    rw [foldlM_cons, hu]
    exact ih hsettled

/-- Every call returns from a settled cache; a sound one leaves it settled, any other breaks a list.
-/
theorem Settled.step (request : Request α) :
    ∃ c', serve dev c request = some c' ∧ (c.Sound dev request → Settled c') ∧
      (¬ c.Sound dev request → ¬ Integral c') := by
  cases request with
  | read k => exact h.read dev k
  | write k buffer sync => exact h.write dev k buffer sync
  | flushBlock k =>
    rcases h.lookup_eq k with hmiss | ⟨i, hhit, -, -⟩
    · refine ⟨c, ?_, fun _ => h, fun hno => absurd trivial hno⟩
      simp [serve, vfsCacheFlushBlock, cacheLookup, hmiss]
    · by_cases hi : (c.blocks i).dirty
      · refine ⟨_, ?_, fun _ => h.writeback dev hi, fun hno => absurd trivial hno⟩
        simp [serve, vfsCacheFlushBlock, cacheLookup, hhit, hi]
      · refine ⟨c, ?_, fun _ => h, fun hno => absurd trivial hno⟩
        simp [serve, vfsCacheFlushBlock, cacheLookup, hhit, hi]
  | invalidateBlock k =>
    rcases h.lookup_eq k with hmiss | ⟨i, hhit, rfl, hi⟩
    · refine ⟨c, ?_, fun _ => h, fun hno => absurd trivial hno⟩
      simp [serve, vfsCacheInvalidateBlock, hmiss]
    · refine ⟨_, ?_, fun _ => h.invalidate dev hi, fun hno => absurd trivial hno⟩
      simp [serve, vfsCacheInvalidateBlock, hhit]
  | flushAll => exact ⟨_, rfl, fun _ => h.flushAll dev, fun hno => absurd trivial hno⟩
  | invalidateDevice devId =>
    obtain ⟨c', hc', hsettled⟩ := h.invalidateDevice dev devId
    exact ⟨c', hc', fun _ => hsettled, fun hno => absurd trivial hno⟩

end

theorem settled_init (blockSize : UInt32) (writeCache : Bool) (data : Fin n → α) (w : δ) :
    Settled (initBlocks n blockSize writeCache data w) := by
  refine ⟨rfl, rfl, rfl, rfl, ?_, ?_, ?_⟩
  · intro b i
    constructor
    · intro hb
      cases hb
    · rintro ⟨hi, -⟩
      exact absurd rfl hi
  · intro i hi
    exact absurd rfl hi
  · intro i _
    rfl

/-- The lists are as they should be throughout a run exactly if all its calls are sound. -/
theorem lists_integral_iff (blockSize numBlocks : UInt32) (writeCache : Bool)
    (data : Fin (min numBlocks.toNat maxCacheBlocks) → α) (w : δ) (requests : List (Request α)) :
    Throughout (serve dev) Integral (vfsCacheInit blockSize numBlocks writeCache data w) requests ↔
      Meets (serve dev) (Cache.Sound dev) (vfsCacheInit blockSize numBlocks writeCache data w)
        requests := by
  apply throughout_iff_meets (serve dev) (I := Settled)
  · exact fun c h => h.integral
  · exact fun c request h => h.step dev request
  · exact settled_init _ writeCache data w

end

def twoBlocks : Cache 2 Unit ℕ := vfsCacheInit 512 2 false (fun _ => 0) ()

/-- The first write closes the recency list to a circle. -/
theorem first_write_closes_circle :
    ∃ c, serve (fun _ => none) twoBlocks (.write (1, 5) 7 false) = some c ∧ ¬ Integral c := by
  refine ⟨_, rfl, ?_⟩
  exact not_integral_of_next_head (i := 0) (j := 1) (by decide) (by decide)

end UintOS.BlockCache
