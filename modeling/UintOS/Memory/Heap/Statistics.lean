import UintOS.Memory.Heap.Accounts
import UintOS.Memory.Heap.Integrity

/-!
# The statistics of the kernel heap

A `Ledger` is a client with what `heap_stats.allocated_bytes` was charged for each pointer it holds.
`Books` relates the counters to the physical list and to the ledger, up to a drift of `free_bytes`
and one of `allocated_bytes`: every call moves the counters by what it does to the sums, plus a
drift that is zero exactly for some calls.
-/

namespace UintOS.KernelHeap

open Machine Links Runs

/-! ## Books -/

def charged (B : List (ℕ × ℕ)) : ℕ := (B.map Prod.snd).sum

/-- The counters, the physical list `L`, the blocks `B` and the page runs `R` of a client. `d` and
`m` are the drifts of `free_bytes` and `allocated_bytes`. -/
structure Books (h : Heap) (L : List ℕ) (B R : List (ℕ × ℕ)) (d m : ℤ) : Prop where
  walk : Walk h L
  blocks : ∀ e ∈ B, ∃ b ∈ L, e.1 = b + 40 ∧ h.status b = .used ∧ h.size b = e.2 + 56
  nodup : (B.map Prod.fst).Nodup
  runs : ∀ e ∈ R, 0 < e.2 ∧ e.2 < 4294967296
  bounds : h.stats.freeBytes < 4294967296 ∧ h.stats.allocatedBytes < 4294967296 ∧
    h.stats.currentAllocations < 4294967296
  free : (h.stats.freeBytes : ℤ) % 4294967296 = (freeTotal h L + d) % 4294967296
  allocated : (h.stats.allocatedBytes : ℤ) % 4294967296 = (charged B + charged R + m) % 4294967296
  current : h.stats.currentAllocations = (B.length + R.length) % 4294967296

namespace Books

variable {h h' : Heap} {L L' : List ℕ} {B R : List (ℕ × ℕ)} {d m : ℤ}

theorem frame (hB : Books h L B R d m) {x : Ptr} {δ : ℤ} (hedit : Edit x h L h' L' δ) {e : ℕ × ℕ}
    (he : e ∈ B) (hx : ∀ b, x = some b → e.1 ≠ b + 40) :
    ∃ b ∈ L', e.1 = b + 40 ∧ h'.status b = .used ∧ h'.size b = e.2 + 56 := by
  obtain ⟨b, hb, heb, hu, hsize⟩ := hB.blocks e he
  obtain ⟨hb', hu', hsize'⟩ := hedit.frame b hb (fun hxb => hx b hxb heb) hu
  exact ⟨b, hb', heb, hu', hsize'.trans hsize⟩

theorem congr (hB : Books h L B R d m) (hw : Walk h' L) (hedit : Edit none h L h' L 0)
    (hc : h'.counters = h.counters) : Books h' L B R d m := by
  simp only [Heap.counters, Prod.mk.injEq] at hc
  obtain ⟨hf, ha, hk⟩ := hc
  have hfree := hedit.free
  refine ⟨hw, fun e he => hB.frame hedit he (by simp), hB.nodup, hB.runs, ?_, ?_, ?_, ?_⟩
  · rw [hf, ha, hk]
    exact hB.bounds
  · rw [hf, hB.free]
    omega
  · rw [ha, hB.allocated]
  · rw [hk, hB.current]

end Books

theorem eraseP_of_mem {B : List (ℕ × ℕ)} {p : ℕ} (h : p ∈ B.map Prod.fst) :
    ∃ n, (p, n) ∈ B ∧ charged B = n + charged (B.eraseP fun e => e.1 = p) ∧
      B.length = (B.eraseP fun e => e.1 = p).length + 1 ∧
      (B.eraseP fun e => e.1 = p).map Prod.fst = (B.map Prod.fst).erase p := by
  obtain ⟨e, he, rfl⟩ := List.mem_map.mp h
  obtain ⟨⟨q, n⟩, l₁, l₂, hl₁, hq, rfl, herase⟩ :=
    List.exists_of_eraseP (p := fun x => decide (x.1 = e.1)) he (by simp)
  obtain rfl : q = e.1 := of_decide_eq_true hq
  have hnot : e.1 ∉ l₁.map Prod.fst := fun hmem => by
    obtain ⟨x, hx, hxe⟩ := List.mem_map.mp hmem
    exact hl₁ x hx (decide_eq_true hxe)
  rw [herase]
  refine ⟨n, by simp, ?_, by simp; omega, ?_⟩
  · simp only [charged, List.map_append, List.map_cons, List.sum_append, List.sum_cons]
    omega
  · simp [List.erase_append_right _ hnot]

theorem eraseP_of_not_mem {B : List (ℕ × ℕ)} {p : ℕ} (h : p ∉ B.map Prod.fst) :
    (B.eraseP fun e => e.1 = p) = B := by
  apply List.eraseP_of_forall_not
  intro e he
  simp only [decide_eq_true_eq]
  rintro rfl
  exact h (List.mem_map_of_mem he)

/-! ## Allocations -/

/-- There is neither a free block nor pages for the request. -/
def OutOfMemory (pages : ℕ → Ptr) (h : Heap) (request : ℕ) : Prop :=
  if allocSize request < pageSize then
    findFreeBlock h (allocSize request) = some none ∧
      pages (extensionSize (requiredSize (allocSize request)) / pageSize) = none
  else pages (add32 (add32 (allocSize request) (pageSize - 1) / pageSize) 2) = none

/-- `heap_alloc` splits no block: not the one it finds, and not the one it adds. -/
def AllocExact (pages : ℕ → Ptr) (h : Heap) (request : ℕ) : Prop :=
  allocSize request < pageSize → (∀ b, findFreeBlock h (allocSize request) = some (some b) →
      ¬ Splits h b (allocSize request)) ∧
    (findFreeBlock h (allocSize request) = some none →
      pages (extensionSize (requiredSize (allocSize request)) / pageSize) ≠ none →
      ¬ minSplitSize ≤ sub32 (extensionSize (requiredSize (allocSize request)))
        (requiredSize (allocSize request)))

/-- The pointer of `heap_alloc` and what `allocated_bytes` is charged for it. -/
def granted (pages : ℕ → Ptr) (h : Heap) (request : ℕ) : Option (ℕ × ℕ) :=
  match heapAlloc pages h request with
  | some (h', some p) =>
    some (p,
      if allocSize request < pageSize then h'.payload (dataToHeader p) else allocSize request)
  | _ => none

inductive Allocates (pages : ℕ → Ptr) (h : Heap) (request : ℕ) (L : List ℕ) (B R : List (ℕ × ℕ))
    (d m : ℤ) : Heap → Ptr → Prop
  | refused (h' : Heap) (hout : OutOfMemory pages h request)
      (hgrant : granted pages h request = none) (hB : Books h' L B R d m) :
    Allocates pages h request L B R d m h' none
  | block (h' : Heap) (p n : ℕ) (L' : List ℕ) (d' : ℤ) (hsmall : allocSize request < pageSize)
      (hout : ¬ OutOfMemory pages h request) (hgrant : granted pages h request = some (p, n))
      (hn : allocSize request ≤ n ∧ n < 4294967296) (hB : Books h' L' ((p, n) :: B) R d' m)
      (hd : AllocExact pages h request ↔ (d' - d) % 4294967296 = 0) :
    Allocates pages h request L B R d m h' (some p)
  | run (h' : Heap) (p n : ℕ) (hlarge : ¬ allocSize request < pageSize)
      (hout : ¬ OutOfMemory pages h request) (hgrant : granted pages h request = some (p, n))
      (hn : allocSize request ≤ n ∧ n < 4294967296) (hB : Books h' L B ((p, n) :: R) d m) :
    Allocates pages h request L B R d m h' (some p)

section Calls

variable {h : Heap} {L : List ℕ} {C : ℕ → List ℕ} {B R : List (ℕ × ℕ)} {d m : ℤ}
  {pages : ℕ → Ptr} {request : ℕ}

variable {h' : Heap} {p size b : ℕ}

/-- A block that was taken is entered in the books; `c` are the bytes that were taken from
`free_bytes` once too often. -/
theorem Books.take (hB : Books h L B R d m) {L' : List ℕ} {f c : ℕ} {δ : ℤ} (hw : Walk h' L')
    (hb : b ∈ L') (hnew : b ∈ L → h.status b = .free) (hedit : Edit none h L h' L' (δ - h'.size b))
    (hu : h'.status b = .used) (hlarge : 56 ≤ h'.size b) (hlt : h'.size b < 4294967296)
    (hf : (f : ℤ) % 4294967296 = (h.stats.freeBytes + δ - c) % 4294967296)
    (hc : h'.counters = (sub32 f (h'.size b), add32 h.stats.allocatedBytes (h'.size b - 56),
      add32 h.stats.currentAllocations 1)) :
    Books h' L' ((b + 40, h'.size b - 56) :: B) R (d - c) m := by
  simp only [Heap.counters, Prod.mk.injEq] at hc
  obtain ⟨hfree, halloc, hcur⟩ := hc
  have hsum := hedit.free
  have hfree₀ := hB.free
  have halloc₀ := hB.allocated
  have hcur₀ := hB.current
  have hnot : b + 40 ∉ B.map Prod.fst := by
    intro hmem
    obtain ⟨e, he, heq⟩ := List.mem_map.mp hmem
    obtain ⟨b', hb', heb, hu', -⟩ := hB.blocks e he
    obtain rfl : b' = b := by omega
    rw [hnew hb'] at hu'
    cases hu'
  refine ⟨hw, ?_, by simp [hnot, hB.nodup], hB.runs, ?_, ?_, ?_, ?_⟩
  · intro e he
    rcases List.mem_cons.mp he with rfl | he
    · exact ⟨b, hb, rfl, hu, by omega⟩
    · exact hB.frame hedit he (by simp)
  · rw [hfree, halloc, hcur]
    exact ⟨sub32_lt _ _, add32_lt _ _, add32_lt _ _⟩
  · rw [hfree, sub32]
    omega
  · rw [halloc, add32]
    simp only [charged, List.map_cons, List.sum_cons] at *
    omega
  · rw [hcur, add32, hcur₀, List.length_cons]
    omega

theorem granted_of_some (he : heapAlloc pages h request = some (h', some p)) :
    granted pages h request = some (p,
      if allocSize request < pageSize then h'.payload (dataToHeader p) else allocSize request) := by
  simp [granted, he]

theorem granted_of_none (he : heapAlloc pages h request = some (h', none)) :
    granted pages h request = none := by
  simp [granted, he]

/-- A free block of the heap, or of the heap after an extension, is taken. -/
theorem Books.allocates (hB : Books h L B R d m) {h₁ : Heap} {L₁ : List ℕ} {C₁ : ℕ → List ℕ} {f : ℕ}
    {t : Ptr} {δ : ℤ} (hi : Inv h₁ t L₁ C₁) (hb : b ∈ L₁) (hfree : h₁.status b = .free)
    (hfit : allocSize request ≤ h₁.payload b) (hsmall : allocSize request < pageSize)
    (hnew : b ∈ L → h.status b = .free) (hedit₁ : Edit none h L h₁ L₁ δ)
    (hc₁ : h₁.counters = (f, h.stats.allocatedBytes, h.stats.currentAllocations))
    (hf : (f : ℤ) % 4294967296 = (h.stats.freeBytes + δ) % 4294967296)
    (heq : heapAlloc pages h request = some (takeBlock h₁ b (allocSize request)))
    (hexact : AllocExact pages h request ↔ ¬ Splits h₁ b (allocSize request))
    (hout : ¬ OutOfMemory pages h request) :
    ∃ h' r, heapAlloc pages h request = some (h', r) ∧
      Allocates pages h request L B R d m h' r := by
  have hsb := hi.phys.sound b hb
  have heq' : heapAlloc pages h request =
      some ((takeBlock h₁ b (allocSize request)).1, some (b + 40)) := by
    rw [heq, takeBlock_eq, hsb.headerToData]
  have hgrant := granted_of_some heq'
  obtain ⟨L', hw, hbL', hedit, hu, hlarge, hlt, hroom, hc⟩ :=
    takeBlock_edit hi hb hfree hfit rfl hc₁
  rw [if_pos hsmall, hsb.dataToHeader, payload_of_size hlarge hlt] at hgrant
  refine ⟨_, _, heq', ?_⟩
  generalize (takeBlock h₁ b (allocSize request)).1 = h' at *
  have hedit' := hedit₁.trans hedit
  split_ifs at hc with hsplits
  · unfold pageSize at hsmall
    have hbooks := hB.take (c := allocSize request + 56) hw hbL' hnew hedit' hu hlarge hlt
      (by unfold sub32; omega) hc
    apply Allocates.block h' _ _ L' _ hsmall hout hgrant ⟨hroom, by omega⟩ hbooks
    rw [hexact]
    constructor
    · exact fun hno => absurd hsplits hno
    · omega
  · have hbooks := hB.take (c := 0) hw hbL' hnew hedit' hu hlarge hlt (by omega) hc
    apply Allocates.block h' _ _ L' _ hsmall hout hgrant ⟨hroom, by omega⟩ hbooks
    rw [hexact]
    exact ⟨fun _ => by omega, fun _ => hsplits⟩

theorem takeBlock_allocates (hi : Inv h none L C) (hB : Books h L B R d m)
    (hsmall : allocSize request < pageSize)
    (hfound : findFreeBlock h (allocSize request) = some (some b)) (hb : b ∈ L)
    (hfree : h.status b = .free) (hfit : allocSize request ≤ h.payload b) :
    ∃ h' r, heapAlloc pages h request = some (h', r) ∧
      Allocates pages h request L B R d m h' r := by
  apply hB.allocates hi hb hfree hfit hsmall (fun _ => hfree)
    (Edit.of_same (fun _ _ => rfl) fun _ _ => rfl) rfl
  · omega
  · unfold heapAlloc
    dsimp only
    rw [if_neg (by omega), hfound]
  · unfold AllocExact
    rw [hfound]
    simp [hsmall]
  · simp [OutOfMemory, hsmall, hfound]

theorem heapExtend_allocates (hi : Inv h none L C) (hfr : Fresh pages h)
    (hext : ExtendsUsed pages h request) (hB : Books h L B R d m)
    (hsmall : allocSize request < pageSize)
    (hfound : findFreeBlock h (allocSize request) = some none) {n : ℕ}
    (hpages : pages (extensionSize (requiredSize (allocSize request)) / pageSize) = some n) :
    ∃ h' r, heapAlloc pages h request = some (h', r) ∧
      Allocates pages h request L B R d m h' r := by
  have hlast := hext hsmall hfound (by simp [hpages])
  have hreq := requiredSize_of_small hsmall
  have hmax : requiredSize (allocSize request) ≤ 8192 := by
    unfold pageSize at hsmall
    omega
  obtain ⟨h₁, L₁, C₁, he, hinv, hn, hnL, hfree, hsize, hframe⟩ :=
    heapExtend_spec hi hfr (by omega) hmax hpages hlast
  obtain ⟨L₁', hw₁, hedit₁, hc₁⟩ := heapExtend_edit hi hfr (by omega) hmax hpages hlast rfl he
  obtain rfl : L₁' = L₁ := hw₁.unique hinv.phys.walk
  have hfit : allocSize request ≤ h₁.payload n := by
    have := (extensionSize_spec hmax).2
    rw [(hinv.phys.sound n hn).payload, hsize]
    omega
  apply hB.allocates hinv hn hfree hfit hsmall (fun hm => absurd hm hnL) hedit₁ hc₁
  · unfold add32
    omega
  · unfold heapAlloc
    dsimp only
    rw [if_neg (by omega), hfound]
    dsimp only
    rw [he]
  · unfold AllocExact
    rw [hfound, hpages, Splits, hsize]
    simp [hsmall]
  · simp [OutOfMemory, hsmall, hpages]

theorem guardedAlloc_some {a : ℕ}
    (hp : pages (add32 (add32 size (pageSize - 1) / pageSize) 2) = some a) :
    ∃ h', guardedAlloc pages h size = (h', some (add32 (add32 a pageSize) 4)) ∧ SameState h h' ∧
      h'.counters = (h.stats.freeBytes, add32 h.stats.allocatedBytes size,
        add32 h.stats.currentAllocations 1) := by
  unfold guardedAlloc
  simp only [hp]
  refine ⟨_, rfl, ⟨rfl, rfl, rfl, rfl, rfl⟩, ?_⟩
  simp only [Heap.counters, noteExtremes_counters]
  rfl

theorem guardedAlloc_allocates (hB : Books h L B R d m) (hlarge : ¬ allocSize request < pageSize)
    (hlt : allocSize request < 4294967296) :
    ∃ h' r, heapAlloc pages h request = some (h', r) ∧
      Allocates pages h request L B R d m h' r := by
  have heq : heapAlloc pages h request = some (guardedAlloc pages h (allocSize request)) := by
    unfold heapAlloc
    dsimp only
    rw [if_pos (by omega)]
  cases hp : pages (add32 (add32 (allocSize request) (pageSize - 1) / pageSize) 2) with
  | none =>
    unfold guardedAlloc at heq
    simp only [hp] at heq
    refine ⟨_, _, heq, Allocates.refused _ ?_ (granted_of_none heq) ?_⟩
    · rw [OutOfMemory, if_neg hlarge]
      exact hp
    · exact hB.congr hB.walk (Edit.of_same (fun _ _ => rfl) fun _ _ => rfl) rfl
  | some a =>
    obtain ⟨h', hg, hsame, hc⟩ := guardedAlloc_some (h := h) hp
    rw [hg] at heq
    have hgrant := granted_of_some heq
    rw [if_neg hlarge] at hgrant
    have hout : ¬ OutOfMemory pages h request := by
      simp [OutOfMemory, hlarge, hp]
    refine ⟨_, _, heq, Allocates.run _ _ _ hlarge hout hgrant ⟨le_rfl, hlt⟩ ?_⟩
    simp only [Heap.counters, Prod.mk.injEq] at hc
    obtain ⟨hfree, halloc, hcur⟩ := hc
    have hedit : Edit none h L h' L 0 := Edit.of_sameBlocks hsame.sameBlocks
    have hsum := hedit.free
    have halloc₀ := hB.allocated
    refine ⟨hB.walk.sameBlocks hsame.sameBlocks, fun e he => hB.frame hedit he (by simp), hB.nodup,
      ?_, ?_, ?_, ?_, ?_⟩
    · intro e he
      rcases List.mem_cons.mp he with rfl | he
      · unfold pageSize at hlarge
        exact ⟨by dsimp only; omega, hlt⟩
      · exact hB.runs e he
    · rw [hfree, halloc, hcur]
      exact ⟨hB.bounds.1, add32_lt _ _, add32_lt _ _⟩
    · rw [hfree, hB.free]
      omega
    · rw [halloc, add32]
      simp only [charged, List.map_cons, List.sum_cons] at *
      omega
    · rw [hcur, add32, hB.current, List.length_cons]
      omega

theorem allocSize_lt {request : ℕ} (h : request < 4294967296) : allocSize request < 4294967296 := by
  unfold allocSize alignSize add32 heapAlign
  split_ifs <;> omega

theorem heapAlloc_allocates (hi : Inv h none L C) (hfr : Fresh pages h)
    (hext : ExtendsUsed pages h request) (hlt : request < 4294967296) (hB : Books h L B R d m) :
    ∃ h' r, heapAlloc pages h request = some (h', r) ∧
      Allocates pages h request L B R d m h' r := by
  by_cases hsmall : allocSize request < pageSize
  · obtain ⟨r, hr, hfound⟩ := findFreeBlock_spec hi (allocSize request)
    cases r with
    | some b =>
      obtain ⟨hb, hfree, hfit⟩ := hfound b rfl
      exact takeBlock_allocates hi hB hsmall hr hb hfree hfit
    | none =>
      cases hp : pages (extensionSize (requiredSize (allocSize request)) / pageSize) with
      | some n => exact heapExtend_allocates hi hfr hext hB hsmall hr hp
      | none =>
        have heq : heapAlloc pages h request = some (logCall h (.allocate
            (extensionSize (requiredSize (allocSize request)) / pageSize) none), none) := by
          unfold heapAlloc heapExtend
          dsimp only
          rw [if_neg (by omega), hr]
          simp only [hp]
        refine ⟨_, _, heq, Allocates.refused _ ?_ (granted_of_none heq) ?_⟩
        · rw [OutOfMemory, if_pos hsmall]
          exact ⟨hr, hp⟩
        · exact hB.congr hB.walk (Edit.of_same (fun _ _ => rfl) fun _ _ => rfl) rfl
  · exact guardedAlloc_allocates hB hsmall (allocSize_lt hlt)

/-! ## Frees -/

theorem Books.free_block (hi : Inv h none L C) (hB : Books h L B R d m) (hp : p ∈ B.map Prod.fst)
    (hret : Client.Returnable h p) :
    ∃ L', Books (heapFree h (some p)) L' (B.eraseP fun e => e.1 = p) R d m := by
  obtain ⟨n, hn, hsum, hlen, hmap⟩ := eraseP_of_mem hp
  obtain ⟨b, hb, hpb, hu, hsize⟩ := hB.blocks _ hn
  dsimp only at hpb hsize
  subst hpb
  have hsb := hi.phys.sound b hb
  obtain ⟨hg, hpred⟩ := hret
  rw [hsb.dataToHeader] at hpred
  obtain ⟨L', hw, hedit, hc⟩ :=
    releaseBlock_edit hi hb hu hpred rfl (heapFree_block hsb hu hg).symm
  simp only [Heap.counters, Prod.mk.injEq] at hc
  obtain ⟨hfree, halloc, hcur⟩ := hc
  have hlt := hsb.size_lt
  have hfree' := hedit.free
  have hfree₀ := hB.free
  have halloc₀ := hB.allocated
  have hcur₀ := hB.current
  have hnodup := hB.nodup
  refine ⟨L', hw, ?_, by rw [hmap]; exact hnodup.erase _, hB.runs, ?_, ?_, ?_, ?_⟩
  · intro e he
    apply hB.frame hedit (List.mem_of_mem_eraseP he)
    rintro _ ⟨⟩ heb
    have hmem : e.1 ∈ (B.map Prod.fst).erase (b + 40) := hmap ▸ List.mem_map_of_mem he
    rw [heb] at hmem
    exact hnodup.not_mem_erase hmem
  · rw [hfree, halloc, hcur]
    exact ⟨add32_lt _ _, sub32_lt _ _, sub32_lt _ _⟩
  · rw [hfree, add32]
    omega
  · rw [halloc, sub32]
    omega
  · rw [hcur, sub32, hcur₀]
    omega

/-- A guarded allocation is handed back: `allocated_bytes` stays. -/
theorem Books.free_run (hB : Books h L B R d m) (hp : p ∈ R.map Prod.fst)
    (hg : looksGuarded p = true) :
    ∃ n : ℕ, 0 < n ∧ n < 4294967296 ∧
      Books (heapFree h (some p)) L B (R.eraseP fun e => e.1 = p) d (m + n) := by
  obtain ⟨n, hn, hsum, hlen, -⟩ := eraseP_of_mem hp
  obtain ⟨hpos, hlt⟩ := hB.runs _ hn
  have hsame := (heapFree_guarded h hg).sameBlocks
  have hc : (heapFree h (some p)).counters = (h.stats.freeBytes, h.stats.allocatedBytes,
      sub32 h.stats.currentAllocations 1) := by
    unfold heapFree
    simp only [if_pos hg]
    rfl
  simp only [Heap.counters, Prod.mk.injEq] at hc
  obtain ⟨hfree, halloc, hcur⟩ := hc
  have hedit : Edit none h L (heapFree h (some p)) L 0 := Edit.of_sameBlocks hsame
  have hfree' := hedit.free
  have halloc₀ := hB.allocated
  refine ⟨n, hpos, hlt, hB.walk.sameBlocks hsame, fun e he => hB.frame hedit he (by simp), hB.nodup,
    fun e he => hB.runs e (List.mem_of_mem_eraseP he), ?_, ?_, ?_, ?_⟩
  · rw [hfree, halloc, hcur]
    exact ⟨hB.bounds.1, hB.bounds.2.1, sub32_lt _ _⟩
  · rw [hfree, hB.free]
    omega
  · rw [halloc]
    omega
  · rw [hcur, sub32, hB.current]
    omega

end Calls

/-! ## Ledgers -/

/-- A client, with what was charged for its blocks and page runs. -/
structure Ledger where
  client : Client
  blocks : List (ℕ × ℕ)
  runs : List (ℕ × ℕ)

namespace Ledger

/-- An allocation is entered in the list of its kind. -/
def enter (s : Ledger) (request : ℕ) : Option (ℕ × ℕ) → Ledger
  | none => s
  | some e =>
    if allocSize request < pageSize then { s with blocks := e :: s.blocks }
    else { s with runs := e :: s.runs }

def strike (s : Ledger) (p : ℕ) : Ledger :=
  { s with
    blocks := s.blocks.eraseP fun e => e.1 = p
    runs := s.runs.eraseP fun e => e.1 = p }

def note (s : Ledger) : Op → Ledger
  | .alloc size pages => s.enter size (granted pages s.client.heap size)
  | .free none => s
  | .free (some p) => s.strike p
  | .realloc none size pages => s.enter size (granted pages s.client.heap size)
  | .realloc (some p) size pages =>
    if size = 0 then s.strike p
    else
      match heapRealloc pages s.client.heap (some p) size with
      | some (_, some q) =>
        if q = p then s
        else (s.strike p).enter (alignSize size) (granted pages s.client.heap (alignSize size))
      | _ => s

def step (s : Ledger) (op : Op) : Option Ledger :=
  (s.client.step op).map fun t => { s.note op with client := t }

def create (sizeofHeap : ℕ) (header : ℕ → BlockHeader) (footer : ℕ → BlockFooter)
    (byte : ℕ → UInt8) (start size : ℕ) : Ledger :=
  ⟨Client.create sizeofHeap header footer byte start size, [], []⟩

end Ledger

/-- The counters of `heap_stats` are what they count, modulo `2 ^ 32`. -/
structure StatsAgree (s : Ledger) : Prop where
  free : ∃ L, Walk s.client.heap L ∧
    s.client.heap.stats.freeBytes = freeTotal s.client.heap L % 4294967296
  allocated : s.client.heap.stats.allocatedBytes =
    (charged s.blocks + charged s.runs) % 4294967296
  current : s.client.heap.stats.currentAllocations =
    (s.client.live.length + s.client.guarded.length) % 4294967296

def Op.Sized : Op → Prop
  | .alloc size _ => size < 4294967296
  | .free _ => True
  | .realloc _ size _ => size < 4294967296

/-- A call moves the counters as it should: no block is split, no block grows, and no guarded
allocation is handed back. -/
def Client.Exact (s : Client) : Op → Prop
  | .alloc size pages => AllocExact pages s.heap size
  | .free ptr => ∀ p, ptr = some p → p ∉ s.guarded
  | .realloc none size pages => AllocExact pages s.heap size
  | .realloc (some p) size pages =>
    if size = 0 then p ∉ s.guarded
    else if p ∈ s.live then
      if alignSize size ≤ s.heap.payload (dataToHeader p) then
        ¬ Splits s.heap (dataToHeader p) (alignSize size)
      else Moves s.heap (dataToHeader p) (alignSize size) ∧ AllocExact pages s.heap (alignSize size)
    else alignSize size ≤ guardedSize s.heap p ∨ OutOfMemory pages s.heap (alignSize size)

structure Audited (s : Ledger) (L : List ℕ) (C : ℕ → List ℕ) : Prop where
  client : ClientInv s.client L C
  live : s.blocks.map Prod.fst = s.client.live
  guarded : s.runs.map Prod.fst = s.client.guarded
  books : Books s.client.heap L s.blocks s.runs 0 0

variable {L : List ℕ} {d m : ℤ} {s t : Ledger} {h : Heap}

theorem Books.agree_iff (hlive : s.blocks.map Prod.fst = s.client.live)
    (hgrd : s.runs.map Prod.fst = s.client.guarded)
    (hB : Books s.client.heap L s.blocks s.runs d m) :
    StatsAgree s ↔ d % 4294967296 = 0 ∧ m % 4294967296 = 0 := by
  have hfree := hB.free
  have halloc := hB.allocated
  have hbounds := hB.bounds
  constructor
  · rintro ⟨⟨L', hw, hfree'⟩, halloc', -⟩
    obtain rfl := hw.unique hB.walk
    omega
  · rintro ⟨hd, hm⟩
    refine ⟨⟨L, hB.walk, by omega⟩, by omega, ?_⟩
    rw [hB.current, ← hlive, ← hgrd, List.length_map, List.length_map]

theorem Books.settle {B R : List (ℕ × ℕ)} (hB : Books h L B R d m)
    (hd : d % 4294967296 = 0) (hm : m % 4294967296 = 0) : Books h L B R 0 0 := by
  have hfree := hB.free
  have halloc := hB.allocated
  exact ⟨hB.walk, hB.blocks, hB.nodup, hB.runs, hB.bounds, by omega, by omega, hB.current⟩

structure Verdict (exact : Prop) (t : Ledger) : Prop where
  audited : exact → ∃ L C, Audited t L C
  disagree : ¬ exact → ¬ StatsAgree t

theorem verdict_of_books {K : List ℕ} {C : ℕ → List ℕ} {exact : Prop}
    (hclient : ClientInv t.client L C) (hlive : t.blocks.map Prod.fst = t.client.live)
    (hgrd : t.runs.map Prod.fst = t.client.guarded)
    (hB : Books t.client.heap K t.blocks t.runs d m)
    (hexact : exact ↔ d % 4294967296 = 0 ∧ m % 4294967296 = 0) : Verdict exact t := by
  constructor
  · intro h
    obtain ⟨hd, hm⟩ := hexact.mp h
    obtain rfl : K = L := hB.walk.unique hclient.inv.phys.walk
    exact ⟨K, C, hclient, hlive, hgrd, hB.settle hd hm⟩
  · intro h hagree
    exact h (hexact.mpr ((hB.agree_iff hlive hgrd).mp hagree))

theorem OutOfMemory.exact {pages : ℕ → Ptr} {request : ℕ}
    (hout : OutOfMemory pages h request) : AllocExact pages h request := by
  intro hsmall
  rw [OutOfMemory, if_pos hsmall] at hout
  rw [hout.1, hout.2]
  exact ⟨nofun, fun _ h => absurd rfl h⟩

section Steps

variable {s : Ledger} {L : List ℕ} {C : ℕ → List ℕ}

variable {request size p b q : ℕ} {pages : ℕ → Ptr} {h' h : Heap} {op : Op} {r : Ptr}

/-- The ledger of a client that received a result of `heap_alloc`. -/
theorem entered_books {L₀ : List ℕ} {d m : ℤ} (hlive : s.blocks.map Prod.fst = s.client.live)
    (hgrd : s.runs.map Prod.fst = s.client.guarded)
    (ha : Allocates pages s.client.heap request L₀ s.blocks s.runs d m h' r)
    (ht : t = { s.enter request (granted pages s.client.heap request) with
      client := s.client.receive h' request r }) :
    t.client.heap = h' ∧ t.blocks.map Prod.fst = t.client.live ∧
      t.runs.map Prod.fst = t.client.guarded ∧
      ∃ L' d', Books h' L' t.blocks t.runs d' m ∧
        (AllocExact pages s.client.heap request ↔ (d' - d) % 4294967296 = 0) := by
  subst ht
  cases ha with
  | refused hout hgrant hB =>
    rw [hgrant]
    exact ⟨rfl, hlive, hgrd, _, d, hB, fun _ => by omega, fun _ => hout.exact⟩
  | block p n L' d' hsmall _ hgrant _ hB hd =>
    rw [hgrant]
    simp only [Ledger.enter, Client.receive, if_pos hsmall, List.map_cons, hlive]
    exact ⟨trivial, trivial, hgrd, L', d', hB, hd⟩
  | run p n hlarge _ hgrant _ hB =>
    rw [hgrant]
    simp only [Ledger.enter, Client.receive, if_neg hlarge, List.map_cons, hgrd]
    exact ⟨trivial, hlive, trivial, _, d, hB, fun _ => by omega, fun _ h => absurd h hlarge⟩

section

variable (hs : Audited s L C) (hlegal : s.client.Legal op) (hsafe : s.client.Safe op)
include hs hlegal hsafe

theorem alloc_verdict
    (hfr : Fresh pages s.client.heap) (hext : ExtendsUsed pages s.client.heap size)
    (hlt : size < 4294967296) (hstep : ∀ h' r, heapAlloc pages s.client.heap size = some (h', r) →
      s.client.step op = some (s.client.receive h' size r))
    (hnote : s.note op = s.enter size (granted pages s.client.heap size)) :
    ∃ t, s.step op = some t ∧ Verdict (AllocExact pages s.client.heap size) t := by
  obtain ⟨h', r, he, ha⟩ := heapAlloc_allocates hs.client.inv hfr hext hlt hs.books
  obtain ⟨u, L', C', hu, hinv⟩ := Client.step_inv hs.client hlegal hsafe
  have hreceive := hstep h' r he
  rw [hu] at hreceive
  obtain rfl := Option.some.inj hreceive
  refine ⟨{ s.note op with client := s.client.receive h' size r }, by rw [Ledger.step, hu]; rfl, ?_⟩
  rw [hnote]
  obtain ⟨hheap, hlive, hgrd, L'', d', hB, hexact⟩ := entered_books hs.live hs.guarded ha rfl
  apply verdict_of_books hinv hlive hgrd (hheap ▸ hB)
  rw [hexact]
  omega

theorem free_verdict (hp : p ∈ s.client.live ∨ p ∈ s.client.guarded)
    (hret : p ∈ s.client.live → Client.Returnable s.client.heap p)
    (hstep : s.client.step op =
      some { s.client.drop p with heap := heapFree s.client.heap (some p) })
    (hnote : s.note op = s.strike p) :
    ∃ t, s.step op = some t ∧ Verdict (p ∉ s.client.guarded) t := by
  obtain ⟨u, L', C', hu, hinv⟩ := Client.step_inv hs.client hlegal hsafe
  rw [hstep] at hu
  obtain rfl := Option.some.inj hu
  refine ⟨{ s.note op with
    client := { s.client.drop p with heap := heapFree s.client.heap (some p) } },
    by rw [Ledger.step, hstep]; rfl, ?_⟩
  rw [hnote]
  by_cases hg : p ∈ s.client.guarded
  · have hlooks := hs.client.guarded p hg
    have hnot : p ∉ s.client.live := by
      intro hl
      rw [(hret hl).1] at hlooks
      cases hlooks
    have hblks := eraseP_of_not_mem (B := s.blocks) (p := p) (hs.live ▸ hnot)
    obtain ⟨n, hpos, hlt, hB⟩ := hs.books.free_run (hs.guarded ▸ hg) hlooks
    obtain ⟨-, -, -, -, hmap⟩ := eraseP_of_mem (B := s.runs) (p := p) (hs.guarded ▸ hg)
    apply verdict_of_books hinv (K := L) (d := 0) (m := 0 + n)
    · simp only [Ledger.strike, Client.drop, hblks, hs.live, List.erase_of_not_mem hnot]
    · simp only [Ledger.strike, Client.drop, hmap, hs.guarded]
    · simpa only [Ledger.strike, hblks] using hB
    · constructor
      · exact fun hno => absurd hg hno
      · omega
  · have hl := hp.resolve_right hg
    have hruns := eraseP_of_not_mem (B := s.runs) (p := p) (hs.guarded ▸ hg)
    obtain ⟨L'', hB⟩ := hs.books.free_block hs.client.inv (hs.live ▸ hl) (hret hl)
    obtain ⟨-, -, -, -, hmap⟩ := eraseP_of_mem (B := s.blocks) (p := p) (hs.live ▸ hl)
    apply verdict_of_books hinv (K := L'') (d := 0) (m := 0)
    · simp only [Ledger.strike, Client.drop, hmap, hs.live]
    · simp only [Ledger.strike, Client.drop, hruns, hs.guarded, List.erase_of_not_mem hg]
    · simpa only [Ledger.strike, hruns] using hB
    · simp [hg]

end

/-- A call that leaves the ledger's entries and the client's pointers. -/
theorem step_of_kept (hstep : s.client.step op = some { s.client with heap := h' })
    (hnote : s.note op = s) :
    s.step op = some { s with client := { s.client with heap := h' } } := by
  rw [Ledger.step, hstep, hnote]
  rfl

/-- The free bytes of a client that holds what it held, when one block was resized. -/
theorem not_agree_of_drift (hs : Audited s L C) {L' : List ℕ} {x : Ptr} {δ : ℤ} {f a k : ℕ}
    (hw : Walk h' L') (hedit : Edit x s.client.heap L h' L' δ) (hc : h'.counters = (f, a, k))
    (hdrift : ¬ (f : ℤ) % 4294967296 = (s.client.heap.stats.freeBytes + δ) % 4294967296) :
    ¬ StatsAgree { s with client := { s.client with heap := h' } } := by
  rintro ⟨⟨L'', hw'', hfree''⟩, -, -⟩
  obtain rfl := hw''.unique hw
  obtain rfl : h'.stats.freeBytes = f := congrArg Prod.fst hc
  have hfree := hs.books.free
  have hsum := hedit.free
  dsimp only at hfree''
  omega

theorem strike_enter {e : Option (ℕ × ℕ)} (hne : ∀ q n, e = some (q, n) → q ≠ p) :
    (s.strike p).enter request e = (s.enter request e).strike p := by
  cases e with
  | none => rfl
  | some e =>
    have hep : e.1 ≠ p := hne e.1 e.2 rfl
    unfold Ledger.enter
    dsimp only
    split_ifs <;> simp [Ledger.strike, hep]

theorem heapRealloc_block (hsb : Sound h b) (hsize : size ≠ 0)
    (hg : looksGuarded (b + 40) = false) :
    heapRealloc pages h (some (b + 40)) size =
      reallocBlock pages h (b + 40) b (alignSize size) := by
  simp [heapRealloc, hsize, hg, hsb.dataToHeader, hsb.validateBlock]

theorem realloc_kept (hsize : size ≠ 0) (hr : r = none ∨ r = some p)
    (he : heapRealloc pages s.client.heap (some p) size = some (h', r)) :
    s.step (.realloc (some p) size pages) =
      some { s with client := { s.client with heap := h' } } := by
  apply step_of_kept
  · simp only [Client.step, he, Option.map_some, if_neg hsize, if_pos hr]
  · rcases hr with rfl | rfl
    · simp only [Ledger.note, if_neg hsize, he]
    · simp only [Ledger.note, if_neg hsize, he, if_true]

theorem realloc_moved (hsize : size ≠ 0) (hq : q ≠ p)
    (he : heapRealloc pages s.client.heap (some p) size = some (h', some q)) :
    s.step (.realloc (some p) size pages) = some { (s.strike p).enter (alignSize size)
          (granted pages s.client.heap (alignSize size)) with
        client := (s.client.drop p).receive h' (alignSize size) (some q) } := by
  have hr : ¬ ((some q : Ptr) = none ∨ (some q : Ptr) = some p) := by simp [hq]
  simp only [Ledger.step, Client.step, he, Option.map_some, if_neg hsize, if_neg hr, Ledger.note,
    if_neg hq]

/-- A large enough block is kept, and cut if the rest is worth a block. -/
theorem shrink_verdict (hs : Audited s L C) (hsize : size ≠ 0) (hb : b ∈ L)
    (hu : s.client.heap.status b = .used) (hg : looksGuarded (b + 40) = false)
    (hfit : alignSize size ≤ s.client.heap.payload b) :
    ∃ t, s.step (.realloc (some (b + 40)) size pages) = some t ∧
      Verdict (¬ Splits s.client.heap b (alignSize size)) t := by
  have hsb := hs.client.inv.phys.sound b hb
  have hrealloc : heapRealloc pages s.client.heap (some (b + 40)) size =
      some (if 64 ≤ sub32 (s.client.heap.payload b) (alignSize size) then
        (splitBlock s.client.heap b (alignSize size)).1 else s.client.heap, some (b + 40)) := by
    rw [heapRealloc_block hsb hsize hg]
    unfold reallocBlock
    dsimp only
    rw [if_pos hfit]
  refine ⟨_, realloc_kept hsize (.inr rfl) hrealloc, ?_⟩
  have hpay := hsb.payload
  have hlarge := hsb.large
  have hlt := hsb.size_lt
  constructor
  · intro hno
    have hsame : (if 64 ≤ sub32 (s.client.heap.payload b) (alignSize size) then
        (splitBlock s.client.heap b (alignSize size)).1 else s.client.heap) = s.client.heap := by
      rw [splitBlock_eq, if_neg hno, ite_self]
    rw [hsame]
    exact ⟨L, C, hs⟩
  · intro hyes
    have hsplits := not_not.mp hyes
    have hroom := (splits_iff hsb (by omega)).mp hsplits
    rw [if_pos (by unfold sub32; omega)]
    obtain ⟨L', hw, hedit, hc⟩ :=
      splitBlock_drifts hs.client.inv.phys hb hu hsplits (by omega) rfl
    apply not_agree_of_drift hs hw hedit hc
    have hbounds := hs.books.bounds
    unfold sub32
    omega

theorem grow_verdict (hs : Audited s L C) (pages : ℕ → Ptr) (hsize : size ≠ 0) (hb : b ∈ L)
    (hu : s.client.heap.status b = .used) (hg : looksGuarded (b + 40) = false)
    (hfit : ¬ alignSize size ≤ s.client.heap.payload b)
    (hm : ¬ Moves s.client.heap b (alignSize size)) :
    ∃ t, s.step (.realloc (some (b + 40)) size pages) = some t ∧ ¬ StatsAgree t := by
  have hsb := hs.client.inv.phys.sound b hb
  obtain ⟨c, hc, hfree, hle, he⟩ := reallocBlock_of_grows pages (b + 40) hfit hm
  rw [← heapRealloc_block hsb hsize hg] at he
  refine ⟨_, realloc_kept hsize (.inr rfl) he, ?_⟩
  obtain ⟨L', δ, f, hw, hedit, hcounters, hdrift⟩ :=
    growInto_drifts hs.client.inv hb hu hc hfree hle hs.books.bounds.1 rfl
  exact not_agree_of_drift hs hw hedit hcounters hdrift

theorem receive_heap (c : Client) (h : Heap) (request : ℕ) (r : Ptr) :
    (c.receive h request r).heap = h := by
  unfold Client.receive
  split
  · rfl
  · split_ifs <;> rfl

theorem receive_drop (c : Client) (hne : q ≠ p) (h h' : Heap) (request : ℕ) :
    ((c.drop p).receive h request (some q)).live = (c.receive h' request (some q)).live.erase p ∧
      ((c.drop p).receive h request (some q)).guarded =
        (c.receive h' request (some q)).guarded.erase p := by
  have hcons : ∀ l : List ℕ, (q :: l).erase p = q :: l.erase p := fun l =>
    List.erase_cons_tail (by simpa using hne)
  unfold Client.receive
  dsimp only
  split_ifs
  · exact ⟨(hcons _).symm, rfl⟩
  · exact ⟨rfl, (hcons _).symm⟩

theorem mem_receive {c : Client} (hp : p ∈ c.live) (h : Heap) (request : ℕ) (r : Ptr) :
    p ∈ (c.receive h request r).live := by
  cases r with
  | none => exact hp
  | some q =>
    unfold Client.receive
    dsimp only
    split_ifs
    · exact List.mem_cons_of_mem q hp
    · exact hp

theorem alignSize_lt (h : size < 4294967296) : alignSize size < 4294967296 := by
  unfold alignSize add32 heapAlign
  split_ifs <;> omega

/-- A block is moved: a new allocation, and the old block is handed back. -/
theorem move_verdict (hs : Audited s L C) (hsize : size ≠ 0) (hlt : size < 4294967296)
    (hp : b + 40 ∈ s.client.live) (hb : b ∈ L) (hu : s.client.heap.status b = .used)
    (hret : Client.Returnable s.client.heap (b + 40)) (hfr : Fresh pages s.client.heap)
    (hm : Moves s.client.heap b (alignSize size))
    (hext : ExtendsUsed pages s.client.heap (alignSize size))
    (hinv : ∀ t, s.step (.realloc (some (b + 40)) size pages) = some t →
      ∃ L' C', ClientInv t.client L' C') :
    ∃ t, s.step (.realloc (some (b + 40)) size pages) = some t ∧
      Verdict (AllocExact pages s.client.heap (alignSize size)) t := by
  have hsb := hs.client.inv.phys.sound b hb
  obtain ⟨hg, hpred⟩ := hret
  rw [hsb.dataToHeader] at hpred
  obtain ⟨h₁, r, L₁, C₁, he, hinv₁, hframe, hhanded, -⟩ := heapAlloc_spec hs.client.inv hfr hext
  obtain ⟨h₁', r', he', ha⟩ :=
    heapAlloc_allocates hs.client.inv hfr hext (alignSize_lt hlt) hs.books
  rw [he] at he'
  cases he'
  have hrealloc : heapRealloc pages s.client.heap (some (b + 40)) size =
      moveTo pages s.client.heap (b + 40) (alignSize size) (s.client.heap.payload b) := by
    rw [heapRealloc_block hsb hsize hg, reallocBlock_of_moves hm]
  unfold moveTo at hrealloc
  rw [he] at hrealloc
  cases r with
  | none =>
    have hstep := realloc_kept hsize (.inl rfl) hrealloc
    refine ⟨_, hstep, ?_⟩
    obtain ⟨L', C', hclient⟩ := hinv _ hstep
    cases ha with
    | refused hout _ hB =>
      apply verdict_of_books hclient hs.live hs.guarded hB
      exact ⟨fun _ => by omega, fun _ => hout.exact⟩
  | some q =>
    have hne : q ≠ b + 40 := hhanded.ne rfl hb hu hg
    dsimp only at hrealloc
    have hstep := realloc_moved hsize hne hrealloc
    refine ⟨_, hstep, ?_⟩
    obtain ⟨L', C', hclient⟩ := hinv _ hstep
    -- the books after the allocation, after the copy, and after the old block was handed back
    obtain ⟨-, hlive, hgrd, L₁', d', hB₁, hexact⟩ := entered_books hs.live hs.guarded ha rfl
    obtain rfl : L₁' = L₁ := hB₁.walk.unique hinv₁.phys.walk
    have hcopy := copyBytes_sameState h₁ q (b + 40) (s.client.heap.payload b)
    have hB₂ := hB₁.congr (hB₁.walk.sameBlocks hcopy.sameBlocks)
      (Edit.of_sameBlocks hcopy.sameBlocks) rfl
    obtain ⟨hbL₁, hu₁, hpred₁⟩ := hframe b hb hu
    obtain ⟨-, -, hpred₂⟩ := Frame.of_sameState (L := L₁') hcopy b hbL₁ hu₁
    have hret₂ : Client.Returnable
        (copyBytes h₁ q (b + 40) (s.client.heap.payload b)) (b + 40) := by
      refine ⟨hg, ?_⟩
      rw [hsb.dataToHeader]
      exact hpred₂ (hpred₁ hpred)
    have hmem := mem_receive hp h₁ (alignSize size) (some q)
    have hmem' := hmem
    rw [← hlive] at hmem'
    obtain ⟨L₃, hB₃⟩ := hB₂.free_block (hinv₁.congr hcopy) hmem' hret₂
    obtain ⟨-, -, -, -, hmap⟩ := eraseP_of_mem hmem'
    have hnot : b + 40 ∉ (s.client.receive h₁ (alignSize size) (some q)).guarded := by
      have hold : b + 40 ∉ s.client.guarded := by
        intro hmem
        rw [hs.client.guarded _ hmem] at hg
        cases hg
      unfold Client.receive
      dsimp only
      split_ifs
      · exact hold
      · exact fun hmem => (List.mem_cons.mp hmem).elim (fun e => hne e.symm) hold
    have hruns := eraseP_of_not_mem (hgrd ▸ hnot)
    have hgrant : ∀ q' n, granted pages s.client.heap (alignSize size) = some (q', n) →
        q' ≠ b + 40 := by
      intro q' n hq'
      rw [granted_of_some he] at hq'
      cases hq'
      exact hne
    obtain ⟨hldrop, hgdrop⟩ := receive_drop s.client hne
      (heapFree (copyBytes h₁ q (b + 40) (s.client.heap.payload b)) (some (b + 40))) h₁
      (alignSize size)
    rw [strike_enter hgrant] at hclient ⊢
    apply verdict_of_books hclient (K := L₃) (d := d') (m := 0)
    · exact hmap.trans (by rw [hlive, hldrop])
    · exact (congrArg _ hruns).trans (by rw [hgrd, hgdrop, List.erase_of_not_mem hnot])
    · dsimp only [Ledger.strike]
      rw [receive_heap, hruns]
      exact hB₃
    · rw [hexact]
      omega

theorem charged_enter (s : Ledger) (request : ℕ) (e : ℕ × ℕ) :
    charged (s.enter request (some e)).blocks + charged (s.enter request (some e)).runs =
      charged s.blocks + charged s.runs + e.2 := by
  unfold Ledger.enter
  dsimp only
  split_ifs <;> simp only [charged, List.map_cons, List.sum_cons] <;> omega

theorem Allocates.charge {L : List ℕ} {B R : List (ℕ × ℕ)} {d m : ℤ}
    (ha : Allocates pages h request L B R d m h' (some q)) :
    ¬ OutOfMemory pages h request ∧ ∃ n, granted pages h request = some (q, n) ∧
      allocSize request ≤ n ∧ n < 4294967296 ∧ h'.stats.allocatedBytes < 4294967296 ∧
      (h'.stats.allocatedBytes : ℤ) % 4294967296 =
        (charged B + charged R + n + m) % 4294967296 := by
  cases ha with
  | block p n L' d' hsmall hout hgrant hn hB hd | run p n hlarge hout hgrant hn hB =>
    refine ⟨hout, n, hgrant, hn.1, hn.2, hB.bounds.2.1, ?_⟩
    have halloc := hB.allocated
    simp only [charged, List.map_cons, List.sum_cons] at *
    omega

theorem guarded_verdict (hs : Audited s L C) (hsize : size ≠ 0) (hlt : size < 4294967296)
    (hp : p ∈ s.client.guarded) (hnot : p ∉ s.client.live) (hfr : Fresh pages s.client.heap)
    (hext : guardedSize s.client.heap p < alignSize size →
      ExtendsUsed pages s.client.heap (alignSize size))
    (hinv : ∀ t, s.step (.realloc (some p) size pages) = some t →
      ∃ L' C', ClientInv t.client L' C') :
    ∃ t, s.step (.realloc (some p) size pages) = some t ∧
      Verdict (alignSize size ≤ guardedSize s.client.heap p ∨
        OutOfMemory pages s.client.heap (alignSize size)) t := by
  have hg := hs.client.guarded p hp
  by_cases hfit : alignSize size ≤ guardedSize s.client.heap p
  · have hrealloc : heapRealloc pages s.client.heap (some p) size =
        some (s.client.heap, some p) := by
      simp [heapRealloc, hsize, hg, hfit]
    refine ⟨_, realloc_kept hsize (.inr rfl) hrealloc, ⟨fun _ => ⟨L, C, hs⟩, ?_⟩⟩
    exact fun hno => absurd (.inl hfit) hno
  · obtain ⟨h₁, r, he, ha⟩ := heapAlloc_allocates hs.client.inv hfr (hext (by omega))
      (alignSize_lt hlt) hs.books
    have hrealloc : heapRealloc pages s.client.heap (some p) size =
        moveTo pages s.client.heap p (alignSize size) (guardedSize s.client.heap p) := by
      simp [heapRealloc, hsize, hg, hfit]
    unfold moveTo at hrealloc
    rw [he] at hrealloc
    cases r with
    | none =>
      have hstep := realloc_kept hsize (.inl rfl) hrealloc
      refine ⟨_, hstep, ?_⟩
      obtain ⟨L', C', hclient⟩ := hinv _ hstep
      cases ha with
      | refused hout _ hB =>
        apply verdict_of_books hclient hs.live hs.guarded hB
        exact ⟨fun _ => by omega, fun _ => .inr hout⟩
    | some q =>
      dsimp only at hrealloc
      obtain ⟨hout, n, hgrant, hn, hnlt, hbound, halloc⟩ := ha.charge
      have hpos : 0 < n := by
        have : 16 ≤ allocSize (alignSize size) := by
          unfold allocSize alignSize add32 heapAlign at *
          split_ifs at * <;> omega
        omega
      -- the free of the old pages leaves `allocated_bytes` as it is
      have hsame : (heapFree (copyBytes h₁ q p (guardedSize s.client.heap p))
          (some p)).stats.allocatedBytes = h₁.stats.allocatedBytes := by
        unfold heapFree
        simp only [if_pos hg]
        rfl
      have hexact : ¬ (alignSize size ≤ guardedSize s.client.heap p ∨
          OutOfMemory pages s.client.heap (alignSize size)) := not_or.mpr ⟨hfit, hout⟩
      by_cases hq : q = p
      · refine ⟨_, realloc_kept hsize (.inr (by rw [hq])) hrealloc,
          ⟨fun h => absurd h hexact, fun _ hagree => ?_⟩⟩
        have hcount := hagree.allocated
        dsimp only at hcount
        rw [hsame] at hcount
        omega
      · refine ⟨_, realloc_moved hsize hq hrealloc, ⟨fun h => absurd h hexact, fun _ hagree => ?_⟩⟩
        obtain ⟨k, hk, hsum, -, -⟩ := eraseP_of_mem (B := s.runs) (p := p) (hs.guarded ▸ hp)
        obtain ⟨hkpos, hklt⟩ := hs.books.runs _ hk
        have hblks := eraseP_of_not_mem (B := s.blocks) (p := p) (hs.live ▸ hnot)
        have hcount := hagree.allocated
        rw [hgrant] at hcount
        have henter := charged_enter (s.strike p) (alignSize size) (q, n)
        simp only [Ledger.strike, hblks] at henter hcount
        rw [receive_heap, hsame, henter] at hcount
        omega

theorem step_verdict (hs : Audited s L C) (hlegal : s.client.Legal op) (hsafe : s.client.Safe op)
    (hsized : op.Sized) : ∃ t, s.step op = some t ∧ Verdict (s.client.Exact op) t := by
  have hinv : ∀ t, s.step op = some t → ∃ L' C', ClientInv t.client L' C' := by
    intro t ht
    obtain ⟨u, L', C', hu, hclient⟩ := Client.step_inv hs.client hlegal hsafe
    rw [Ledger.step, hu] at ht
    cases ht
    exact ⟨L', C', hclient⟩
  cases op with
  | alloc size pages =>
    exact alloc_verdict hs hlegal hsafe hlegal hsafe hsized
      (fun h' r he => by simp [Client.step, he]) rfl
  | free ptr =>
    cases ptr with
    | none =>
      refine ⟨s, rfl, ⟨fun _ => ⟨L, C, hs⟩, ?_⟩⟩
      intro hno
      exact absurd (fun p hp => by cases hp) hno
    | some p =>
      have hret : p ∈ s.client.live → Client.Returnable s.client.heap p :=
        fun hp => hsafe p hp rfl
      obtain ⟨t, ht, hv⟩ := free_verdict hs hlegal hsafe (hlegal p rfl) hret rfl rfl
      refine ⟨t, ht, ?_⟩
      have hexact : s.client.Exact (.free (some p)) ↔ p ∉ s.client.guarded := by
        simp [Client.Exact]
      rwa [hexact]
  | realloc ptr size pages =>
    have hfr := hlegal.1
    have hheld := hlegal.2
    cases ptr with
    | none =>
      exact alloc_verdict hs hlegal hsafe hfr hsafe hsized
        (fun h' r he => by simp [Client.step, heapRealloc, he]) rfl
    | some p =>
      by_cases hsize : size = 0
      · have hret : p ∈ s.client.live → Client.Returnable s.client.heap p := by
          intro hp
          simp only [Client.Safe, if_pos hp] at hsafe
          exact hsafe.2.1 (.inl hsize)
        have hv := free_verdict hs hlegal hsafe (hheld p rfl) hret
          (by simp [Client.step, heapRealloc, hsize]) (by simp [Ledger.note, hsize])
        simpa only [Client.Exact, if_pos hsize] using hv
      · by_cases hp : p ∈ s.client.live
        · simp only [Client.Safe, if_pos hp] at hsafe
          obtain ⟨hg, hret, hext⟩ := hsafe
          obtain ⟨b, hb, rfl, hu⟩ := hs.client.live p hp
          have hdata := (hs.client.inv.phys.sound b hb).dataToHeader
          simp only [Client.Exact, if_neg hsize, if_pos hp]
          rw [hdata] at hret hext ⊢
          split_ifs with hfit
          · exact shrink_verdict hs hsize hb hu hg hfit
          · by_cases hm : Moves s.client.heap b (alignSize size)
            · rw [and_iff_right hm]
              exact move_verdict hs hsize hsized hp hb hu (hret (.inr hm)) hfr hm
                (hext hsize hm) hinv
            · obtain ⟨t, ht, hdis⟩ := grow_verdict hs pages hsize hb hu hg hfit hm
              exact ⟨t, ht, ⟨fun h => absurd h.1 hm, fun _ => hdis⟩⟩
        · simp only [Client.Safe, if_neg hp] at hsafe
          simp only [Client.Exact, if_neg hsize, if_neg hp]
          exact guarded_verdict hs hsize hsized ((hheld p rfl).resolve_left hp) hp hfr
            (hsafe hsize) hinv

end Steps

/-! ## Runs -/

theorem ledger_completes {ops : List Op} (hs : ∃ L C, ClientInv s.client L C)
    (hops : Meets Ledger.step (fun s op => s.client.Legal op ∧ s.client.Safe op ∧ op.Sized) s ops) :
    (exec Ledger.step s ops).isSome := by
  apply (completes_of_meets Ledger.step (I := fun s => ∃ L C, ClientInv s.client L C) _ hs hops).1
  rintro s op ⟨L, C, hs⟩ ⟨hlegal, hsafe, -⟩
  obtain ⟨t, L', C', ht, hinv⟩ := Client.step_inv hs hlegal hsafe
  exact ⟨{ s.note op with client := t }, by rw [Ledger.step, ht]; rfl, L', C', hinv⟩

section Runs

variable (sizeofHeap : ℕ) (header : ℕ → BlockHeader) (footer : ℕ → BlockFooter)
  (byte : ℕ → UInt8) (start size : ℕ)

theorem heapCreate_stats : (heapCreate sizeofHeap header footer byte start size).stats =
    initialStats (sub32 (createSize start size) sizeofHeap) := rfl

theorem create_audited (hpos : 0 < sizeofHeap) (hroom : sizeofHeap + 71 ≤ heapMinSize)
    (hregion : start + max size heapMinSize ≤ 4294967296) :
    ∃ L C, Audited (Ledger.create sizeofHeap header footer byte start size) L C := by
  obtain ⟨L, C, hinv⟩ := heapCreate_inv sizeofHeap header footer byte start size hpos hroom hregion
  obtain ⟨h, he, hheader, -, -, hstart, -⟩ :=
    heapCreate_spec sizeofHeap header footer byte start size rfl rfl
  have hstats := heapCreate_stats sizeofHeap header footer byte start size
  refine ⟨L, C, ⟨hinv, by simp [Ledger.create, Client.create],
    by simp [Ledger.create, Client.create],
    by simp [Ledger.create, Client.create]⟩, rfl, rfl, ?_⟩
  simp only [Ledger.create, Client.create]
  rw [he] at hinv hstats ⊢
  have hlt := sub32_lt (createSize start size) sizeofHeap
  generalize add32 (createAddr start) sizeofHeap = addr at *
  generalize sub32 (createSize start size) sizeofHeap = n at *
  have hwalk : Walk h [addr] := by
    constructor
    · simp [Chain, Heap.next, hheader]
    · simp [hstart]
  obtain rfl := hinv.phys.walk.unique hwalk
  have htotal : freeTotal h [addr] = n := by
    simp [freeTotal, Heap.freeSize, Heap.status, Heap.size, hheader]
  refine ⟨hwalk, by simp, by simp, by simp, ?_, ?_, ?_, ?_⟩
  · simp [hstats, initialStats, hlt]
  · simp [hstats, initialStats, htotal]
  · simp [hstats, initialStats, charged]
  · simp [hstats, initialStats]

/-- A legal and safe run returns, and its counters agree throughout exactly if every call is exact.
-/
theorem stats_agree_iff (hpos : 0 < sizeofHeap) (hroom : sizeofHeap + 71 ≤ heapMinSize)
    (hregion : start + max size heapMinSize ≤ 4294967296) (ops : List Op)
    (hops : Meets Ledger.step (fun s op => s.client.Legal op ∧ s.client.Safe op ∧ op.Sized)
      (Ledger.create sizeofHeap header footer byte start size) ops) :
    (exec Ledger.step (Ledger.create sizeofHeap header footer byte start size) ops).isSome ∧
      (Throughout Ledger.step StatsAgree
          (Ledger.create sizeofHeap header footer byte start size) ops ↔
        Meets Ledger.step (fun s op => s.client.Exact op)
          (Ledger.create sizeofHeap header footer byte start size) ops) := by
  have hstart := create_audited sizeofHeap header footer byte start size hpos hroom hregion
  refine ⟨ledger_completes (hstart.imp fun L ⟨C, hs⟩ => ⟨C, hs.client⟩) hops, ?_⟩
  apply throughout_iff_meets_of_meets Ledger.step
    (I := fun s => ∃ L C, Audited s L C) _ _ hstart hops
  · rintro s ⟨L, C, hs⟩
    exact (hs.books.agree_iff hs.live hs.guarded).mpr (by omega)
  · rintro s op ⟨L, C, hs⟩ ⟨hlegal, hsafe, hsized⟩
    obtain ⟨t, ht, hv⟩ := step_verdict hs hlegal hsafe hsized
    exact ⟨t, ht, hv.audited, hv.disagree⟩

def zeroedLedger : Ledger := ⟨zeroed 4096, [], []⟩

/-- A request takes the whole heap, which is then handed back. -/
theorem stats_agree_zeroed : Throughout Ledger.step StatsAgree zeroedLedger
      [.alloc 3968 noPages, .free (some 0x200068)] := by
  refine (stats_agree_iff 64 _ _ _ 0x200000 4096 (by decide) (by decide) (by decide) _ ?_).2.mpr ?_
  · refine meets_cons _ ⟨fresh_noPages _, extendsUsed_noPages _ _, ?_⟩ (by decide) ?_
    · show 3968 < 4294967296
      decide
    refine meets_cons _ ⟨?_, ?_, trivial⟩ (by decide) trivial
    · rintro p ⟨⟩
      exact .inl (by decide)
    · rintro p - ⟨⟩
      exact ⟨by decide, by decide⟩
  · refine meets_cons _ ?_ (by decide) ?_
    · intro _
      have hfound : findFreeBlock zeroedLedger.client.heap (allocSize 3968) =
          some (some 0x200040) := by decide
      constructor
      · intro b hb
        cases hfound.symm.trans hb
        decide
      · intro hb
        cases hfound.symm.trans hb
    refine meets_cons _ ?_ (by decide) trivial
    rintro p ⟨⟩
    decide

/-- The first small allocation: the 72 bytes kept of the block are taken from `free_bytes` by
`split_block` and again by `heap_alloc`. -/
theorem split_counted_twice :
    Meets Ledger.step (fun s op => s.client.Legal op ∧ op.Sized) zeroedLedger [.alloc 16 noPages] ∧
    ∃ t, exec Ledger.step zeroedLedger [.alloc 16 noPages] = some t ∧
      t.client.heap.stats.freeBytes = 3888 ∧ Walk t.client.heap [0x200040, 0x200088] ∧
      freeTotal t.client.heap [0x200040, 0x200088] = 3960 ∧ ¬ StatsAgree t := by
  constructor
  · refine meets_cons _ ⟨fresh_noPages _, ?_⟩ (by decide) trivial
    show 16 < 4294967296
    decide
  · have hrun : (exec Ledger.step zeroedLedger [.alloc 16 noPages]).map (fun t =>
        (t.client.heap.stats.freeBytes, t.client.heap.start, t.client.heap.next 0x200040,
          t.client.heap.next 0x200088, freeTotal t.client.heap [0x200040, 0x200088])) =
        some (3888, 0x200040, some 0x200088, none, 3960) := by decide
    obtain ⟨t, ht, hval⟩ := Option.map_eq_some_iff.mp hrun
    simp only [Prod.mk.injEq] at hval
    obtain ⟨hfree, hstart, hnext, hlast, htotal⟩ := hval
    have hwalk : Walk t.client.heap [0x200040, 0x200088] :=
      ⟨⟨hnext, hlast, trivial⟩, by rw [hstart]; rfl⟩
    refine ⟨t, ht, hfree, hwalk, htotal, ?_⟩
    rintro ⟨⟨L, hw, hagree⟩, -, -⟩
    obtain rfl := hw.unique hwalk
    rw [hfree, htotal] at hagree
    exact absurd hagree (by decide)

end Runs

end UintOS.KernelHeap
