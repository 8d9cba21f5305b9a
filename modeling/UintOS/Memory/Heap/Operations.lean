import UintOS.Memory.Heap.Invariant

/-!
# The heap operations keep the invariant

Walks over a bin or over the physical list end, because the lists are finite. `heap_alloc`,
`heap_free` and `heap_realloc` keep `Inv` provided that the block handed back does not follow a free
block, and no extension is attached behind a free block.
-/

namespace UintOS.KernelHeap

open Links List Machine

section Walks

variable {h : Heap} {t : Ptr} {L : List ℕ} {C : ℕ → List ℕ}

variable {l : List ℕ} {fuel : ℕ}

theorem length_le_walkBound (hnd : l.Nodup) (hlt : ∀ b ∈ l, b < 4294967296) :
    l.length ≤ walkBound := by
  have hsub : l ⊆ List.range walkBound := fun b hb => mem_range.mpr (hlt b hb)
  simpa using (hnd.subperm hsub).length_le

theorem findInBin_spec (size : ℕ) (hl : Chain h.nextFree l) (hlen : l.length ≤ fuel) :
    ∃ r, findInBin h size fuel l.head? = some r ∧
      (∀ b, r = some b → b ∈ l ∧ size ≤ h.payload b) ∧
        (r = none → ∀ b ∈ l, h.payload b < size) := by
  induction l generalizing fuel with
  | nil => exact ⟨none, by simp [findInBin], by simp, by simp⟩
  | cons a l ih =>
    obtain ⟨fuel, rfl⟩ : ∃ k, fuel = k + 1 := ⟨fuel - 1, by simp at hlen; omega⟩
    simp only [head?_cons, findInBin]
    split_ifs with hfit
    · refine ⟨some a, rfl, ?_, by simp⟩
      intro b hb
      obtain rfl : a = b := by simpa using hb
      exact ⟨by simp, hfit⟩
    · rw [show (h.header a).nextFree = l.head? from hl.1]
      obtain ⟨r, hr, hspec, hnone⟩ := ih hl.2 (by simpa using hlen)
      exact ⟨r, hr, fun b hb => ⟨by simp [(hspec b hb).1], (hspec b hb).2⟩,
        fun hr => forall_mem_cons.mpr ⟨Nat.lt_of_not_le hfit, hnone hr⟩⟩

theorem findInBins_spec (size : ℕ) (is : List ℕ) (hbins : ∀ i ∈ is, Chain h.nextFree (C i) ∧
      h.bins i = (C i).head? ∧ (C i).length ≤ walkBound) :
    ∃ r, findInBins h size is = some r ∧
      (∀ b, r = some b → (∃ i ∈ is, b ∈ C i) ∧ size ≤ h.payload b) ∧
      (r = none → ∀ i ∈ is, ∀ b ∈ C i, h.payload b < size) := by
  induction is with
  | nil => exact ⟨none, rfl, by simp, by simp⟩
  | cons i is ih =>
    obtain ⟨⟨hl, hhead, hlen⟩, hbins⟩ := forall_mem_cons.mp hbins
    obtain ⟨r, hr, hspec, hnone⟩ := findInBin_spec size hl hlen
    rw [← hhead] at hr
    cases r with
    | none =>
      obtain ⟨r, hr', hspec', hnone'⟩ := ih hbins
      refine ⟨r, by simp [findInBins, hr, hr'], ?_, ?_⟩
      · intro b hb
        obtain ⟨⟨j, hj, hbj⟩, hfit⟩ := hspec' b hb
        exact ⟨⟨j, mem_cons_of_mem i hj, hbj⟩, hfit⟩
      · exact fun hr => forall_mem_cons.mpr ⟨hnone rfl, hnone' hr⟩
    | some b =>
      refine ⟨some b, by simp [findInBins, hr], ?_, by simp⟩
      intro c hc
      obtain rfl : b = c := by simpa using hc
      exact ⟨⟨i, by simp, (hspec b rfl).1⟩, (hspec b rfl).2⟩

/-- `find_free_block` returns, and finds a free block that is large enough. -/
theorem findFreeBlock_spec (hi : Inv h t L C) (size : ℕ) : ∃ r, findFreeBlock h size = some r ∧
      ∀ b, r = some b → b ∈ L ∧ h.status b = .free ∧ size ≤ h.payload b := by
  obtain ⟨r, hr, hspec, -⟩ := findInBins_spec (C := C) size
    (List.range' (getBinForSize size) (heapMaxBins - getBinForSize size)) fun i _ =>
      ⟨(hi.lists.linked i).chain, hi.lists.head i, length_le_walkBound (hi.lists.nodup i)
        fun b hb => (hi.phys.sound b ((hi.listed b).mp ⟨i, hb⟩).1).lt⟩
  refine ⟨r, hr, ?_⟩
  intro b hb
  obtain ⟨⟨i, -, hbi⟩, hfit⟩ := hspec b hb
  obtain ⟨hbL, hfree⟩ := (hi.listed b).mp ⟨i, hbi⟩
  exact ⟨hbL, hfree, hfit⟩

theorem lastFrom_spec {b : ℕ} (hl : Chain h.next (b :: l))
    (hlen : l.length < fuel) : lastFrom h fuel b = (b :: l).getLast? := by
  induction l generalizing b fuel with
  | nil =>
    obtain ⟨fuel, rfl⟩ : ∃ k, fuel = k + 1 := ⟨fuel - 1, by omega⟩
    have hnext : (h.header b).next = none := hl.1
    simp [lastFrom, hnext]
  | cons a l ih =>
    obtain ⟨fuel, rfl⟩ : ∃ k, fuel = k + 1 := ⟨fuel - 1, by omega⟩
    have hnext : (h.header b).next = some a := hl.1
    simp only [lastFrom, hnext]
    rw [ih hl.2 (by simpa using hlen)]
    simp [getLast?_cons]

theorem lastBlock_spec (hl : Chain h.next L) (hstart : L.head? = some h.start)
    (hlen : L.length ≤ walkBound) : lastBlock h = L.getLast? := by
  cases L with
  | nil => simp at hstart
  | cons b l =>
    obtain rfl : b = h.start := by simpa using hstart
    exact lastFrom_spec hl (by simpa using hlen)

theorem Phys.length_le (hp : Phys h t L) : L.length ≤ walkBound :=
  length_le_walkBound hp.nodup fun b hb => (hp.sound b hb).lt

theorem Phys.exists_last (hp : Phys h t L) : ∃ l last, L = l ++ [last] := by
  have hne : L ≠ [] := by
    rintro rfl
    have hstart := hp.start
    simp at hstart
  exact ⟨L.dropLast, L.getLast hne, (dropLast_append_getLast hne).symm⟩

end Walks

/-- The physical predecessor of the block, if there is one, is in use. -/
def PredUsed (h : Heap) (c : ℕ) : Prop := ∀ p ∈ h.prev c, h.status p = .used

instance (h : Heap) (c : ℕ) : Decidable (PredUsed h c) :=
  inferInstanceAs (Decidable (∀ p ∈ h.prev c, h.status p = .used))

/-- Blocks in use stay so, and keep a predecessor in use. -/
def Frame (h : Heap) (L : List ℕ) (h' : Heap) (L' : List ℕ) : Prop :=
  ∀ c ∈ L, h.status c = .used → c ∈ L' ∧ h'.status c = .used ∧ (PredUsed h c → PredUsed h' c)

variable {h h'' h' : Heap} {L L' L'' : List ℕ} {p : ℕ}

theorem Frame.trans (h₁ : Frame h L h' L') (h₂ : Frame h' L' h'' L'') : Frame h L h'' L'' := by
  intro c hc hu
  obtain ⟨hc', hu', hp'⟩ := h₁ c hc hu
  obtain ⟨hc'', hu'', hp''⟩ := h₂ c hc' hu'
  exact ⟨hc'', hu'', fun hp => hp'' (hp' hp)⟩

theorem Frame.of_sameState (hs : SameState h h') : Frame h L h' L := by
  intro c hc hu
  refine ⟨hc, by rw [hs.status, hu], ?_⟩
  intro hp p hprev
  rw [hs.status]
  exact hp p ((hs.sameBlocks.sameTags.prev c).symm.trans hprev)

theorem Phys.prev_mem {t : Ptr} (hp : Phys h t L) {c : ℕ} (hc : c ∈ L)
    (hprev : h.prev c = some p) : p ∈ L ∧ h.next p = some c := by
  have hpL := hp.linked.prev_mem hc hprev
  exact ⟨hpL, (hp.linked.next_iff_prev hpL hc).mpr hprev⟩

section Alloc

variable {h : Heap} {t : Ptr} {L : List ℕ} {C : ℕ → List ℕ} {b : ℕ}

theorem takeBlock_eq (h : Heap) (b size : ℕ) :
    takeBlock h b size = (noteAlloc ((splitBlock (removeFromFreeList h b) b size).1.modify b
      fun c => { c with status := .used }) b size, some (headerToData b)) := by
  rw [takeBlock]

theorem Sound.headerToData (hs : Sound h b) : headerToData b = b + 40 := by
  have := hs.large
  have := hs.fits
  exact add32_eq (by unfold headerSize; omega)

variable {h' : Heap} {L' : List ℕ} {minSize n request : ℕ} {pages : ℕ → Ptr} {r : Ptr}

theorem Held.markUsed (hh : Held h L C b) (size : ℕ)
    (he : h' = noteAlloc (h.modify b fun c => { c with status := .used }) b size) :
    Inv h' none L C ∧ h'.status b = .used ∧ h'.size b = h.size b ∧
      (∀ c, c ≠ b → h'.status c = h.status c) ∧ ∀ c, h'.prev c = h.prev c := by
  have hused : (h.modify b fun c => { c with status := .used }).status b = .used := by
    simp [Heap.status]
  have hsame := noteAlloc_sameState (h.modify b fun c => { c with status := .used }) b size
  rw [← he] at hsame
  refine ⟨((hh.setStatus .used).giveBack hused).congr hsame,
    (hsame.status b).trans hused, ?_, ?_, ?_⟩
  · rw [hsame.sameBlocks.sameTags.size]
    simp [Heap.size]
  · intro c hcb
    rw [hsame.status]
    simp [Heap.status, hcb]
  · intro c
    rw [hsame.sameBlocks.sameTags.prev]
    by_cases hcb : c = b <;> simp [Heap.prev, hcb]

theorem frame_of_taken (hp : Phys h t L) (hb : b ∈ L) (hfree : h.status b = .free)
    (hmem : ∀ c ∈ L, c ∈ L') (hsta : ∀ c ∈ L, c ≠ b → h'.status c = h.status c)
    (hprev : ∀ c ∈ L, h.next b ≠ some c → h'.prev c = h.prev c) : Frame h L h' L' := by
  have hne : ∀ {c}, h.status c = .used → c ≠ b := by
    rintro c hu rfl
    rw [hfree] at hu
    exact absurd hu (by decide)
  intro c hc hu
  refine ⟨hmem c hc, (hsta c hc (hne hu)).trans hu, ?_⟩
  intro hpred p hp'
  -- the successor of `b` does not have a predecessor in use
  have hnext : h.next b ≠ some c := by
    intro e
    exact hne (hpred b ((hp.linked.next_iff_prev hb hc).mp e)) rfl
  rw [hprev c hc hnext] at hp'
  have hpu := hpred p hp'
  exact (hsta p (hp.prev_mem hc hp').1 (hne hpu)).trans hpu

/-- `heap_alloc` marks the free block it was given as used and splits it. -/
theorem takeBlock_spec (hi : Inv h t L C) (ht : ∀ c, t = some c → c = b) (hb : b ∈ L)
    (hfree : h.status b = .free) {size : ℕ} (hfit : size ≤ h.payload b) :
    ∃ h' L' C', takeBlock h b size = (h', some (b + 40)) ∧ Inv h' none L' C' ∧ b ∈ L' ∧
      h'.status b = .used ∧ size ≤ h'.payload b ∧ Frame h L h' L' := by
  have hsb := hi.phys.sound b hb
  have hlarge := hsb.large
  rw [hsb.payload] at hfit
  obtain ⟨C₁, hheld₁⟩ := hi.hold_free ht hb hfree
  have hsame := (removeFromFreeList_sameBlocks h b).sameTags
  have hsize₁ : size + 56 ≤ (removeFromFreeList h b).size b := by
    rw [hsame.size b]
    omega
  obtain ⟨L₂, C₂, hheld₂, hsize₂, hkeep₂⟩ := hheld₁.split hsize₁
  obtain ⟨hinv, hused, hsize₃, hsta, hprev⟩ := hheld₂.markUsed size rfl
  refine ⟨_, L₂, C₂, by rw [takeBlock_eq, hsb.headerToData], hinv, (hkeep₂ b hb).1, hused, ?_, ?_⟩
  · rw [(hinv.phys.sound b hheld₂.mem).payload, hsize₃]
    omega
  apply frame_of_taken hi.phys hb hfree
  · exact fun c hc => (hkeep₂ c hc).1
  · intro c hc hcb
    exact (hsta c hcb).trans ((hkeep₂ c hc).2.1.trans (removeFromFreeList_status h b c))
  · intro c hc hnext
    have hnext₁ : (removeFromFreeList h b).next b ≠ some c := by rwa [hsame.next b]
    exact (hprev c).trans (((hkeep₂ c hc).2.2 hnext₁).trans (hsame.prev c))

/-- `allocate_pages` returns `NULL` or an aligned page run apart from the heap. -/
def Fresh (pages : ℕ → Ptr) (h : Heap) : Prop :=
  ∀ num a, pages num = some a → a % pageSize = 0 ∧ 0 < a ∧ a + num * pageSize ≤ 4294967296 ∧
    ∀ r ∈ h.regions, a + num * pageSize ≤ r.1 ∨ r.1 + r.2 ≤ a

theorem extensionSize_spec (hlt : minSize ≤ 8192) :
    extensionSize minSize / pageSize * pageSize = extensionSize minSize ∧
      minSize ≤ extensionSize minSize := by
  unfold extensionSize mul32 pageSize
  split_ifs <;> omega

/-- `heap_extend` finds the last block although the new header is written. -/
theorem lastBlock_formatPages {l : List ℕ} {last e : ℕ} (hp : Phys h t (l ++ [last]))
    (hn : n ∉ l ++ [last]) : lastBlock (formatPages h n e) = some last := by
  have hnext : ∀ c ∈ l ++ [last], (formatPages h n e).next c = h.next c := by
    intro c hc
    simp [formatPages, Heap.next, show c ≠ n from fun e => hn (e ▸ hc)]
  have hlast := lastBlock_spec (h := formatPages h n e) (hp.linked.chain.congr hnext) hp.start
    hp.length_le
  simpa using hlast

section

variable (hi : Inv h none L C) (hfr : Fresh pages h) (hmin : 56 ≤ minSize)
  (hmax : minSize ≤ 8192) (hpages : pages (extensionSize minSize / pageSize) = some n)
include hi hfr hmin hmax hpages

/-- `heap_extend` on pages it obtained attaches the new block, and merges it with a free one. -/
theorem heapExtend_eq :
    ∃ h₀ l last, h₀ = logCall h (.allocate (extensionSize minSize / pageSize) (some n)) ∧
      L = l ++ [last] ∧ n ∉ L ∧
      Held (append h₀ last n (extensionSize minSize)) (l ++ [last, n]) C n ∧
      (append h₀ last n (extensionSize minSize)).status n = .free ∧
      (append h₀ last n (extensionSize minSize)).size n = extensionSize minSize ∧
      (∀ c ∈ L, (append h₀ last n (extensionSize minSize)).status c = h.status c ∧
        (append h₀ last n (extensionSize minSize)).prev c = h.prev c ∧
        (append h₀ last n (extensionSize minSize)).size c = h.size c) ∧
      lastBlock h = some last ∧
      let h₂ := attach (formatPages h₀ n (extensionSize minSize)) last n (extensionSize minSize)
      heapExtend pages h minSize = if h.status last = .free then
        some ((mergeBlocks h₂ last).1, some (mergeBlocks h₂ last).2) else some (h₂, some n) := by
  obtain ⟨hround, hle⟩ := extensionSize_spec hmax
  obtain ⟨hpage, hpos, hfits, hnew⟩ := hfr _ n hpages
  rw [hround] at hfits hnew
  obtain ⟨l, last, rfl⟩ := hi.phys.exists_last
  have hlast : lastBlock h = some last := by
    simpa using lastBlock_spec hi.phys.linked.chain hi.phys.start hi.phys.length_le
  have hcall := logCall_sameState h (.allocate (extensionSize minSize / pageSize) (some n))
  generalize hh₀ : logCall h (.allocate (extensionSize minSize / pageSize) (some n)) = h₀ at hcall
  have hi₀ := hi.congr hcall
  rw [← hcall.regions] at hnew
  generalize hext : extensionSize minSize = e at *
  obtain ⟨hheld, hn, hsize, hfree, hkeep⟩ :=
    hi₀.append hpage hpos (by omega) hfits hnew
  have hsizes : ∀ c ∈ l ++ [last], (append h₀ last n e).size c = h.size c := by
    intro c hc
    have happ := append_spec (h := h₀) (e := e) (fun hl : last = n => hn (by simp [hl]))
      (by omega) hfits
    rw [(happ.other_fields fun e => hn (e ▸ hc)).1, hcall.sameBlocks.sameTags.size]
  have hattach := attach_sameState h₀ last n e
  have hsta : (attach (formatPages h₀ n e) last n e).status last = h.status last := by
    rw [hattach.status, addToFreeList_status, (hkeep last (by simp)).1, hcall.status]
  refine ⟨h₀, l, last, rfl, rfl, hn, hheld, hfree, hsize, ?_, hlast, ?_⟩
  · intro c hc
    exact ⟨(hkeep c hc).1.trans (hcall.status c),
      (hkeep c hc).2.trans (hcall.sameBlocks.sameTags.prev c), hsizes c hc⟩
  · unfold Heap.status at hsta
    simp only [heapExtend, hext, hpages, hh₀, lastBlock_formatPages hi₀.phys hn, hsta,
      Heap.status]
    rfl

variable (hlast : ∀ last, lastBlock h = some last → h.status last = .used)
include hlast

theorem heapExtend_spec :
    ∃ h' L' C', heapExtend pages h minSize = some (h', some n) ∧ Inv h' (some n) L' C' ∧
      n ∈ L' ∧ n ∉ L ∧ h'.status n = .free ∧ h'.size n = extensionSize minSize ∧
      Frame h L h' L' := by
  obtain ⟨h₀, l, last, -, rfl, hn, hheld, hfree, hsize, hkeep, hlast', he⟩ :=
    heapExtend_eq hi hfr hmin hmax hpages
  simp only [hlast last hlast', reduceCtorEq, if_false] at he
  generalize extensionSize minSize = e at *
  obtain ⟨C', hlisted⟩ := hheld.list hfree
  have hattach := attach_sameState h₀ last n e
  have hadd := addToFreeList_sameBlocks (append h₀ last n e) n
  have hsta : ∀ c, (attach (formatPages h₀ n e) last n e).status c =
      (append h₀ last n e).status c := fun c =>
    (hattach.status c).trans (addToFreeList_status _ n c)
  have hprev : ∀ c, (attach (formatPages h₀ n e) last n e).prev c =
      (append h₀ last n e).prev c := fun c =>
    (hattach.sameBlocks.sameTags.prev c).trans (hadd.sameTags.prev c)
  refine ⟨attach (formatPages h₀ n e) last n e, l ++ [last, n], C', he,
    hlisted.congr hattach, by simp, hn, (hsta n).trans hfree, ?_, ?_⟩
  · rw [hattach.sameBlocks.sameTags.size, hadd.sameTags.size, hsize]
  · intro c hc hu
    refine ⟨by simp at hc ⊢; tauto, ?_, ?_⟩
    · rw [hsta, (hkeep c hc).1, hu]
    · intro hpred p hp
      rw [hprev, (hkeep c hc).2.1] at hp
      have hpL := (hi.phys.prev_mem hc hp).1
      rw [hsta, (hkeep p hpL).1]
      exact hpred p hp

end

theorem heapExtend_none (hpages : pages (extensionSize minSize / pageSize) = none) :
    ∃ h', heapExtend pages h minSize = some (h', none) ∧ SameState h h' := by
  refine ⟨logCall h (.allocate (extensionSize minSize / pageSize) none), ?_, logCall_sameState h _⟩
  unfold heapExtend
  simp only [hpages]

theorem guardedAlloc_spec (hfr : Fresh pages h) (size : ℕ) :
    ∃ h' r, guardedAlloc pages h size = (h', r) ∧ SameState h h' ∧
      ∀ p, r = some p → looksGuarded p = true := by
  unfold guardedAlloc
  dsimp only
  generalize hnum : add32 (add32 size (pageSize - 1) / pageSize) 2 = num
  have hcall := logCall_sameState h (.allocate num (pages num))
  generalize logCall h (.allocate num (pages num)) = h₀ at hcall
  cases hp : pages num with
  | none => exact ⟨h₀, none, rfl, hcall, by simp⟩
  | some a =>
    refine ⟨_, _, rfl, hcall.trans ⟨rfl, rfl, rfl, rfl, rfl⟩, ?_⟩
    intro p hp'
    obtain ⟨hpage, _⟩ := hfr num a hp
    obtain rfl : add32 (add32 a pageSize) 4 = p := by simpa using hp'
    unfold looksGuarded add32 pageSize at *
    rw [Bool.and_eq_true, decide_eq_true_eq, decide_eq_true_eq]
    omega

/-- When `heap_alloc` extends the heap, the last block is in use. -/
def ExtendsUsed (pages : ℕ → Ptr) (h : Heap) (request : ℕ) : Prop :=
  allocSize request < pageSize → findFreeBlock h (allocSize request) = some none →
    pages (extensionSize (requiredSize (allocSize request)) / pageSize) ≠ none →
    ∀ last ∈ lastBlock h, h.status last = .used

instance (pages : ℕ → Ptr) (h : Heap) (request : ℕ) : Decidable (ExtendsUsed pages h request) :=
  inferInstanceAs (Decidable (_ → _ → _ → ∀ last ∈ _, _ = _))

/-- What a pointer returned by `heap_alloc` is: the payload of a block that was not in use
before, or a guarded allocation. -/
def Handed (h : Heap) (L : List ℕ) (h' : Heap) (L' : List ℕ) (request : ℕ) (r : Ptr) : Prop :=
  ∀ p, r = some p →
    if allocSize request < pageSize then
      ∃ b ∈ L', p = b + 40 ∧ h'.status b = .used ∧ (b ∈ L → h.status b = .free)
    else looksGuarded p = true

theorem Handed.congr (hh : Handed h L h' L' request r)
    (hs : SameState h' h'') : Handed h L h'' L' request r := by
  intro p hp
  have hp' := hh p hp
  split_ifs at hp' ⊢
  · obtain ⟨b, hb, hpb, hu, hold⟩ := hp'
    exact ⟨b, hb, hpb, (hs.status b).trans hu, hold⟩
  · exact hp'

/-- A pointer `heap_alloc` returns is not that of a block in use. -/
theorem Handed.ne {q : ℕ} (hh : Handed h L h' L' request r) (hr : r = some q) (hb : b ∈ L)
    (hu : h.status b = .used) (hg : looksGuarded (b + 40) = false) : q ≠ b + 40 := by
  rintro rfl
  have hq := hh _ hr
  split_ifs at hq
  · obtain ⟨c, _, hc, _, hold⟩ := hq
    obtain rfl : b = c := by omega
    exact absurd ((hold hb).symm.trans hu) (by decide)
  · exact absurd (hq.symm.trans hg) (by decide)

theorem requiredSize_of_small {size : ℕ} (h : size < pageSize) : requiredSize size = size + 56 := by
  unfold requiredSize add32 headerSize footerSize
  unfold pageSize at h
  omega

theorem heapAlloc_spec (hi : Inv h none L C) (hfr : Fresh pages h)
    (hext : ExtendsUsed pages h request) :
    ∃ h' r L' C', heapAlloc pages h request = some (h', r) ∧ Inv h' none L' C' ∧
      Frame h L h' L' ∧ Handed h L h' L' request r ∧
      (allocSize request < pageSize → ∀ b, r = some (b + 40) →
        allocSize request ≤ h'.payload b) := by
  unfold heapAlloc Handed
  unfold ExtendsUsed at hext
  generalize allocSize request = size at *
  by_cases hsmall : size < pageSize
  · rw [if_neg (by omega)]
    have hreq := requiredSize_of_small hsmall
    obtain ⟨r, hr, hfound⟩ := findFreeBlock_spec hi size
    simp only [hr, if_pos hsmall]
    cases r with
    | some b =>
      obtain ⟨hb, hfree, hfit⟩ := hfound b rfl
      obtain ⟨h', L', C', he, hinv, hbL', hused, hroom, hframe⟩ :=
        takeBlock_spec hi (by simp) hb hfree hfit
      refine ⟨h', _, L', C', by simp only [he]; rfl, hinv, hframe, ?_, by simp [hroom]⟩
      intro p hp
      obtain rfl : b + 40 = p := by simpa using hp
      exact ⟨b, hbL', rfl, hused, fun _ => hfree⟩
    | none =>
      rw [hreq] at hext
      rw [hreq]
      cases hp : pages (extensionSize (size + 56) / pageSize) with
      | none =>
        obtain ⟨h', he, hsame⟩ := heapExtend_none (h := h) hp
        exact ⟨h', none, L, C, by simp only [he], hi.congr hsame, Frame.of_sameState hsame,
          by simp, by simp⟩
      | some n =>
        have hlast := hext hsmall hr (by simp [hp])
        have hmax : size + 56 ≤ 8192 := by
          unfold pageSize at hsmall
          omega
        obtain ⟨h₁, L₁, C₁, he, hinv, hn, hnL, hfree, hsize, hframe⟩ :=
          heapExtend_spec hi hfr (by omega) hmax hp hlast
        have hfit : size ≤ h₁.payload n := by
          have := (extensionSize_spec hmax).2
          rw [(hinv.phys.sound n hn).payload, hsize]
          omega
        obtain ⟨h', L', C', he', hinv', hnL', hused, hroom, hframe'⟩ :=
          takeBlock_spec hinv (by simp) hn hfree hfit
        refine ⟨h', some (n + 40), L', C', by simp [he, he'], hinv', hframe.trans hframe', ?_,
          by simp [hroom]⟩
        intro p hp
        obtain rfl : n + 40 = p := by simpa using hp
        exact ⟨n, hnL', rfl, hused, fun hm => absurd hm hnL⟩
  · rw [if_pos (by omega)]
    obtain ⟨h', r, he, hsame, hgrd⟩ := guardedAlloc_spec hfr size
    refine ⟨h', r, L, C, by rw [he], hi.congr hsame, Frame.of_sameState hsame, ?_,
      fun h => absurd h hsmall⟩
    simpa only [if_neg hsmall] using hgrd

end Alloc

section Free

variable {h : Heap} {t : Ptr} {L : List ℕ} {C : ℕ → List ℕ} {b : ℕ}

def FrameExcept (b : ℕ) (h : Heap) (L : List ℕ) (h' : Heap) (L' : List ℕ) : Prop :=
  ∀ c ∈ L, c ≠ b → h.status c = .used → c ∈ L' ∧ h'.status c = .used

variable {h' h : Heap} {L : List ℕ}

theorem FrameExcept.trans (h₁ : FrameExcept b h L h' L')
    (h₂ : FrameExcept b h' L' h'' L'') : FrameExcept b h L h'' L'' := by
  intro c hc hcb hu
  obtain ⟨hc', hu'⟩ := h₁ c hc hcb hu
  exact h₂ c hc' hcb hu'

theorem FrameExcept.of_status
    (hs : ∀ c, c ≠ b → h'.status c = h.status c) : FrameExcept b h L h' L :=
  fun c hc hcb hu => ⟨hc, (hs c hcb).trans hu⟩

theorem Frame.except (hf : Frame h L h' L') : FrameExcept b h L h' L' :=
  fun c hc _ hu => ⟨(hf c hc hu).1, (hf c hc hu).2.1⟩

theorem Sound.validateBlock (hs : Sound h b) : validateBlock h b = (h, true) := by
  unfold KernelHeap.validateBlock
  rw [if_pos hs.valid]

theorem Held.mergeNext (hh : Held h L C b) :
    ∃ h' L' C', mergeNext h b = (h', true) ∧ Held h' L' C' b ∧ h'.prev b = h.prev b ∧
      (∀ c ∈ L, h'.status c = h.status c) ∧ FrameExcept b h L h' L' := by
  unfold KernelHeap.mergeNext
  cases hn : (h.header b).next with
  | none => exact ⟨h, L, C, rfl, hh, rfl, fun _ _ => rfl, .of_status fun _ _ => rfl⟩
  | some n =>
    by_cases hfree : (h.header n).status = .free
    · have hnL : n ∈ L := hh.phys.next_mem hh.mem hn
      obtain ⟨L', C', hheld, _, hprev, hkeep⟩ := hh.absorbNext hn hfree
      have hsame := noteMerged_sameState (absorb (removeFromFreeList h n) b n)
      generalize hh₁ : absorb (removeFromFreeList h n) b n = h₁ at *
      have hsta : ∀ c ∈ L, (noteMerged h₁).status c = h.status c := fun c hc =>
        (hsame.status c).trans (hkeep c hc).1
      refine ⟨noteMerged h₁, L', C', ?_, hheld.congr hsame,
        (hsame.sameBlocks.sameTags.prev b).trans hprev, hsta, ?_⟩
      · simp only [if_pos hfree, (hh.phys.sound n hnL).validateBlock, hh₁]
      · intro c hc hcb hu
        refine ⟨(hkeep c hc).2 ?_, (hsta c hc).trans hu⟩
        rintro rfl
        exact absurd (hfree.symm.trans hu) (by decide)
    · simp only [if_neg hfree]
      exact ⟨h, L, C, rfl, hh, rfl, fun _ _ => rfl, .of_status fun _ _ => rfl⟩

/-- The backward half of `merge_blocks` does nothing behind a block in use. -/
theorem mergePrev_of_predUsed (hp : PredUsed h b) : mergePrev h b = (h, b) := by
  unfold mergePrev
  cases hprev : (h.header b).prev with
  | none => rfl
  | some p =>
    have hu : (h.header p).status = .used := hp p hprev
    simp [hu]

section

variable {h₁ : Heap} (hi : Inv h none L C) (hb : b ∈ L) (hu : h.status b = .used)
include hi hb hu

/-- The block handed back, marked free and not yet in a bin. -/
theorem noteFree_held (he : h₁ = noteFree (h.modify b fun c => { c with status := .free }) b) :
    Held h₁ L C b ∧ h₁.status b = .free ∧ (∀ c, c ≠ b → h₁.status c = h.status c) ∧
      h₁.prev b = h.prev b := by
  have hset := (hi.hold_used (by simp) hb hu).setStatus .free
  have hsame := noteFree_sameState (h.modify b fun c => { c with status := .free }) b
  rw [← he] at hsame
  refine ⟨hset.congr hsame, ?_, ?_, ?_⟩
  · rw [hsame.status]
    simp [Heap.status]
  · intro c hcb
    rw [hsame.status]
    simp [Heap.status, hcb]
  · rw [hsame.sameBlocks.sameTags.prev]
    simp [Heap.prev]

/-- `heap_free` on a validated block in use that does not follow a free block. -/
theorem releaseBlock_eq (hpred : PredUsed h b)
    (he : h₁ = noteFree (h.modify b fun c => { c with status := .free }) b) :
    releaseBlock h b = addToFreeList (mergeNext h₁ b).1 b := by
  obtain ⟨hheld, hfree, hsta, hprev⟩ := noteFree_held hi hb hu he
  obtain ⟨h₂, L', C₂, hmerge, hheld₂, hprev₂, hkeep, hframe⟩ := hheld.mergeNext
  have hpred₂ : PredUsed h₂ b := by
    intro p hp
    rw [hprev₂, hprev] at hp
    have hpL := (hi.phys.prev_mem hb hp).1
    have hpb : p ≠ b := by
      rintro rfl
      have hnext := (hi.phys.prev_mem hb hp).2
      exact hi.phys.linked.chain.next_ne_self hb hnext
    rw [hkeep p hpL, hsta p hpb]
    exact hpred p hp
  have hmerged : mergeBlocks h₁ b = (h₂, b) := by
    unfold mergeBlocks
    unfold Heap.status at hfree
    simp only [if_pos hfree, hmerge, mergePrev_of_predUsed hpred₂]
  unfold releaseBlock
  dsimp only
  rw [← he, hmerged, hmerge]

theorem releaseBlock_spec (hpage : b % pageSize ≠ 0) (hpred : PredUsed h b) :
    ∃ h' L' C', releaseBlock h b = h' ∧ Inv h' none L' C' ∧ FrameExcept b h L h' L' := by
  rw [releaseBlock_eq hi hb hu hpred rfl]
  obtain ⟨hheld, hfree, hsta, -⟩ := noteFree_held hi hb hu rfl
  obtain ⟨h₂, L', C₂, hmerge, hheld₂, -, hkeep, hframe⟩ := hheld.mergeNext
  have hfree₂ : h₂.status b = .free := (hkeep b hb).trans hfree
  obtain ⟨C', hlisted⟩ := hheld₂.list hfree₂
  refine ⟨addToFreeList h₂ b, L', C', by rw [hmerge],
    ⟨hlisted.phys.settle (Or.inr hpage), hlisted.lists, hlisted.listed⟩, ?_⟩
  have hframe' : FrameExcept b h₂ L' (addToFreeList h₂ b) L' :=
    .of_status fun c _ => addToFreeList_status h₂ b c
  exact (FrameExcept.trans (.of_status hsta) hframe).trans hframe'

end

theorem Sound.dataToHeader (hs : Sound h b) : dataToHeader (b + 40) = b := by
  have := hs.fits
  have := hs.large
  unfold KernelHeap.dataToHeader headerSize sub32
  omega

/-- A payload pointer that passes the page-offset test is not of a block at a page start. -/
theorem page_of_not_looksGuarded (hg : looksGuarded (b + 40) = false) : b % pageSize ≠ 0 := by
  intro hb
  unfold looksGuarded pageSize at *
  rw [Bool.and_eq_false_iff, decide_eq_false_iff_not, decide_eq_false_iff_not] at hg
  omega

theorem heapFree_block (hsb : Sound h b) (hu : h.status b = .used)
    (hg : looksGuarded (b + 40) = false) : heapFree h (some (b + 40)) = releaseBlock h b := by
  have hu' : (h.header b).status = .used := hu
  simp [heapFree, hg, hsb.dataToHeader, hsb.validateBlock, hu']

theorem heapFree_spec (hi : Inv h none L C) (hb : b ∈ L) (hu : h.status b = .used)
    (hg : looksGuarded (b + 40) = false) (hpred : PredUsed h b) :
    ∃ h' L' C', heapFree h (some (b + 40)) = h' ∧ Inv h' none L' C' ∧ FrameExcept b h L h' L' := by
  obtain ⟨h', L', C', he, hinv, hframe⟩ :=
    releaseBlock_spec hi hb hu (page_of_not_looksGuarded hg) hpred
  exact ⟨h', L', C', (heapFree_block (hi.phys.sound b hb) hu hg).trans he, hinv, hframe⟩

theorem heapFree_guarded (h : Heap) (hg : looksGuarded p = true) :
    SameState h (heapFree h (some p)) := by
  unfold heapFree
  simp only [if_pos hg]
  exact ⟨rfl, rfl, rfl, rfl, rfl⟩

end Free

section Realloc

variable {h : Heap} {L : List ℕ} {C : ℕ → List ℕ} {b : ℕ} {pages : ℕ → Ptr}

/-- What `heap_realloc` does to the block `b` when it returns `r`. -/
inductive Resized (b : ℕ) (h : Heap) (L : List ℕ) (h' : Heap) (L' : List ℕ) (size : ℕ) (r : Ptr) :
    Prop
  | inPlace (hr : r = some (b + 40)) (hb : b ∈ L') (hu : h'.status b = .used)
      (hframe : FrameExcept b h L h' L')
  | failed (hr : r = none) (hframe : Frame h L h' L')
  | moved (q : ℕ) (hr : r = some q) (hq : Handed h L h' L' size r)
      (hframe : FrameExcept b h L h' L')

/-- The block is too small and cannot grow over its successor. -/
def Moves (h : Heap) (b size : ℕ) : Prop :=
  ¬ size ≤ h.payload b ∧ ∀ n, h.next b = some n → h.status n = .free →
    ¬ size ≤ sub32 (sub32 (add32 (h.size b) (h.size n)) headerSize) footerSize

variable {size n : ℕ}

/-- A block in use is cut to the new size when the rest is worth a block. -/
theorem Held.shrink (hh : Held h L C b) (hu : h.status b = .used) (hfit : size + 56 ≤ h.size b)
    (c : Prop) [Decidable c] :
    ∃ h' L' C', (if c then (splitBlock h b size).1 else h) = h' ∧ Inv h' none L' C' ∧ b ∈ L' ∧
      h'.status b = .used ∧ FrameExcept b h L h' L' := by
  split_ifs
  · obtain ⟨L', C', hheld, -, hkeep⟩ := hh.split hfit
    have hu' := (hkeep b hh.mem).2.1.trans hu
    exact ⟨_, L', C', rfl, hheld.giveBack hu', hheld.mem, hu',
      fun c hc _ huc => ⟨(hkeep c hc).1, (hkeep c hc).2.1.trans huc⟩⟩
  · exact ⟨h, L, C, rfl, hh.giveBack hu, hh.mem, hu, .of_status fun _ _ => rfl⟩

theorem growInto_spec (hi : Inv h none L C) (hb : b ∈ L) (hu : h.status b = .used)
    (hn : h.next b = some n) (hfree : h.status n = .free)
    (hfit : size ≤ sub32 (sub32 (add32 (h.size b) (h.size n)) headerSize) footerSize) :
    ∃ h' L' C', growInto h b n size = h' ∧ Inv h' none L' C' ∧ b ∈ L' ∧ h'.status b = .used ∧
      FrameExcept b h L h' L' := by
  have hh := hi.hold_used (by simp) hb hu
  have hnL := hi.phys.next_mem hb hn
  obtain ⟨L₁, C₁, hheld, hsize, _, hkeep⟩ := hh.absorbNext hn hfree
  have hsum : size + 56 ≤ h.size b + h.size n := by
    have := (hi.phys.sound b hb).large
    unfold sub32 add32 headerSize footerSize at hfit
    omega
  unfold growInto
  generalize absorb (removeFromFreeList h n) b n = h₁ at *
  have hu₁ : h₁.status b = .used := (hkeep b hb).1.trans hu
  obtain ⟨h', L', C', he, hinv, hbL', hu', hframe⟩ := hheld.shrink hu₁ (hsize ▸ hsum)
    (64 ≤ sub32 (sub32 (sub32 (add32 (h.header b).size (h.header n).size) headerSize) footerSize)
      size)
  refine ⟨h', L', C', he, hinv, hbL', hu', FrameExcept.trans ?_ hframe⟩
  intro c hc hcb huc
  refine ⟨(hkeep c hc).2 ?_, (hkeep c hc).1.trans huc⟩
  rintro rfl
  exact absurd (hfree.symm.trans huc) (by decide)

theorem reallocBlock_of_moves (hm : Moves h b n) :
    reallocBlock pages h p b n = moveTo pages h p n (h.payload b) := by
  obtain ⟨hfit, hnext⟩ := hm
  unfold reallocBlock
  dsimp only
  rw [if_neg hfit]
  split
  · rfl
  · next c hc =>
    rw [if_neg]
    rintro ⟨hfree, hle⟩
    exact hnext c hc hfree hle

theorem reallocBlock_of_grows (pages : ℕ → Ptr) (p : ℕ) (hfit : ¬ n ≤ h.payload b)
    (hm : ¬ Moves h b n) :
    ∃ c, h.next b = some c ∧ h.status c = .free ∧
      n ≤ sub32 (sub32 (add32 (h.size b) (h.size c)) headerSize) footerSize ∧
      reallocBlock pages h p b n = some (growInto h b c n, some p) := by
  have hgrow : ∃ c, h.next b = some c ∧ h.status c = .free ∧
      n ≤ sub32 (sub32 (add32 (h.size b) (h.size c)) headerSize) footerSize := by
    by_contra hno
    apply hm
    refine ⟨hfit, ?_⟩
    intro c hc hfree hle
    exact hno ⟨c, hc, hfree, hle⟩
  obtain ⟨c, hc, hfree, hle⟩ := hgrow
  refine ⟨c, hc, hfree, hle, ?_⟩
  have hc' : (h.header b).next = some c := hc
  unfold reallocBlock
  dsimp only
  rw [if_neg hfit, hc']
  exact if_pos ⟨hfree, hle⟩

section

variable (hi : Inv h none L C) (hfr : Fresh pages h) (hb : b ∈ L) (hu : h.status b = .used)
  (hg : looksGuarded (b + 40) = false)
include hi hfr hb hu hg

theorem moveTo_spec (hpred : PredUsed h b) (hext : ExtendsUsed pages h size) (current : ℕ) :
    ∃ h' r L' C', moveTo pages h (b + 40) size current = some (h', r) ∧ Inv h' none L' C' ∧
      Resized b h L h' L' size r := by
  obtain ⟨h₁, r, L₁, C₁, he, hinv, hframe, hhanded, -⟩ := heapAlloc_spec hi hfr hext
  cases r with
  | none =>
    exact ⟨h₁, none, L₁, C₁, by simp [moveTo, he], hinv, .failed rfl hframe⟩
  | some q =>
    obtain ⟨hbL₁, hu₁, hpred₁⟩ := hframe b hb hu
    have hsame := copyBytes_sameState h₁ q (b + 40) current
    have hframe₂ := hframe.trans (Frame.of_sameState (L := L₁) hsame)
    obtain ⟨_, hu₂, hpred₂⟩ := Frame.of_sameState (L := L₁) hsame b hbL₁ hu₁
    generalize hh₂ : copyBytes h₁ q (b + 40) current = h₂ at *
    obtain ⟨h', L', C', hfree, hinv', hframe'⟩ :=
      heapFree_spec (hinv.congr hsame) hbL₁ hu₂ hg (hpred₂ (hpred₁ hpred))
    refine ⟨h', some q, L', C', by simp [moveTo, he, hh₂, hfree], hinv',
      .moved q rfl ?_ (hframe₂.except.trans hframe')⟩
    intro p hp
    have hh := hhanded p hp
    split_ifs at hh ⊢ with hsmall
    · obtain ⟨c, hc, hpc, huc, hold⟩ := hh
      have hcb : c ≠ b := by
        rintro rfl
        exact absurd ((hold hb).symm.trans hu) (by decide)
      have huc₂ : h₂.status c = .used := (hsame.status c).trans huc
      obtain ⟨hcL', huc'⟩ := hframe' c hc hcb huc₂
      exact ⟨c, hcL', hpc, huc', hold⟩
    · exact hh

theorem reallocBlock_spec (hmove : Moves h b size → PredUsed h b ∧ ExtendsUsed pages h size) :
    ∃ h' r L' C', reallocBlock pages h (b + 40) b size = some (h', r) ∧ Inv h' none L' C' ∧
      Resized b h L h' L' size r := by
  by_cases hfit : size ≤ h.payload b
  · unfold reallocBlock
    rw [if_pos hfit]
    have hsb := hi.phys.sound b hb
    have hlarge := hsb.large
    rw [hsb.payload] at hfit
    obtain ⟨h', L', C', he, hinv, hbL', hu', hframe⟩ :=
      (hi.hold_used (by simp) hb hu).shrink hu (by omega : size + 56 ≤ h.size b)
        (64 ≤ sub32 (h.payload b) size)
    exact ⟨h', _, L', C', by rw [he], hinv, .inPlace rfl hbL' hu' hframe⟩
  · by_cases hm : Moves h b size
    · obtain ⟨hpred, hext⟩ := hmove hm
      rw [reallocBlock_of_moves hm]
      exact moveTo_spec hi hfr hb hu hg hpred hext _
    · obtain ⟨n, hn, hfree, hle, hgrow⟩ := reallocBlock_of_grows pages (b + 40) hfit hm
      obtain ⟨h', L', C', he, hinv, hbL', hu', hframe⟩ := growInto_spec hi hb hu hn hfree hle
      exact ⟨h', _, L', C', by rw [hgrow, he], hinv, .inPlace rfl hbL' hu' hframe⟩

end

end Realloc

end UintOS.KernelHeap
