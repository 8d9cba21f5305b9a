import UintOS.Memory.Heap.Client

/-!
# Integrity of the kernel heap

What the lists of the heap are for. The bins list every free block once, in the
bin of its size; the physical list tiles memory the heap owns. Both hold in every
run whose calls are legal and safe, and each fails in a legal run that is not.
-/

namespace UintOS.KernelHeap

open Links List Machine Option Runs

/-- The bins `C` and the physical list `L` of a heap whose free lists are in order. -/
structure Binned (h : Heap) (L : List ℕ) (C : ℕ → List ℕ) : Prop where
  walk : Chain h.next L ∧ L.head? = some h.start
  chains : ∀ i < heapMaxBins, Chain h.nextFree (C i) ∧ h.bins i = (C i).head?
  once : ∀ b, ∑ i ∈ Finset.range heapMaxBins, (C i).count b =
    if b ∈ L ∧ h.status b = .free then 1 else 0
  place : ∀ i < heapMaxBins, ∀ b ∈ C i, getBinForSize (h.payload b) = i
  inverse : ∀ i < heapMaxBins, ∀ b ∈ C i, ∀ c,
    (h.nextFree b = some c → h.prevFree c = some b) ∧
      (h.prevFree b = some c → h.nextFree c = some b)

/-- The bins hold every free block once, in finite doubly linked lists by size. -/
def FreeListsIntact (h : Heap) : Prop := ∃ L C, Binned h L C

theorem getBinForSize_lt (size : ℕ) : getBinForSize size < heapMaxBins := by
  unfold getBinForSize heapMaxBins
  dsimp only
  split_ifs <;> omega

theorem binOf_eq (h : Heap) (b : ℕ) : h.binOf b = getBinForSize (h.payload b) := by
  have := getBinForSize_lt (h.payload b)
  unfold Heap.binOf
  rw [if_neg (by omega)]

variable {h : Heap} {L : List ℕ} {C : ℕ → List ℕ}

theorem Inv.binned (hi : Inv h none L C) : Binned h L C := by
  constructor
  · exact ⟨hi.phys.linked.chain, hi.phys.start⟩
  · exact fun i _ => ⟨(hi.lists.linked i).chain, hi.lists.head i⟩
  · intro b
    split_ifs with hb
    · obtain ⟨i, hbi⟩ := (hi.listed b).mpr hb
      have hlt : i < heapMaxBins := hi.lists.place i b hbi ▸ h.binOf_lt b
      rw [Finset.sum_eq_single i]
      · exact count_eq_one_of_mem (hi.lists.nodup i) hbi
      · intro j _ hji
        exact count_eq_zero.mpr fun hbj => hji (hi.lists.bin_unique hbj hbi)
      · intro hout
        exact absurd (Finset.mem_range.mpr hlt) hout
    · apply Finset.sum_eq_zero
      intro i _
      exact count_eq_zero.mpr fun hbi => hb ((hi.listed b).mp ⟨i, hbi⟩)
  · intro i _ b hb
    rw [← binOf_eq]
    exact hi.lists.place i b hb
  · intro i _ b hb c
    have hlink := hi.lists.linked i
    constructor
    · intro hc
      exact (hlink.next_iff_prev hb (hlink.chain.next_mem hb hc)).mp hc
    · intro hc
      exact (hlink.next_iff_prev (hlink.prev_mem hb hc) hb).mpr hc

def InRange (b n a : ℕ) : Prop := b ≤ a ∧ a < b + n

/-- The blocks `L` of a heap whose physical list tiles memory it owns. -/
structure Tiles (h : Heap) (L : List ℕ) : Prop where
  walk : Chain h.next L ∧ L.head? = some h.start
  disjoint : L.Pairwise fun b c => ∀ a, ¬ (InRange b (h.size b) a ∧ InRange c (h.size c) a)
  owned : ∀ b ∈ L, ∃ r ∈ h.regions, ∀ a, InRange b (h.size b) a → InRange r.1 r.2 a
  inverse : ∀ b ∈ L, ∀ c,
    (h.next b = some c → h.prev c = some b) ∧ (h.prev b = some c → h.next c = some b)

/-- The blocks tile owned memory, and live payloads do not overlap. -/
def Tiled (s : Client) : Prop :=
  (∃ L, Tiles s.heap L) ∧ s.live.Pairwise fun p q => ∀ a,
      ¬ (InRange p (s.heap.payload (dataToHeader p)) a ∧
        InRange q (s.heap.payload (dataToHeader q)) a)

theorem Inv.tiles (hi : Inv h none L C) : Tiles h L := by
  have hp := hi.phys
  constructor
  · exact ⟨hp.linked.chain, hp.start⟩
  · apply hp.nodup.imp_of_mem
    intro b c hb hc hne a
    have hap := hp.apart b hb c hc hne
    unfold Apart at hap
    unfold InRange
    omega
  · intro b hb
    obtain ⟨r, hr, hin⟩ := hp.owned b hb
    refine ⟨r, hr, ?_⟩
    unfold Inside at hin
    unfold InRange
    omega
  · intro b hb c
    constructor
    · intro hc
      exact (hp.linked.next_iff_prev hb (hp.next_mem hb hc)).mp hc
    · intro hc
      exact (hp.prev_mem hb hc).2

theorem ClientInv.tiled {s : Client} (hs : ClientInv s L C) : Tiled s := by
  refine ⟨⟨L, hs.inv.tiles⟩, ?_⟩
  apply hs.nodup.imp_of_mem
  intro p q hp hq hne a
  obtain ⟨b, hb, rfl, _⟩ := hs.live p hp
  obtain ⟨c, hc, rfl, _⟩ := hs.live q hq
  have hsb := hs.inv.phys.sound b hb
  have hsc := hs.inv.phys.sound c hc
  have hap := hs.inv.phys.apart b hb c hc (by omega)
  rw [hsb.dataToHeader, hsc.dataToHeader, hsb.payload, hsc.payload]
  unfold Apart at hap
  unfold InRange
  omega

/-- A heap of `size` bytes at 2 MiB, created on zeroed memory. -/
def zeroed (size : ℕ) : Client :=
  Client.create 64 (fun _ => ⟨0, 0, .free, none, none, none, none, 0⟩) (fun _ => ⟨0, 0, 0, 0⟩)
    (fun _ => 0) 0x200000 size

def noPages : ℕ → Ptr := fun _ => none
def onePage : ℕ → Ptr := fun num => if num = 1 then some 0x400000 else none

theorem fresh_noPages (h : Heap) : Fresh noPages h := by
  intro num a ha
  simp [noPages] at ha

theorem extendsUsed_noPages (h : Heap) (size : ℕ) : ExtendsUsed noPages h size :=
  fun _ _ hpages => absurd rfl hpages

theorem fresh_onePage (hr : h.regions = [(0x200040, 4032)]) : Fresh onePage h := by
  intro num a ha
  unfold onePage at ha
  split_ifs at ha with hnum
  obtain rfl : 0x400000 = a := by simpa using ha
  simp [hr, hnum, pageSize]

/-- The requested bytes lie in the payload of a block in use, or in the new page run, off the two
pages that `paging_update_flags` is called for. -/
def HasRoom (h h' : Heap) (request p : ℕ) : Prop :=
  if allocSize request < pageSize then
    h'.status (dataToHeader p) = .used ∧
      ∀ x, InRange p request x → InRange p (h'.payload (dataToHeader p)) x
  else ∃ num a low high, h'.calls = .updateFlags high pageFlagPresent ::
      .updateFlags low pageFlagPresent :: .allocate num (some a) :: h.calls ∧
    ∀ x, InRange p request x →
      InRange a (num * pageSize) x ∧ x / pageSize ≠ low / pageSize ∧ x / pageSize ≠ high / pageSize

/-- The size has not wrapped round; on the guard-page path it is a number of whole pages, 4 bytes or
more above the request. -/
def Roomy (request : ℕ) : Prop :=
  if allocSize request < pageSize then request ≤ allocSize request
  else allocSize request % pageSize = 0 ∧ request + 4 ≤ allocSize request

section Room

variable {pages : ℕ → Ptr} {request p : ℕ} {h' : Heap}

/-- The size that `heap_alloc` works with, unless it wraps round. -/
theorem allocSize_bounds (hlt : request < 4294967296) :
    allocSize request % 16 = 0 ∧ allocSize request < 4294967296 ∧
      (allocSize request = 0 ∧ 4294967280 < request ∨
        request ≤ allocSize request ∧ allocSize request < max request 16 + 16) := by
  unfold allocSize alignSize add32 heapAlign
  split_ifs <;> omega

theorem guardedAlloc_room (hfr : Fresh pages h) (hlt : request < 4294967296)
    (hlarge : ¬ allocSize request < pageSize)
    (he : guardedAlloc pages h (allocSize request) = (h', some p)) :
    HasRoom h h' request p ↔ Roomy request := by
  obtain ⟨halign, hword, hsize⟩ := allocSize_bounds hlt
  unfold HasRoom Roomy
  rw [if_neg hlarge, if_neg hlarge]
  generalize allocSize request = size at *
  unfold guardedAlloc at he
  dsimp only at he
  generalize hnum : add32 (add32 size (pageSize - 1) / pageSize) 2 = num at he
  cases hp : pages num with
  | none => simp [hp] at he
  | some a =>
    obtain ⟨hpage, hpos, hfits, -⟩ := hfr num a hp
    rw [hp] at he
    obtain ⟨rfl, hptr⟩ := Prod.mk.inj he
    obtain rfl := some.inj hptr
    unfold InRange add32 pageSize at *
    constructor
    · rintro ⟨num', a', low, high, hcalls, hroom⟩
      -- the last byte of the request is in the run, and not in the page of the second guard
      simp only [logCall, cons.injEq, PageCall.updateFlags.injEq, PageCall.allocate.injEq,
        some.injEq, and_true] at hcalls
      obtain ⟨rfl, rfl, rfl, rfl⟩ := hcalls
      have hlast := hroom (((a + 4096) % 4294967296 + 4) % 4294967296 + request - 1) (by omega)
      omega
    · rintro ⟨hwhole, hend⟩
      refine ⟨num, a, _, _, rfl, ?_⟩
      intro x hx
      omega

theorem setBack_size (h : Heap) (behind : Ptr) (b c : ℕ) :
    (setBack h behind b).size c = h.size c := by
  unfold Heap.size
  rw [setBack_header]
  split_ifs <;> rfl

theorem carve_size (h : Heap) (b r : ℕ) : (carve h b r).size b = r := by
  change (setBack _ _ (add32 b r)).size b = r
  rw [setBack_size]
  simp [Heap.size]

theorem splitBlock_size (h : Heap) (b size : ℕ) : (splitBlock h b size).1.size b =
    if Splits h b size then requiredSize size else h.size b := by
  rw [splitBlock_eq]
  split_ifs
  · dsimp only
    rw [(noteSplit_sameState _ _).sameBlocks.sameTags.size,
      (addToFreeList_sameBlocks _ _).sameTags.size, carve_size]
  · rfl

theorem absorb_size (h : Heap) (b n c : ℕ) : (absorb h b n).size c =
    if c = b then add32 (h.size b) (h.size n) else h.size c := by
  change (setBack _ _ b).size c = _
  rw [setBack_size]
  by_cases hcb : c = b <;> simp [Heap.size, hcb]

theorem absorb_prev {n : ℕ} (hn : h.next n = none) (hne : n ≠ b) :
    (absorb h b n).prev = h.prev := by
  have hnone : (h.header n).next = none := hn
  funext c
  by_cases hcb : c = b <;> simp [absorb, Heap.prev, hne, hnone, hcb]

/-- The tail of `heap_alloc` on any block that is large enough. -/
theorem takeBlock_room {size : ℕ} (hsmall : size < pageSize) (hfit : size + 56 ≤ h.size b)
    (hlt : h.size b < 4294967296) : let h' := (takeBlock h b size).1
    h'.status b = .used ∧ size + 56 ≤ h'.size b ∧ h'.size b < 4294967296 := by
  have hsize : (takeBlock h b size).1.size b =
      if Splits (removeFromFreeList h b) b size then requiredSize size else h.size b := by
    rw [takeBlock_eq, ← (removeFromFreeList_sameBlocks h b).sameTags.size b, ← splitBlock_size]
    simp [noteAlloc, Heap.size]
  refine ⟨by simp [takeBlock_eq, noteAlloc, Heap.status], ?_⟩
  unfold requiredSize add32 headerSize footerSize pageSize at *
  rw [hsize]
  split_ifs <;> omega

theorem mergePrev_room (hp : ∀ p, h.prev b = some p → p ≠ b ∧ p + 56 ≤ 4294967296 ∧
      h.size p + h.size b < 4294967296) (hb : b + 56 ≤ 4294967296) (hlt : h.size b < 4294967296) :
    let r := mergePrev h b
    h.size b ≤ r.1.size r.2 ∧ r.1.size r.2 < 4294967296 ∧ r.2 + 56 ≤ 4294967296 := by
  simp only [mergePrev]
  cases hprev : (h.header b).prev with
  | none => exact ⟨le_rfl, hlt, hb⟩
  | some p =>
    obtain ⟨hne, hpb, hsum⟩ := hp p hprev
    dsimp only
    split_ifs
    · unfold validateBlock
      split_ifs
      · dsimp only
        rw [(noteMerged_sameState _).sameBlocks.sameTags.size,
          (addToFreeList_sameBlocks _ p).sameTags.size, absorb_size, if_pos rfl,
          (removeFromFreeList_sameBlocks _ b).sameTags.size,
          (removeFromFreeList_sameBlocks h p).sameTags.size,
          (removeFromFreeList_sameBlocks _ b).sameTags.size,
          (removeFromFreeList_sameBlocks h p).sameTags.size, add32_eq hsum]
        omega
      · exact ⟨le_rfl, hlt, hb⟩
    · exact ⟨le_rfl, hlt, hb⟩

theorem heapExtend_room (hi : Inv h none L C) (hfr : Fresh pages h) {minSize : ℕ}
    (hmin : 56 ≤ minSize) (hmax : minSize ≤ 8192)
    (he : heapExtend pages h minSize = some (h', some b)) :
    minSize ≤ h'.size b ∧ h'.size b < 4294967296 ∧ b + 56 ≤ 4294967296 := by
  cases hpages : pages (extensionSize minSize / pageSize) with
  | none =>
    obtain ⟨_, he', -⟩ := heapExtend_none (h := h) hpages
    simp [he'] at he
  | some n =>
    obtain ⟨h₀, l, last, -, rfl, hn, hheld, hfree, hsize, hkeep, -, he'⟩ :=
      heapExtend_eq hi hfr hmin hmax hpages
    have hle := (extensionSize_spec hmax).2
    have hsta := (hkeep last (by simp)).1
    generalize extensionSize minSize = e at *
    have hattach := (addToFreeList_sameBlocks (append h₀ last n e) n).trans
      (attach_sameState h₀ last n e).sameBlocks
    have hp : Phys (attach (formatPages h₀ n e) last n e) (some n) (l ++ last :: [n]) :=
      hheld.phys.sameBlocks hattach
    rw [← hattach.sameTags.size] at hsize
    replace hfree := (BlockHeader.status_of_core (hattach.core n)).trans hfree
    replace hsta := (BlockHeader.status_of_core (hattach.core last)).trans hsta
    generalize attach (formatPages h₀ n e) last n e = h₂ at *
    have hsn := hp.sound n (by simp)
    have hlarge := hsn.large
    have hfits := hsn.fits
    have hpos := hsn.pos
    simp only [he] at he'
    split_ifs at he' with hmerge
    · have hsl := hp.sound last (by simp)
      have hlast : n ≠ last := by
        rintro rfl
        simp at hn
      have hnext : h₂.next last = some n := hp.linked.fields.2
      have hend : h₂.next n = none :=
        (show Phys h₂ _ ((l ++ [last]) ++ n :: []) by simpa using hp).linked.fields.2
      have hremove := (removeFromFreeList_sameBlocks h₂ n).sameTags
      generalize hh₃ : noteMerged (absorb (removeFromFreeList h₂ n) last n) = h₃ at *
      have heq : mergeBlocks h₂ last = mergePrev h₃ last := by
        rw [hmerge] at hsta
        simp only [mergeBlocks, mergeNext, hsta, show (h₂.header last).next = some n from hnext,
          hfree, hsn.validateBlock, if_true, hh₃]
      have hsizes : ∀ c, h₃.size c =
          if c = last then add32 (h₂.size last) (h₂.size n) else h₂.size c := by
        intro c
        rw [← hh₃, (noteMerged_sameState _).sameBlocks.sameTags.size, absorb_size, hremove.size,
          hremove.size, hremove.size]
      have hprev : h₃.prev last = h₂.prev last := by
        rw [← hh₃]
        exact (congrFun (absorb_prev ((hremove.next n).trans hend) hlast) last).trans
          (hremove.prev last)
      have hlastPos := hsl.pos
      have hlastFits := hsl.fits
      have hapart := hp.apart last (by simp) n (by simp) hlast.symm
      unfold Apart at hapart
      have hsum : h₃.size last = h₂.size last + h₂.size n := by
        rw [hsizes, if_pos rfl, add32_eq (by omega)]
      rw [heq] at he'
      cases he'
      have hroom := mergePrev_room (h := h₃) (b := last) ?_ (by have := hsl.large; omega) (by omega)
      · omega
      intro p hpl
      rw [hprev] at hpl
      obtain ⟨hpL, hpn⟩ := hp.prev_mem (by simp) hpl
      have hne : p ≠ last := by
        rintro rfl
        exact hlast (Option.some.inj (hnext.symm.trans hpn))
      have hne' : p ≠ n := by
        rintro rfl
        simp [hend] at hpn
      have hsp := hp.sound p hpL
      have h1 := hsp.large
      have h2 := hsp.fits
      have h3 := hsp.pos
      have h4 := hp.apart p hpL last (by simp) hne
      have h5 := hp.apart p hpL n (by simp) hne'
      unfold Apart at h4 h5
      rw [hsum, hsizes, if_neg hne]
      omega
    · cases he'
      have := hsn.size_lt
      omega

/-- A pointer from `heap_alloc` has room for the request exactly if the size has not wrapped and, on
the guard-page path, the request ends below the page of the second guard. -/
theorem alloc_has_room_iff (hi : Inv h none L C) (hfr : Fresh pages h)
    (hlt : request < 4294967296) (he : heapAlloc pages h request = some (h', some p)) :
    HasRoom h h' request p ↔ Roomy request := by
  by_cases hsmall : allocSize request < pageSize
  · obtain ⟨b, hb, rfl, hused, hle, hsize⟩ : ∃ b, b + 56 ≤ 4294967296 ∧ p = b + 40 ∧
        h'.status b = .used ∧ allocSize request + 56 ≤ h'.size b ∧ h'.size b < 4294967296 := by
      unfold heapAlloc at he
      simp only [if_neg (Nat.not_le.mpr hsmall), requiredSize_of_small hsmall] at he
      generalize allocSize request = size at *
      have htake : ∀ {h₁ b}, takeBlock h₁ b size = (h', some p) → size + 56 ≤ h₁.size b →
          h₁.size b < 4294967296 → b + 56 ≤ 4294967296 → ∃ b, b + 56 ≤ 4294967296 ∧ p = b + 40 ∧
            h'.status b = .used ∧ size + 56 ≤ h'.size b ∧ h'.size b < 4294967296 := by
        intro h₁ b ht hfit hlt hb
        have hroom := takeBlock_room hsmall hfit hlt
        rw [ht] at hroom
        have hp := congrArg Prod.snd ht
        rw [takeBlock_eq] at hp
        refine ⟨b, hb, ?_, hroom⟩
        rw [← Option.some.inj hp]
        exact add32_eq (by unfold headerSize; omega)
      obtain ⟨r, hr, hfound⟩ := findFreeBlock_spec hi size
      rw [hr] at he
      cases r with
      | some b =>
        obtain ⟨hb, -, hfit⟩ := hfound b rfl
        have hsb := hi.phys.sound b hb
        have hlarge := hsb.large
        have hfits := hsb.fits
        rw [hsb.payload] at hfit
        exact htake (Option.some.inj he) (by omega) hsb.size_lt (by omega)
      | none =>
        cases hext : heapExtend pages h (size + 56) with
        | none => simp [hext] at he
        | some r =>
          obtain ⟨h₁, _ | b⟩ := r
          · simp [hext] at he
          · simp only [hext] at he
            obtain ⟨hfit, hlt, hb⟩ := heapExtend_room hi hfr (by omega)
              (by unfold pageSize at hsmall; omega) hext
            exact htake (Option.some.inj he) hfit hlt hb
    have hpayload : h'.payload b = h'.size b - 56 := by
      unfold Heap.payload sub32 headerSize footerSize
      unfold Heap.size at *
      omega
    have hheader : dataToHeader (b + 40) = b := by
      unfold dataToHeader sub32 headerSize
      omega
    obtain ⟨-, -, hbounds⟩ := allocSize_bounds hlt
    unfold HasRoom Roomy InRange
    rw [if_pos hsmall, if_pos hsmall, hheader]
    constructor
    · rintro ⟨-, hin⟩
      have hlast := hin (b + 40 + request - 1)
      omega
    · intro hroomy
      refine ⟨hused, ?_⟩
      intro x hx
      omega
  · have hgrd : heapAlloc pages h request =
      some (guardedAlloc pages h (allocSize request)) := by
      unfold heapAlloc
      rw [if_pos (Nat.le_of_not_lt hsmall)]
    rw [hgrd] at he
    exact guardedAlloc_room hfr hlt hsmall (some.inj he)

theorem alloc_has_room_zeroed :
    ∃ h' p, heapAlloc noPages (zeroed 8192).heap 100 = some (h', some p) ∧
      HasRoom (zeroed 8192).heap h' 100 p := by
  obtain ⟨L, C, hi⟩ : ∃ L C, Inv (zeroed 8192).heap none L C :=
    heapCreate_inv 64 _ _ _ _ _ (by decide) (by decide) (by decide)
  have hrun : (heapAlloc noPages (zeroed 8192).heap 100).map Prod.snd = some (some 0x200068) := by
    decide
  obtain ⟨⟨h', r⟩, he, rfl⟩ := map_eq_some_iff.mp hrun
  exact ⟨h', 0x200068, he,
    (alloc_has_room_iff hi (fresh_noPages _) (by decide) he).mpr (by unfold Roomy; decide)⟩

/-- The last 4 bytes of a request for one page lie in the page of the second guard. -/
theorem alloc_meets_guard :
    ∃ h' p, heapAlloc (fun _ => some 0x400000) (zeroed 8192).heap 4096 = some (h', some p) ∧
      ¬ HasRoom (zeroed 8192).heap h' 4096 p := by
  refine ⟨_, _, rfl, ?_⟩
  rintro ⟨num, a, low, high, hcalls, hroom⟩
  obtain ⟨hhigh, -⟩ := PageCall.updateFlags.inj (cons.inj hcalls).1
  have hend := (hroom 0x402003 (by unfold InRange; decide)).2.2
  rw [← hhigh] at hend
  exact absurd hend (by decide)

end Room

/-- Every bin is a finite list, of the blocks with a payload for that bin. -/
structure Placed (h : Heap) (C : ℕ → List ℕ) : Prop where
  chains : ∀ i < heapMaxBins, Chain h.nextFree (C i) ∧ h.bins i = (C i).head?
  address : ∀ i < heapMaxBins, ∀ b ∈ C i, b < 4294967296
  place : ∀ i < heapMaxBins, ∀ b ∈ C i, getBinForSize (h.payload b) = i

theorem le_binLoop (fuel size bin : ℕ) : bin ≤ binLoop fuel size bin := by
  induction fuel generalizing size bin with
  | zero => exact le_rfl
  | succ fuel ih =>
    unfold binLoop
    split_ifs
    · exact (Nat.le_succ bin).trans (ih _ _)
    · exact le_rfl

theorem binLoop_mono (fuel bin : ℕ) {m n : ℕ} (hmn : m ≤ n) :
    binLoop fuel m bin ≤ binLoop fuel n bin := by
  induction fuel generalizing m n bin with
  | zero => exact le_rfl
  | succ fuel ih =>
    by_cases hm : 16 < m
    · simp only [binLoop, if_pos hm, if_pos (hm.trans_le hmn)]
      exact ih _ (Nat.div_le_div_right hmn)
    · rw [binLoop, if_neg hm]
      exact le_binLoop _ _ _

theorem getBinForSize_mono {m n : ℕ} (hmn : m ≤ n) : getBinForSize m ≤ getBinForSize n := by
  have hloop := binLoop_mono 32 0 (Nat.sub_le_sub_right hmn 1)
  unfold getBinForSize
  dsimp only
  split_ifs <;> omega

/-- `find_free_block` returns a large enough block of the bins, and `NULL` exactly if there is none.
-/
theorem findFreeBlock_complete (hC : Placed h C) (size : ℕ) : ∃ r, findFreeBlock h size = some r ∧
      (∀ b, r = some b → (∃ i < heapMaxBins, b ∈ C i) ∧ size ≤ h.payload b) ∧
      (r = none ↔ ∀ i < heapMaxBins, ∀ b ∈ C i, h.payload b < size) := by
  have hbin := getBinForSize_lt size
  obtain ⟨r, hr, hspec, hnone⟩ := findInBins_spec (C := C) size
    (List.range' (getBinForSize size) (heapMaxBins - getBinForSize size)) fun i hi => by
      have hlt : i < heapMaxBins := by simp at hi; omega
      exact ⟨(hC.chains i hlt).1, (hC.chains i hlt).2,
        length_le_walkBound (hC.chains i hlt).1.nodup (hC.address i hlt)⟩
  have hfound : ∀ b, r = some b → (∃ i < heapMaxBins, b ∈ C i) ∧ size ≤ h.payload b := by
    intro b hb
    obtain ⟨⟨i, hi, hbi⟩, hfit⟩ := hspec b hb
    exact ⟨⟨i, by simp at hi; omega, hbi⟩, hfit⟩
  refine ⟨r, hr, hfound, ?_, ?_⟩
  · intro hr i hi b hb
    by_contra hfit
    -- the block is large enough, so its bin is one of those searched
    have hle := getBinForSize_mono (Nat.le_of_not_lt hfit)
    rw [hC.place i hi b hb] at hle
    exact hfit (hnone hr i (by simp; omega) b hb)
  · intro hall
    cases r with
    | none => rfl
    | some b =>
      obtain ⟨⟨i, hi, hbi⟩, hfit⟩ := hfound b rfl
      exact absurd (hall i hi b hbi) (Nat.not_lt.mpr hfit)

theorem findFreeBlock_zeroed :
    Placed (zeroed 8192).heap (fun i => if i = 9 then [0x200040] else []) ∧
      ∃ r, findFreeBlock (zeroed 8192).heap 9000 = some r ∧
        (∀ b, r = some b → (∃ i < heapMaxBins, b ∈ if i = 9 then [0x200040] else []) ∧
          9000 ≤ (zeroed 8192).heap.payload b) ∧
        (r = none ↔ ∀ i < heapMaxBins, ∀ b ∈ if i = 9 then [0x200040] else [],
          (zeroed 8192).heap.payload b < 9000) := by
  have hC : Placed (zeroed 8192).heap (fun i => if i = 9 then [0x200040] else []) := by
    refine ⟨?_, by decide, by decide⟩
    intro i hi
    by_cases h9 : i = 9
    · subst h9
      exact ⟨⟨by decide, trivial⟩, by decide⟩
    · rw [if_neg h9]
      refine ⟨trivial, ?_⟩
      revert i
      decide
  exact ⟨hC, findFreeBlock_complete hC 9000⟩

section Runs

variable (sizeofHeap : ℕ) (header : ℕ → BlockHeader) (footer : ℕ → BlockFooter)
  (byte : ℕ → UInt8) (start size : ℕ) (hpos : 0 < sizeofHeap)
  (hroom : sizeofHeap + 71 ≤ heapMinSize) (hregion : start + max size heapMinSize ≤ 4294967296)
  (ops : List Op) (hops : Meets Client.step (fun s op => s.Legal op ∧ s.Safe op)
    (Client.create sizeofHeap header footer byte start size) ops)

include hpos hroom hregion hops in
/-- Every call of a legal and safe run returns, and the client invariant holds. -/
theorem Client.completes :
    (exec Client.step (Client.create sizeofHeap header footer byte start size) ops).isSome ∧
      Throughout Client.step (fun s => ∃ L C, ClientInv s L C)
        (Client.create sizeofHeap header footer byte start size) ops := by
  refine completes_of_meets Client.step ?_ ?_ hops
  · rintro s op ⟨L, C, hs⟩ ⟨hlegal, hsafe⟩
    obtain ⟨t, L', C', ht, hinv⟩ := Client.step_inv hs hlegal hsafe
    exact ⟨t, ht, L', C', hinv⟩
  · obtain ⟨L, C, hinv⟩ := heapCreate_inv sizeofHeap header footer byte start size hpos hroom
      hregion
    exact ⟨L, C, hinv, by simp [Client.create], by simp [Client.create], by simp [Client.create]⟩

include hpos hroom hregion hops in
/-- The free lists are intact throughout every legal run in which no block is handed back behind a
free one or through a pointer that looks guarded, and the heap is never extended behind a free
block. -/
theorem freeLists_intact :
    (exec Client.step (Client.create sizeofHeap header footer byte start size) ops).isSome ∧
      Throughout Client.step (fun s => FreeListsIntact s.heap)
        (Client.create sizeofHeap header footer byte start size) ops := by
  obtain ⟨hsome, hrun⟩ :=
    Client.completes sizeofHeap header footer byte start size hpos hroom hregion _ hops
  refine ⟨hsome, hrun.imp Client.step ?_⟩
  rintro s ⟨L, C, hs⟩
  exact ⟨L, C, hs.inv.binned⟩

theorem freeLists_intact_zeroed : (exec Client.step (zeroed 8192)
      [.alloc 16 noPages, .alloc 16 noPages, .free (some 0x2000B0)]).isSome ∧
    Throughout Client.step (fun s => FreeListsIntact s.heap) (zeroed 8192)
      [.alloc 16 noPages, .alloc 16 noPages, .free (some 0x2000B0)] := by
  refine freeLists_intact 64 _ _ _ 0x200000 8192 (by decide) (by decide) (by decide) _ ?_
  refine meets_cons _ ⟨fresh_noPages _, extendsUsed_noPages _ _⟩ (by decide) ?_
  refine meets_cons _ ⟨fresh_noPages _, extendsUsed_noPages _ _⟩ (by decide) ?_
  refine meets_cons _ ⟨?_, ?_⟩ (by decide) trivial
  · rintro p ⟨⟩
    exact .inl (by decide)
  · rintro p - ⟨⟩
    exact ⟨by decide, by decide⟩

/-- Two neighbours handed back in address order: `merge_blocks` puts the first one in its bin,
`heap_free` does so again, and the block becomes its own successor. -/
theorem freeLists_broken : Meets Client.step Client.Legal (zeroed 8192)
      [.alloc 16 noPages, .alloc 16 noPages, .free (some 0x200068), .free (some 0x2000B0)] ∧
    ¬ Throughout Client.step (fun s => FreeListsIntact s.heap) (zeroed 8192)
      [.alloc 16 noPages, .alloc 16 noPages, .free (some 0x200068), .free (some 0x2000B0)] := by
  constructor
  · refine meets_cons _ (fresh_noPages _) (by decide +kernel) ?_
    refine meets_cons _ (fresh_noPages _) (by decide +kernel) ?_
    refine meets_cons _ ?_ (by decide +kernel) ?_
    · rintro p ⟨⟩
      exact .inl (by decide +kernel)
    refine meets_cons _ ?_ (by decide +kernel) trivial
    rintro p ⟨⟩
    exact .inl (by decide +kernel)
  · intro hrun
    have hend : (exec Client.step (zeroed 8192)
        [.alloc 16 noPages, .alloc 16 noPages, .free (some 0x200068), .free (some 0x2000B0)]).map
          (fun t => (t.heap.bins 9, t.heap.nextFree 0x200040)) =
        some (some 0x200040, some 0x200040) := by decide +kernel
    obtain ⟨t, ht, hval⟩ := map_eq_some_iff.mp hend
    obtain ⟨L, C, hb⟩ := hrun.last Client.step ht
    obtain ⟨hbin, hself⟩ := Prod.mk.injEq .. ▸ hval
    obtain ⟨hchain, hhead⟩ := hb.chains 9 (by decide)
    exact hchain.next_ne_self (mem_of_head? (hhead.symm.trans hbin)) hself

include hpos hroom hregion hops in
/-- Under this condition the blocks tile memory the heap owns and live payloads do not overlap. -/
theorem heap_tiled :
    (exec Client.step (Client.create sizeofHeap header footer byte start size) ops).isSome ∧
      Throughout Client.step Tiled
        (Client.create sizeofHeap header footer byte start size) ops := by
  obtain ⟨hsome, hrun⟩ :=
    Client.completes sizeofHeap header footer byte start size hpos hroom hregion _ hops
  refine ⟨hsome, hrun.imp Client.step ?_⟩
  rintro s ⟨L, C, hs⟩
  exact hs.tiled

theorem heap_tiled_zeroed :
    (exec Client.step (zeroed 4096) [.alloc 3968 noPages, .alloc 16 onePage]).isSome ∧
    Throughout Client.step Tiled (zeroed 4096) [.alloc 3968 noPages, .alloc 16 onePage] := by
  refine heap_tiled 64 _ _ _ 0x200000 4096 (by decide) (by decide) (by decide) _ ?_
  refine meets_cons _ ⟨fresh_noPages _, extendsUsed_noPages _ _⟩ (by decide) ?_
  refine meets_cons _ ⟨fresh_onePage (by decide), ?_⟩ (by decide) trivial
  show ExtendsUsed onePage _ 16
  decide

/-- An extension behind a free block: `merge_blocks` takes the new page for the memory behind the
block, and the allocation runs over the end of the first region. -/
theorem heap_overruns : Meets Client.step Client.Legal (zeroed 4096) [.alloc 4000 onePage] ∧
    ¬ Throughout Client.step Tiled (zeroed 4096) [.alloc 4000 onePage] := by
  constructor
  · exact meets_cons _ (fresh_onePage (by decide)) (by decide) trivial
  · intro hrun
    have hend : (exec Client.step (zeroed 4096) [.alloc 4000 onePage]).map
        (fun t => (t.heap.start, t.heap.size 0x200040, t.heap.regions)) =
        some (0x200040, 4056, [(0x400000, 4096), (0x200040, 4032)]) := by decide
    obtain ⟨t, ht, hval⟩ := map_eq_some_iff.mp hend
    obtain ⟨⟨L, hL⟩, _⟩ := hrun.last Client.step ht
    simp only [Prod.mk.injEq] at hval
    obtain ⟨hstart, hsize, hregions⟩ := hval
    have hmem : 0x200040 ∈ L := mem_of_head? (hL.walk.2.trans (by rw [hstart]))
    obtain ⟨r, hr, hin⟩ := hL.owned _ hmem
    have hlast := hin 0x201000 (by simp [InRange, hsize])
    rw [hregions] at hr
    simp only [mem_cons, not_mem_nil, or_false] at hr
    rcases hr with rfl | rfl <;> simp [InRange] at hlast

end Runs

end UintOS.KernelHeap
