import UintOS.Memory.Heap.Operations

/-!
# What an operation adds to the free bytes

`freeTotal h L` is the sum of the sizes of the free blocks of the physical list `L`. An `Edit` of
the list says by how much it changes this sum, and that the blocks in use, except for at most one,
keep their sizes. Beside each edit stands what the code does to `heap_stats`.
-/

namespace UintOS.KernelHeap

open Links List Machine

def Heap.freeSize (h : Heap) (b : ℕ) : ℕ := if h.status b = .free then h.size b else 0

def freeTotal (h : Heap) (L : List ℕ) : ℕ := (L.map h.freeSize).sum

variable {h h' : Heap} {L : List ℕ} {b : ℕ}

theorem freeTotal_congr (hsame : ∀ b ∈ L, h'.freeSize b = h.freeSize b) :
    freeTotal h' L = freeTotal h L := by
  rw [freeTotal, freeTotal, map_congr_left hsame]

theorem freeTotal_nil (h : Heap) : freeTotal h [] = 0 := rfl

theorem freeTotal_append (h : Heap) (l₁ l₂ : List ℕ) :
    freeTotal h (l₁ ++ l₂) = freeTotal h l₁ + freeTotal h l₂ := by
  simp [freeTotal]

theorem freeTotal_cons (h : Heap) (b : ℕ) (l : List ℕ) :
    freeTotal h (b :: l) = h.freeSize b + freeTotal h l := by
  simp [freeTotal]

theorem freeSize_of_free (hfree : h.status b = .free) : h.freeSize b = h.size b :=
  if_pos hfree

theorem freeSize_of_used (hu : h.status b = .used) : h.freeSize b = 0 := by
  simp [Heap.freeSize, hu]

/-- The list is walked from `heap->start`. -/
def Walk (h : Heap) (L : List ℕ) : Prop := Chain h.next L ∧ L.head? = some h.start

theorem Walk.unique {L' : List ℕ} (hL : Walk h L) (hL' : Walk h L') : L = L' :=
  hL.1.unique hL'.1 (hL.2.trans hL'.2.symm)

theorem Phys.walk {t : Ptr} (hp : Phys h t L) : Walk h L :=
  ⟨hp.linked.chain, hp.start⟩

theorem Walk.congr (hw : Walk h L) (hnext : ∀ c, h'.next c = h.next c)
    (hstart : h'.start = h.start) : Walk h' L :=
  ⟨hw.1.congr fun c _ => hnext c, hw.2.trans (by rw [hstart])⟩

theorem Walk.sameBlocks (hw : Walk h L) (hs : SameBlocks h h') :
    Walk h' L := hw.congr hs.sameTags.next hs.start

/-- The free bytes change by `δ`; the blocks in use except `x` keep their sizes. -/
structure Edit (x : Ptr) (h : Heap) (L : List ℕ) (h' : Heap) (L' : List ℕ)
    (δ : ℤ) : Prop where
  free : (freeTotal h' L' : ℤ) = freeTotal h L + δ
  frame : ∀ c ∈ L, x ≠ some c → h.status c = .used →
    c ∈ L' ∧ h'.status c = .used ∧ h'.size c = h.size c

namespace Edit

variable {x : Ptr} {h h' h'' : Heap} {L L' L'' : List ℕ} {δ ε : ℤ}

theorem trans (h₁ : Edit x h L h' L' δ) (h₂ : Edit x h' L' h'' L'' ε) :
    Edit x h L h'' L'' (δ + ε) where
  free := by rw [h₂.free, h₁.free, add_assoc]
  frame c hc hx hu := by
    obtain ⟨hc', hu', hs'⟩ := h₁.frame c hc hx hu
    obtain ⟨hc'', hu'', hs''⟩ := h₂.frame c hc' hx hu'
    exact ⟨hc'', hu'', hs''.trans hs'⟩

/-- An edit of a block not in use leaves all blocks in use alone. -/
theorem strengthen (hE : Edit (some b) h L h' L' δ)
    (hb : b ∈ L → h.status b = .free) : Edit none h L h' L' δ where
  free := hE.free
  frame c hc _ hu := by
    apply hE.frame c hc _ hu
    rintro ⟨⟩
    rw [hb hc] at hu
    cases hu

theorem of_same (hsta : ∀ c ∈ L, h'.status c = h.status c)
    (hsize : ∀ c ∈ L, h'.size c = h.size c) : Edit x h L h' L 0 where
  free := by
    rw [freeTotal_congr (h := h), add_zero]
    intro c hc
    rw [Heap.freeSize, hsta c hc, hsize c hc, Heap.freeSize]
  frame c hc _ hu := ⟨hc, (hsta c hc).trans hu, hsize c hc⟩

theorem of_sameBlocks (hs : SameBlocks h h') : Edit x h L h' L 0 :=
  of_same (fun c _ => BlockHeader.status_of_core (hs.core c)) fun c _ => hs.sameTags.size c

end Edit

theorem freeTotal_replace {h g : Heap} {l₁ l₂ : List ℕ} (hnodup : (l₁ ++ b :: l₂).Nodup)
    (hsame : ∀ c ∈ l₁ ++ b :: l₂, c ≠ b → g.freeSize c = h.freeSize c) (M : List ℕ) :
    (freeTotal g (l₁ ++ M ++ l₂) : ℤ) =
      freeTotal h (l₁ ++ b :: l₂) + (freeTotal g M - h.freeSize b) := by
  obtain ⟨-, hnd₂, hdis⟩ := nodup_append.mp hnodup
  have h₁ : freeTotal g l₁ = freeTotal h l₁ :=
    freeTotal_congr fun c hc => hsame c (by simp [hc]) (hdis c hc b (by simp))
  have h₂ : freeTotal g l₂ = freeTotal h l₂ := by
    apply freeTotal_congr
    intro c hc
    apply hsame c (by simp [hc])
    rintro rfl
    exact (nodup_cons.mp hnd₂).1 hc
  rw [freeTotal_append, freeTotal_append, h₁, h₂, freeTotal_append, freeTotal_cons]
  push_cast
  ring

section Edits

variable {h : Heap} {t : Ptr} {L : List ℕ} {b : ℕ}

variable {h' : Heap} {l₁ l₂ : List ℕ} {n size : ℕ}

theorem setStatus_edit (hp : Phys h t L) (hb : b ∈ L) (s : Status)
    (he : h' = h.modify b fun c => { c with status := s }) :
    Walk h' L ∧ Edit (some b) h L h' L ((h'.freeSize b : ℤ) - h.freeSize b) ∧
      h'.status b = s ∧ h'.size b = h.size b := by
  subst he
  have hsize : ∀ c, (h.modify b fun c => { c with status := s }).size c = h.size c := by
    intro c
    by_cases hcb : c = b <;> simp [Heap.size, hcb]
  have hsta : ∀ c, c ≠ b →
    (h.modify b fun c => { c with status := s }).status c = h.status c := by
    intro c hcb
    simp [Heap.status, hcb]
  refine ⟨hp.walk.congr ?_ rfl, ⟨?_, ?_⟩, by simp [Heap.status], hsize b⟩
  · intro c
    by_cases hcb : c = b <;> simp [Heap.next, hcb]
  · obtain ⟨l₁, l₂, rfl⟩ := append_of_mem hb
    have hsum := freeTotal_replace (h := h) hp.nodup
      (g := h.modify b fun c => { c with status := s })
      (fun c _ hcb => by rw [Heap.freeSize, hsta c hcb, hsize c, Heap.freeSize]) [b]
    simpa [freeTotal_cons, freeTotal_nil] using hsum
  · intro c hc hcb hu
    have hne : c ≠ b := fun e => hcb (by rw [e])
    exact ⟨hc, (hsta c hne).trans hu, hsize c⟩

@[simp] theorem removeFromFreeList_stats (h : Heap) (b : ℕ) :
    (removeFromFreeList h b).stats = h.stats := by
  unfold removeFromFreeList
  dsimp only
  split <;> split <;> rfl

@[simp] theorem addToFreeList_stats (h : Heap) (b : ℕ) : (addToFreeList h b).stats = h.stats := by
  unfold addToFreeList
  dsimp only
  split <;> rfl

@[simp] theorem carve_stats (h : Heap) (b r : ℕ) : (carve h b r).stats = h.stats := by
  unfold carve
  dsimp only
  split <;> rfl

@[simp] theorem absorb_stats (h : Heap) (b n : ℕ) : (absorb h b n).stats = h.stats := by
  unfold absorb
  dsimp only
  split <;> rfl

theorem splitBlock_stats (h : Heap) (b size : ℕ) :
    (splitBlock h b size).1.stats = if Splits h b size then
      { h.stats with freeBytes := sub32 h.stats.freeBytes (requiredSize size) } else h.stats := by
  rw [splitBlock_eq]
  split_ifs
  · simp [noteSplit]
  · rfl

theorem Carved.edit {r : ℕ} (hc : Carved h h' b n r) (hp : Phys h t (l₁ ++ b :: l₂))
    (hn : n ∉ l₁ ++ b :: l₂) (hr : r ≤ h.size b) :
    Edit (some b) h (l₁ ++ b :: l₂) h' (l₁ ++ b :: n :: l₂)
      (if h.status b = .used then (h.size b : ℤ) - r else 0) := by
  have hsta : ∀ c ∈ l₁ ++ b :: l₂, h'.status c = h.status c := fun c hcL =>
    hc.status fun e => hn (e ▸ hcL)
  have hsize : ∀ c ∈ l₁ ++ b :: l₂, c ≠ b → h'.size c = h.size c := fun c hcL hcb =>
    (hc.other_fields hcb fun e => hn (e ▸ hcL)).1
  have hst' := hsta b (by simp)
  constructor
  · have hsum := freeTotal_replace (h := h) (g := h') hp.nodup (fun c hcL hcb => by
        rw [Heap.freeSize, hsta c hcL, hsize c hcL hcb, Heap.freeSize]) [b, n]
    have hfree : h'.freeSize n = h.size b - r := by
      rw [freeSize_of_free (by simp [Heap.status, hc.fresh]), hc.size_fresh]
    simp only [append_assoc, cons_append, nil_append, freeTotal_cons, freeTotal_nil, hfree] at hsum
    rw [hsum]
    cases hst : h.status b with
    | free =>
      rw [if_neg (by simp), freeSize_of_free hst, freeSize_of_free (hst'.trans hst), hc.size_cut]
      omega
    | used =>
      rw [if_pos rfl, freeSize_of_used hst, freeSize_of_used (hst'.trans hst)]
      omega
  · intro c hcL hcb hu
    refine ⟨?_, (hsta c hcL).trans hu, hsize c hcL fun e => hcb (by rw [e])⟩
    simp only [mem_append, mem_cons] at hcL ⊢
    tauto

theorem splitBlock_edit (hp : Phys h t L) (hb : b ∈ L) (hfit : size + 56 ≤ h.size b) :
    ∃ L', Phys (splitBlock h b size).1 t L' ∧ b ∈ L' ∧ Edit (some b) h L (splitBlock h b size).1 L'
        (if Splits h b size ∧ h.status b = .used then (h.size b : ℤ) - (size + 56) else 0) ∧
      (splitBlock h b size).1.status b = h.status b ∧
      (splitBlock h b size).1.size b = if Splits h b size then size + 56 else h.size b := by
  by_cases hroom : Splits h b size
  · obtain ⟨l₁, l₂, rfl⟩ := append_of_mem hb
    obtain ⟨n, h₁, hnL, hcarve, -, hsame, hphys⟩ := splitBlock_carved hp hfit hroom
    rw [if_pos hroom]
    generalize (splitBlock h b size).1 = h₂ at hsame hphys ⊢
    have hsta : h₂.status b = h₁.status b := BlockHeader.status_of_core (hsame.core b)
    refine ⟨l₁ ++ b :: n :: l₂, hphys, by simp, ?_,
      hsta.trans (hcarve.status fun e => hnL (e ▸ hb)), ?_⟩
    · have hedit := (hcarve.edit hp hnL (by omega)).trans (Edit.of_sameBlocks hsame)
      simpa [hroom] using hedit
    · rw [hsame.sameTags.size, hcarve.size_cut]
  · rw [splitBlock_eq, if_neg hroom, if_neg (fun hc => hroom hc.1), if_neg hroom]
    exact ⟨L, hp, hb, Edit.of_same (fun _ _ => rfl) (fun _ _ => rfl), rfl, rfl⟩

theorem Absorbed.edit (hc : Absorbed h h' b n) (hp' : Phys h' t (l₁ ++ b :: l₂))
    (hfree : h.status n = .free) :
    Edit (some b) h (l₁ ++ b :: n :: l₂) h' (l₁ ++ b :: l₂)
      (if h.status b = .used then -(h.size n : ℤ) else 0) := by
  constructor
  · have hsum := freeTotal_replace (h := h') (g := h) hp'.nodup (fun c _ hcb => by
        rw [Heap.freeSize, ← hc.status, ← (hc.other_fields hcb).1, Heap.freeSize]) [b, n]
    simp only [append_assoc, cons_append, nil_append, freeTotal_cons, freeTotal_nil,
      freeSize_of_free hfree] at hsum
    rw [hsum]
    cases hst : h.status b with
    | free =>
      rw [if_neg (by simp), freeSize_of_free hst, freeSize_of_free ((hc.status b).trans hst),
        hc.size_grown]
      omega
    | used =>
      rw [if_pos rfl, freeSize_of_used hst, freeSize_of_used ((hc.status b).trans hst)]
      omega
  · intro c hcL hcb hu
    have hcn : c ≠ n := by
      rintro rfl
      rw [hfree] at hu
      cases hu
    refine ⟨?_, (hc.status c).trans hu, (hc.other_fields fun e => hcb (by rw [e])).1⟩
    simp only [mem_append, mem_cons] at hcL ⊢
    tauto

theorem absorb_edit (hp : Phys h t L) (hb : b ∈ L) (hn : h.next b = some n)
    (hfree : h.status n = .free) (ht : t ≠ some n) :
    ∃ L', Phys (absorb (removeFromFreeList h n) b n) t L' ∧ b ∈ L' ∧
      Edit (some b) h L (absorb (removeFromFreeList h n) b n) L'
        (if h.status b = .used then -(h.size n : ℤ) else 0) ∧
      (absorb (removeFromFreeList h n) b n).status b = h.status b ∧
      (absorb (removeFromFreeList h n) b n).size b = h.size b + h.size n := by
  obtain ⟨l₁, l₂, rfl⟩ := hp.split_next hb hn
  obtain ⟨habs, hp₂, hsta⟩ := absorb_absorbed hp hfree ht
  have hsame := removeFromFreeList_sameBlocks h n
  have hedit₁ : Edit (some b) h (l₁ ++ b :: n :: l₂) (removeFromFreeList h n)
      (l₁ ++ b :: n :: l₂) 0 := Edit.of_sameBlocks hsame
  have hsize₁ := hsame.sameTags.size
  have hstatus₁ := removeFromFreeList_status h n
  refine ⟨l₁ ++ b :: l₂, hp₂, by simp, ?_, hsta b, by rw [habs.size_grown, hsize₁, hsize₁]⟩
  have hedit := hedit₁.trans (habs.edit hp₂ ((hstatus₁ n).trans hfree))
  simpa only [zero_add, hstatus₁, hsize₁] using hedit

end Edits

/-- The counters `free_bytes`, `allocated_bytes` and `current_allocations`. -/
def Heap.counters (h : Heap) : ℕ × ℕ × ℕ :=
  (h.stats.freeBytes, h.stats.allocatedBytes, h.stats.currentAllocations)

variable {h : Heap}

theorem counters_congr {h' : Heap} (hs : h'.stats = h.stats) : h'.counters = h.counters := by
  rw [Heap.counters, Heap.counters, hs]

theorem noteExtremes_counters (s : HeapStats) (size : ℕ) :
    (noteExtremes s size).freeBytes = s.freeBytes ∧
      (noteExtremes s size).allocatedBytes = s.allocatedBytes ∧
      (noteExtremes s size).currentAllocations = s.currentAllocations := by
  unfold noteExtremes
  dsimp only
  split_ifs <;> exact ⟨rfl, rfl, rfl⟩

theorem splitBlock_counters (b size : ℕ) {f a k : ℕ} (hc : h.counters = (f, a, k)) :
    (splitBlock h b size).1.counters =
      (if Splits h b size then sub32 f (requiredSize size) else f, a, k) := by
  cases hc
  rw [Heap.counters, splitBlock_stats]
  split_ifs <;> rfl

theorem noteAlloc_counters (b size : ℕ) {f a k : ℕ} (hc : h.counters = (f, a, k)) :
    (noteAlloc h b size).counters = (sub32 f (h.size b), add32 a (h.payload b), add32 k 1) := by
  cases hc
  obtain ⟨hf, ha, hk⟩ := noteExtremes_counters { h.stats with
    totalAllocations := add32 h.stats.totalAllocations 1
    currentAllocations := add32 h.stats.currentAllocations 1
    allocatedBytes := add32 h.stats.allocatedBytes (h.payload b)
    freeBytes := sub32 h.stats.freeBytes (h.header b).size } size
  rw [noteAlloc, Heap.counters]
  rw [hf, ha, hk]
  rfl

theorem payload_of_size (hlarge : 56 ≤ h.size b) (hlt : h.size b < 4294967296) :
    h.payload b = h.size b - 56 := by
  unfold Heap.payload sub32 headerSize footerSize
  unfold Heap.size at *
  omega

section Operations

variable {h : Heap} {t : Ptr} {L : List ℕ} {C : ℕ → List ℕ} {b f a k : ℕ}

variable {size n : ℕ} {h' : Heap}

/-- `heap_alloc` on a free block that is large enough. The bytes of a block that is split are
taken from `free_bytes` twice. -/
theorem takeBlock_edit (hi : Inv h t L C) (hb : b ∈ L) (hfree : h.status b = .free)
    (hfit : size ≤ h.payload b) (he : (takeBlock h b size).1 = h') (hc : h.counters = (f, a, k)) :
    ∃ L', Walk h' L' ∧ b ∈ L' ∧ Edit none h L h' L' (-(h'.size b : ℤ)) ∧ h'.status b = .used ∧
      56 ≤ h'.size b ∧ h'.size b < 4294967296 ∧ size ≤ h'.size b - 56 ∧
      h'.counters =
        (sub32 (if Splits h b size then sub32 f (size + 56) else f) (h'.size b),
          add32 a (h'.size b - 56), add32 k 1) := by
  have hsb := hi.phys.sound b hb
  have hlarge := hsb.large
  rw [hsb.payload] at hfit
  have hsame := removeFromFreeList_sameBlocks h b
  have hsize₁ := hsame.sameTags.size b
  have hst₁ := removeFromFreeList_status h b b
  have hp₁ := hi.phys.sameBlocks hsame
  have hc₁ : (removeFromFreeList h b).counters = (f, a, k) :=
    (counters_congr (removeFromFreeList_stats h b)).trans hc
  have hsplits : Splits (removeFromFreeList h b) b size ↔ Splits h b size := by
    rw [Splits, Splits, hsize₁]
  have hedit₁ : Edit (some b) h L (removeFromFreeList h b) L 0 := Edit.of_sameBlocks hsame
  rw [takeBlock_eq] at he
  generalize removeFromFreeList h b = h₁ at *
  have hc₂ := splitBlock_counters b size hc₁
  have hreq := requiredSize_eq (hp₁.sound b hb) (by omega : size + 56 ≤ h₁.size b)
  obtain ⟨L₂, hp₂, hb₂, hedit₂, hst₂, hsize₂⟩ :=
    splitBlock_edit hp₁ hb (by omega : size + 56 ≤ h₁.size b)
  rw [hreq] at hc₂
  generalize (splitBlock h₁ b size).1 = h₂ at *
  have hlarge₂ := (hp₂.sound b hb₂).large
  have hlt₂ := (hp₂.sound b hb₂).size_lt
  obtain ⟨hwalk₃, hedit₃, hst₃, hsize₃⟩ := setStatus_edit hp₂ hb₂ .used rfl
  have hc₃ : (h₂.modify b fun c => { c with status := .used }).counters = _ := hc₂
  generalize (h₂.modify b fun c => { c with status := .used }) = h₃ at *
  have hsame' := (noteAlloc_sameState h₃ b size).sameBlocks
  have hst' := (noteAlloc_sameState h₃ b size).status b
  have hc' := noteAlloc_counters b size hc₃
  have hsize' := hsame'.sameTags.size b
  rw [payload_of_size (by omega) (by omega)] at hc'
  generalize noteAlloc h₃ b size = h₄ at *
  dsimp only at he
  subst he
  have hused : ¬ (Splits h₁ b size ∧ h₁.status b = .used) := by simp [hst₁, hfree]
  rw [if_neg hused] at hedit₂
  rw [freeSize_of_used hst₃, freeSize_of_free (hst₂.trans (hst₁.trans hfree))] at hedit₃
  have hedit := ((hedit₁.trans hedit₂).trans hedit₃).trans (Edit.of_sameBlocks hsame')
  have hroom : size + 56 ≤ h₂.size b := by
    rw [hsize₂]
    split_ifs <;> omega
  refine ⟨L₂, hwalk₃.sameBlocks hsame', hb₂, ?_, hst'.trans hst₃, by omega, by omega, by omega, ?_⟩
  · have hδ : (0 + 0 + (((0 : ℕ) : ℤ) - h₂.size b) + 0) = -(h₄.size b : ℤ) := by
      rw [hsize', hsize₃]
      ring
    rw [hδ] at hedit
    exact hedit.strengthen fun _ => hfree
  · rw [hc', hsize', if_congr hsplits rfl rfl]

theorem attach_counters {last e : ℕ} (hc : h.counters = (f, a, k)) :
    (attach (formatPages h n e) last n e).counters = (add32 f e, a, k) := by
  cases hc
  simp [attach, noteExtension, Heap.counters, formatPages, Heap.modify, Heap.writeFooter]

theorem heapExtend_edit (hi : Inv h none L C) {pages : ℕ → Ptr} (hfr : Fresh pages h)
    {minSize : ℕ} (hmin : 56 ≤ minSize) (hmax : minSize ≤ 8192)
    (hpages : pages (extensionSize minSize / pageSize) = some n)
    (hlast : ∀ last, lastBlock h = some last → h.status last = .used) (hc : h.counters = (f, a, k))
    (he : heapExtend pages h minSize = some (h', some n)) :
    ∃ L', Walk h' L' ∧ Edit none h L h' L' (extensionSize minSize) ∧
      h'.counters = (add32 f (extensionSize minSize), a, k) := by
  obtain ⟨h₀, l, last, hh₀, rfl, hn, hheld, hfree, hsize, hkeep, hlast', he'⟩ :=
    heapExtend_eq hi hfr hmin hmax hpages
  simp only [he, hlast last hlast', reduceCtorEq, if_false] at he'
  obtain rfl : h' = attach (formatPages h₀ n (extensionSize minSize)) last n
      (extensionSize minSize) := congrArg Prod.fst (Option.some.inj he')
  have hc₀ : h₀.counters = (f, a, k) := by
    rw [hh₀, ← hc]
    rfl
  generalize extensionSize minSize = e at *
  have hsame := (addToFreeList_sameBlocks (append h₀ last n e) n).trans
    (attach_sameState h₀ last n e).sameBlocks
  refine ⟨l ++ [last, n], hheld.phys.walk.sameBlocks hsame, ?_, attach_counters hc₀⟩
  have hedit : Edit none h (l ++ [last]) (append h₀ last n e) (l ++ [last, n]) e := by
    constructor
    · have hold : freeTotal (append h₀ last n e) (l ++ [last]) = freeTotal h (l ++ [last]) := by
        apply freeTotal_congr
        intro c hc
        rw [Heap.freeSize, (hkeep c hc).1, (hkeep c hc).2.2, Heap.freeSize]
      rw [show l ++ [last, n] = (l ++ [last]) ++ [n] by simp, freeTotal_append, hold,
        freeTotal_cons, freeTotal_nil, freeSize_of_free hfree, hsize]
      push_cast
      ring
    · intro c hc _ hu
      refine ⟨?_, (hkeep c hc).1.trans hu, (hkeep c hc).2.2⟩
      simp only [mem_append, mem_cons] at hc ⊢
      tauto
  simpa using hedit.trans (Edit.of_sameBlocks hsame)

theorem noteFree_counters (hc : h.counters = (f, a, k)) : (noteFree h b).counters =
      (add32 f (h.size b), sub32 a (h.payload b), sub32 k 1) := by
  cases hc
  rfl

theorem mergeNext_edit (hp : Phys h (some b) L) (hb : b ∈ L) (hfree : h.status b = .free)
    (he : (mergeNext h b).1 = h') :
    ∃ L', Walk h' L' ∧ Edit (some b) h L h' L' 0 ∧ h'.counters = h.counters := by
  unfold mergeNext at he
  cases hn : (h.header b).next with
  | none =>
    rw [hn] at he
    subst he
    exact ⟨L, hp.walk, Edit.of_same (fun _ _ => rfl) fun _ _ => rfl, rfl⟩
  | some n =>
    rw [hn] at he
    dsimp only at he
    by_cases hn' : (h.header n).status = .free
    · have hnL := hp.next_mem hb hn
      have hne : (some b : Ptr) ≠ some n := by
        intro e
        cases e
        exact hp.linked.chain.next_ne_self hb hn
      rw [if_pos hn', (hp.sound n hnL).validateBlock] at he
      obtain ⟨L', hp', -, hedit, -, -⟩ := absorb_edit hp hb hn hn' hne
      rw [if_neg (by simp [hfree])] at hedit
      have hsame := noteMerged_sameState (absorb (removeFromFreeList h n) b n)
      have hc : (noteMerged (absorb (removeFromFreeList h n) b n)).counters = h.counters := by
        simp [noteMerged, Heap.counters]
      dsimp only at he
      rw [he] at hsame hc
      refine ⟨L', hp'.walk.sameBlocks hsame.sameBlocks, ?_, hc⟩
      simpa using hedit.trans (Edit.of_sameBlocks hsame.sameBlocks)
    · rw [if_neg hn'] at he
      subst he
      exact ⟨L, hp.walk, Edit.of_same (fun _ _ => rfl) fun _ _ => rfl, rfl⟩

/-- `heap_free` on a block in use that does not follow a free block. -/
theorem releaseBlock_edit (hi : Inv h none L C) (hb : b ∈ L) (hu : h.status b = .used)
    (hpred : PredUsed h b) (hc : h.counters = (f, a, k)) (he : releaseBlock h b = h') :
    ∃ L', Walk h' L' ∧ Edit (some b) h L h' L' (h.size b) ∧
      h'.counters = (add32 f (h.size b), sub32 a (h.size b - 56), sub32 k 1) := by
  have hsb := hi.phys.sound b hb
  obtain ⟨hheld, hfree₁, hstatus₁, -⟩ := noteFree_held hi hb hu rfl
  obtain ⟨-, hedit, hst, hsize⟩ := setStatus_edit hi.phys hb .free rfl
  rw [releaseBlock_eq hi hb hu hpred rfl] at he
  have hc₁ : (h.modify b fun c => { c with status := .free }).counters = (f, a, k) := hc
  generalize (h.modify b fun c => { c with status := .free }) = h₁ at *
  have hsame₂ := (noteFree_sameState h₁ b).sameBlocks
  have hc₂ := noteFree_counters (b := b) hc₁
  rw [payload_of_size (by rw [hsize]; exact hsb.large) (by rw [hsize]; exact hsb.size_lt), hsize]
    at hc₂
  generalize noteFree h₁ b = h₂ at *
  obtain ⟨L', hwalk, hedit₃, hc₃⟩ := mergeNext_edit hheld.phys hb hfree₁ rfl
  generalize (mergeNext h₂ b).1 = h₃ at *
  subst he
  have hsame := addToFreeList_sameBlocks h₃ b
  refine ⟨L', hwalk.sameBlocks hsame, ?_, ?_⟩
  · have hall := ((hedit.trans (Edit.of_sameBlocks hsame₂)).trans hedit₃).trans
      (Edit.of_sameBlocks hsame)
    rw [freeSize_of_free hst, freeSize_of_used hu, hsize] at hall
    simpa using hall
  · rw [counters_congr (addToFreeList_stats h₃ b), hc₃, hc₂]

/-- A block in use is cut: its rest becomes free, and `free_bytes` loses what is kept. -/
theorem splitBlock_drifts (hp : Phys h t L) (hb : b ∈ L) (hu : h.status b = .used)
    (hsplits : Splits h b size) (hfit : size + 56 ≤ h.size b) (hc : h.counters = (f, a, k)) :
    ∃ L', Walk (splitBlock h b size).1 L' ∧
      Edit (some b) h L (splitBlock h b size).1 L' ((h.size b : ℤ) - (size + 56)) ∧
      (splitBlock h b size).1.counters = (sub32 f (size + 56), a, k) := by
  obtain ⟨L', hp', -, hedit, -, -⟩ := splitBlock_edit hp hb hfit
  rw [if_pos ⟨hsplits, hu⟩] at hedit
  have hc' := splitBlock_counters b size hc
  rw [if_pos hsplits, requiredSize_eq (hp.sound b hb) hfit] at hc'
  exact ⟨L', hp'.walk, hedit, hc'⟩

/-- A block in use that grows over its free successor: `free_bytes` does not follow. -/
theorem growInto_drifts (hi : Inv h none L C) (hb : b ∈ L) (hu : h.status b = .used)
    (hn : h.next b = some n) (hfree : h.status n = .free)
    (hfit : size ≤ sub32 (sub32 (add32 (h.size b) (h.size n)) headerSize) footerSize)
    (hf : f < 4294967296) (hc : h.counters = (f, a, k)) :
    ∃ L' δ f', Walk (growInto h b n size) L' ∧ Edit (some b) h L (growInto h b n size) L' δ ∧
      (growInto h b n size).counters = (f', a, k) ∧
      ¬ (f' : ℤ) % 4294967296 = (f + δ) % 4294967296 := by
  have hsb := hi.phys.sound b hb
  have hsn := hi.phys.sound n (hi.phys.next_mem hb hn)
  obtain ⟨L₁, hp₁, hb₁, hedit₁, hst₁, hsize₁⟩ := absorb_edit hi.phys hb hn hfree (by simp)
  rw [if_pos hu] at hedit₁
  have hc₁ : (absorb (removeFromFreeList h n) b n).counters = (f, a, k) := by
    rw [← hc]
    exact counters_congr (by simp)
  have hsound₁ := hp₁.sound b hb₁
  unfold growInto
  dsimp only
  generalize absorb (removeFromFreeList h n) b n = h₁ at *
  have hsum : size + 56 ≤ h₁.size b := by
    have := hsb.large
    unfold sub32 add32 headerSize footerSize at hfit
    omega
  have hlarge := hsb.large
  have hlarge' := hsn.large
  have hlt := hsb.size_lt
  have hlt' := hsn.size_lt
  split_ifs
  · by_cases hsplits : Splits h₁ b size
    · obtain ⟨L', hwalk, hedit₂, hc₂⟩ :=
        splitBlock_drifts hp₁ hb₁ (hst₁.trans hu) hsplits hsum hc₁
      refine ⟨L', _, _, hwalk, hedit₁.trans hedit₂, hc₂, ?_⟩
      unfold sub32
      omega
    · rw [splitBlock_eq, if_neg hsplits]
      exact ⟨L₁, _, _, hp₁.walk, hedit₁, hc₁, by omega⟩
  · exact ⟨L₁, _, _, hp₁.walk, hedit₁, hc₁, by omega⟩

end Operations

end UintOS.KernelHeap
