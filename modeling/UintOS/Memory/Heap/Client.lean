import UintOS.Memory.Heap.Operations

/-!
# Runs of the kernel heap

A client calls `heap_alloc`, `heap_free` and `heap_realloc` and keeps the pointers it has not handed
back, those of blocks apart from those of the guard-page path. `Legal` says what every client and
every page allocator does: pointers handed back are live, page runs are fresh. `Safe` says when the
allocator keeps its lists in order.
-/

namespace UintOS.KernelHeap

open Links List Machine

structure Client where
  heap : Heap
  live : List ℕ
  guarded : List ℕ

inductive Op
  | alloc (size : ℕ) (pages : ℕ → Ptr)
  | free (ptr : Ptr)
  | realloc (ptr : Ptr) (size : ℕ) (pages : ℕ → Ptr)

namespace Client

/-- The client receives the result of an allocation. -/
def receive (s : Client) (h : Heap) (size : ℕ) (r : Ptr) : Client :=
  match r with
  | none => { s with heap := h }
  | some p =>
    if allocSize size < pageSize then { s with heap := h, live := p :: s.live }
    else { s with heap := h, guarded := p :: s.guarded }

def drop (s : Client) (p : ℕ) : Client :=
  { s with live := s.live.erase p, guarded := s.guarded.erase p }

def step (s : Client) : Op → Option Client
  | .alloc size pages => (heapAlloc pages s.heap size).map fun (h, r) => s.receive h size r
  | .free none => some { s with heap := heapFree s.heap none }
  | .free (some p) => some { s.drop p with heap := heapFree s.heap (some p) }
  | .realloc none size pages =>
    (heapRealloc pages s.heap none size).map fun (h, r) => s.receive h size r
  | .realloc (some p) size pages => (heapRealloc pages s.heap (some p) size).map fun (h, r) =>
      if size = 0 then { s.drop p with heap := h }
      else if r = none ∨ r = some p then { s with heap := h }
      else (s.drop p).receive h (alignSize size) r

def Legal (s : Client) : Op → Prop
  | .alloc _ pages => Fresh pages s.heap
  | .free ptr => ∀ p, ptr = some p → p ∈ s.live ∨ p ∈ s.guarded
  | .realloc ptr _ pages => Fresh pages s.heap ∧ ∀ p, ptr = some p → p ∈ s.live ∨ p ∈ s.guarded

/-- A block may be handed back: its pointer passes the page-offset test of `heap_free`, and
the block does not follow a free block. -/
def Returnable (h : Heap) (p : ℕ) : Prop :=
  looksGuarded p = false ∧ PredUsed h (dataToHeader p)

/-- The condition under which a call keeps the lists in order. -/
def Safe (s : Client) : Op → Prop
  | .alloc size pages => ExtendsUsed pages s.heap size
  | .free ptr => ∀ p ∈ s.live, ptr = some p → Returnable s.heap p
  | .realloc none size pages => ExtendsUsed pages s.heap size
  | .realloc (some p) size pages =>
    if p ∈ s.live then
      looksGuarded p = false ∧
        (size = 0 ∨ Moves s.heap (dataToHeader p) (alignSize size) → Returnable s.heap p) ∧
        (size ≠ 0 → Moves s.heap (dataToHeader p) (alignSize size) →
          ExtendsUsed pages s.heap (alignSize size))
    else size ≠ 0 → guardedSize s.heap p < alignSize size →
      ExtendsUsed pages s.heap (alignSize size)

def create (sizeofHeap : ℕ) (header : ℕ → BlockHeader) (footer : ℕ → BlockFooter)
    (byte : ℕ → UInt8) (start size : ℕ) : Client :=
  { heap := heapCreate sizeofHeap header footer byte start size, live := [], guarded := [] }

end Client

section Create

variable (sizeofHeap : ℕ) (header : ℕ → BlockHeader) (footer : ℕ → BlockFooter)
  (byte : ℕ → UInt8) (start size : ℕ)

theorem heapCreate_spec {addr n : ℕ} (haddr : add32 (createAddr start) sizeofHeap = addr)
    (hn : sub32 (createSize start size) sizeofHeap = n) :
    ∃ h, heapCreate sizeofHeap header footer byte start size = h ∧ h.header addr =
        { magic := heapMagic, size := n, status := .free, prev := none, next := none,
          nextFree := none, prevFree := none, canary := heapCanaryValue } ∧
      h.footer = Function.update footer (sub32 (add32 addr n) footerSize)
        ⟨heapMagic, addr, n, heapCanaryValue⟩ ∧
      h.bins = Function.update (fun _ => none) (h.binOf addr) (some addr) ∧
      h.start = addr ∧ h.regions = [(addr, n)] := by
  refine ⟨_, rfl, ?_, ?_, ?_, ?_, ?_⟩
  · simp [heapCreate, haddr, hn]
  · simp [heapCreate, haddr, hn, Heap.writeFooter, Heap.footerAddr]
  · have hbin : ∀ k, (if k < heapMaxBins then k else heapMaxBins - 1) =
        if heapMaxBins ≤ k then heapMaxBins - 1 else k := by
      intro k
      split_ifs <;> omega
    simp [heapCreate, haddr, hn, Heap.binOf, Heap.payload, hbin]
  · simp [heapCreate, haddr, hn]
  · simp [heapCreate, haddr, hn]

/-- Right after `heap_create` the heap is one free block in its bin. -/
theorem heapCreate_inv (hpos : 0 < sizeofHeap) (hroom : sizeofHeap + 71 ≤ heapMinSize)
    (hregion : start + max size heapMinSize ≤ 4294967296) :
    ∃ L C, Inv (heapCreate sizeofHeap header footer byte start size) none L C := by
  obtain ⟨addr, haddr⟩ : ∃ a, add32 (createAddr start) sizeofHeap = a := ⟨_, rfl⟩
  obtain ⟨n, hn⟩ : ∃ n, sub32 (createSize start size) sizeofHeap = n := ⟨_, rfl⟩
  obtain ⟨h, he, hheader, hfooter, hbins, hstart, hregions⟩ :=
    heapCreate_spec sizeofHeap header footer byte start size haddr hn
  rw [he]
  have hbounds : 0 < addr ∧ 56 ≤ n ∧ addr + n ≤ 4294967296 := by
    unfold createSize createAddr heapMinSize heapAlign at *
    unfold add32 sub32 at *
    dsimp only at hn
    split_ifs at * <;> omega
  obtain ⟨haddr0, hn56, hfits⟩ := hbounds
  have hsize : h.size addr = n := by simp [Heap.size, hheader]
  have hsound : Sound h addr := by
    refine ⟨?_, by omega, haddr0, by omega⟩
    have hfoot : h.footerAddr addr = sub32 (add32 addr n) footerSize := by
      simp [Heap.footerAddr, hheader]
    rw [blockValid_iff, hfoot, hfooter, hheader, hsize, Function.update_self]
    simp
  refine ⟨[addr], Function.update (fun _ => []) (h.binOf addr) [addr], ?_, ?_, ?_⟩
  · constructor
    · simp [Linked, Heap.next, Heap.prev, hheader]
    · simp [hstart]
    · simp
    · simpa using hsound
    · intro b hb c hc hne
      simp only [mem_singleton] at hb hc
      exact absurd (hb.trans hc.symm) hne
    · intro b hb
      simp only [mem_singleton] at hb
      exact ⟨(addr, n), by simp [hregions], by simp [Inside, hb, hsize]⟩
    · intro b hb c hc
      simp only [mem_singleton] at hb
      simp [hb, Heap.next, hheader] at hc
    · rw [hregions]
      intro r hr s hs _ _ _ _ _
      simp only [mem_singleton] at hr hs
      exact hr.trans hs.symm
  · generalize hi : h.binOf addr = i at *
    constructor <;> intro j <;> by_cases hj : j = i
    · subst hj
      simp [Linked, Heap.nextFree, Heap.prevFree, hheader]
    · simp [hj]
    · subst hj
      simp [hbins]
    · simp [hbins, hj]
    · simp [hj]
    · simp [hj]
    · subst hj
      simp [hi]
    · simp [hj]
  · intro c
    constructor
    · rintro ⟨j, hj⟩
      by_cases hji : j = h.binOf addr
      · rw [hji, Function.update_self, mem_singleton] at hj
        simp [hj, Heap.status, hheader]
      · simp [hji] at hj
    · rintro ⟨hc, _⟩
      exact ⟨h.binOf addr, by simpa using hc⟩

end Create

/-- The invariant of a client: every live pointer is the payload of a block in use. -/
structure ClientInv (s : Client) (L : List ℕ) (C : ℕ → List ℕ) : Prop where
  inv : Inv s.heap none L C
  live : ∀ p ∈ s.live, ∃ b ∈ L, p = b + 40 ∧ s.heap.status b = .used
  nodup : s.live.Nodup
  guarded : ∀ p ∈ s.guarded, looksGuarded p = true

namespace Client

variable {s : Client} {L : List ℕ} {C : ℕ → List ℕ}

section

variable {pages : ℕ → Ptr} {L' : List ℕ} {size p : ℕ} (hs : ClientInv s L C)
include hs

/-- An allocation keeps the live pointers, and its result is a new one. -/
theorem receive_inv {h' : Heap} {C' : ℕ → List ℕ}
    (hi : Inv h' none L' C') (hlive : ∀ p ∈ s.live, ∃ b ∈ L', p = b + 40 ∧ h'.status b = .used)
      {r : Ptr} (hr : Handed s.heap L h' L' size r) :
    ClientInv (s.receive h' size r) L' C' := by
  cases r with
  | none => exact ⟨hi, hlive, hs.nodup, hs.guarded⟩
  | some p =>
    have hp := hr p rfl
    unfold receive
    split_ifs at hp ⊢ with hsmall
    · obtain ⟨b, hb, hpb, hu, hold⟩ := hp
      have hnew : p ∉ s.live := by
        intro hm
        obtain ⟨c, hc, hpc, huc⟩ := hs.live p hm
        obtain rfl : b = c := by omega
        exact absurd ((hold hc).symm.trans huc) (by decide)
      refine ⟨hi, ?_, nodup_cons.mpr ⟨hnew, hs.nodup⟩, hs.guarded⟩
      intro q hq
      rcases mem_cons.mp hq with rfl | hq
      · exact ⟨b, hb, hpb, hu⟩
      · exact hlive q hq
    · refine ⟨hi, hlive, hs.nodup, ?_⟩
      intro q hq
      rcases mem_cons.mp hq with rfl | hq
      · exact hp
      · exact hs.guarded q hq

theorem live_of_frame {h' : Heap} (hf : Frame s.heap L h' L') :
    ∀ p ∈ s.live, ∃ b ∈ L', p = b + 40 ∧ h'.status b = .used := by
  intro p hp
  obtain ⟨b, hb, hpb, hu⟩ := hs.live p hp
  obtain ⟨hb', hu', _⟩ := hf b hb hu
  exact ⟨b, hb', hpb, hu'⟩

/-- Handing back block `b` keeps the other live pointers. -/
theorem live_of_frameExcept {b : ℕ} {h' : Heap} (hf : FrameExcept b s.heap L h' L') :
    ∀ p ∈ s.live.erase (b + 40), ∃ c ∈ L', p = c + 40 ∧ h'.status c = .used := by
  intro p hp
  rw [hs.nodup.mem_erase_iff] at hp
  obtain ⟨c, hc, hpc, hu⟩ := hs.live p hp.2
  obtain ⟨hc', hu'⟩ := hf c hc (by rintro rfl; exact hp.1 hpc) hu
  exact ⟨c, hc', hpc, hu'⟩

theorem drop_inv (p : ℕ) : ClientInv (s.drop p) L C where
  inv := hs.inv
  live q hq := hs.live q (mem_of_mem_erase hq)
  nodup := hs.nodup.erase p
  guarded q hq := hs.guarded q (mem_of_mem_erase hq)

theorem alloc_inv (hfr : Fresh pages s.heap) (hext : ExtendsUsed pages s.heap size) :
    ∃ h' r L' C', heapAlloc pages s.heap size = some (h', r) ∧
      ClientInv (s.receive h' size r) L' C' := by
  obtain ⟨h', r, L', C', he, hinv, hframe, hhanded, -⟩ := heapAlloc_spec hs.inv hfr hext
  exact ⟨h', r, L', C', he, receive_inv hs hinv (live_of_frame hs hframe) hhanded⟩

theorem free_inv (hp : p ∈ s.live ∨ p ∈ s.guarded) (hret : p ∈ s.live → Returnable s.heap p) :
    ∃ L' C', ClientInv { s.drop p with heap := heapFree s.heap (some p) } L' C' := by
  by_cases hlive : p ∈ s.live
  · obtain ⟨b, hb, rfl, hu⟩ := hs.live p hlive
    obtain ⟨hg, hpred⟩ := hret hlive
    rw [(hs.inv.phys.sound b hb).dataToHeader] at hpred
    obtain ⟨h', L', C', he, hinv, hframe⟩ := heapFree_spec hs.inv hb hu hg hpred
    rw [he]
    exact ⟨L', C', hinv, live_of_frameExcept hs hframe, hs.nodup.erase _,
      fun q hq => hs.guarded q (mem_of_mem_erase hq)⟩
  · have hsame := heapFree_guarded s.heap (hs.guarded p (hp.resolve_left hlive))
    have hd := drop_inv hs p
    exact ⟨L, C, hd.inv.congr hsame, live_of_frame hd (Frame.of_sameState hsame), hd.nodup,
      hd.guarded⟩

theorem realloc_inv (hsize : size ≠ 0)
    (hp : p ∈ s.live) (hfr : Fresh pages s.heap) (hg : looksGuarded p = false)
    (hret : Moves s.heap (dataToHeader p) (alignSize size) → Returnable s.heap p)
    (hext : Moves s.heap (dataToHeader p) (alignSize size) →
      ExtendsUsed pages s.heap (alignSize size)) :
    ∃ t L' C', s.step (.realloc (some p) size pages) = some t ∧ ClientInv t L' C' := by
  obtain ⟨b, hb, rfl, hu⟩ := hs.live p hp
  have hsb := hs.inv.phys.sound b hb
  rw [hsb.dataToHeader] at hret hext
  have hmove : Moves s.heap b (alignSize size) →
      PredUsed s.heap b ∧ ExtendsUsed pages s.heap (alignSize size) := by
    intro hm
    have hpred := (hret hm).2
    rw [hsb.dataToHeader] at hpred
    exact ⟨hpred, hext hm⟩
  obtain ⟨h', r, L', C', he, hinv, hres⟩ :=
    reallocBlock_spec hs.inv hfr hb hu hg hmove
  have hrealloc : heapRealloc pages s.heap (some (b + 40)) size = some (h', r) := by
    simp [heapRealloc, hsize, hg, hsb.dataToHeader, hsb.validateBlock, he]
  simp only [step, hrealloc, Option.map_some, if_neg hsize]
  cases hres with
  | inPlace hr hbL' hu' hframe =>
    rw [if_pos (.inr hr)]
    refine ⟨_, L', C', rfl, hinv, ?_, hs.nodup, hs.guarded⟩
    intro q hq
    by_cases hqb : q = b + 40
    · exact ⟨b, hbL', hqb, hu'⟩
    · exact live_of_frameExcept hs hframe q ((mem_erase_of_ne hqb).mpr hq)
  | failed hr hframe =>
    rw [if_pos (.inl hr)]
    exact ⟨_, L', C', rfl, hinv, live_of_frame hs hframe, hs.nodup, hs.guarded⟩
  | moved q hr hhanded hframe =>
    have hne : q ≠ b + 40 := hhanded.ne hr hb hu hg
    rw [if_neg (by simp [hr, hne])]
    exact ⟨_, L', C', rfl, receive_inv (drop_inv hs (b + 40)) hinv
      (live_of_frameExcept hs hframe) hhanded⟩

/-- A guarded pointer to be resized: only the allocation touches the blocks. -/
theorem realloc_guarded_inv (hsize : size ≠ 0) (hp : p ∈ s.guarded) (hfr : Fresh pages s.heap)
    (hext : guardedSize s.heap p < alignSize size → ExtendsUsed pages s.heap (alignSize size)) :
    ∃ t L' C', s.step (.realloc (some p) size pages) = some t ∧ ClientInv t L' C' := by
  have hg := hs.guarded p hp
  by_cases hfit : alignSize size ≤ guardedSize s.heap p
  · refine ⟨s, L, C, ?_, hs⟩
    simp [step, heapRealloc, hsize, hg, hfit]
  · obtain ⟨h₁, r, L', C', he, hinv, hframe, hhanded, -⟩ :=
      heapAlloc_spec hs.inv hfr (hext (by omega))
    cases r with
    | none =>
      refine ⟨{ s with heap := h₁ }, L', C', ?_, hinv, live_of_frame hs hframe, hs.nodup,
        hs.guarded⟩
      simp [step, heapRealloc, hsize, hg, hfit, moveTo, he]
    | some q =>
      have hcopy := copyBytes_sameState h₁ q p (guardedSize s.heap p)
      have hsame := hcopy.trans (heapFree_guarded _ hg)
      generalize hh₂ : heapFree (copyBytes h₁ q p (guardedSize s.heap p)) (some p) = h₂ at hsame
      have hstep : s.step (.realloc (some p) size pages) = some
          (if q = p then { s with heap := h₂ }
          else (s.drop p).receive h₂ (alignSize size) (some q)) := by
        simp [step, heapRealloc, hsize, hg, hfit, moveTo, he, hh₂]
      have hlive := live_of_frame hs (hframe.trans (Frame.of_sameState hsame))
      refine ⟨_, L', C', hstep, ?_⟩
      split_ifs
      · exact ⟨hinv.congr hsame, hlive, hs.nodup, hs.guarded⟩
      · exact receive_inv (drop_inv hs p) (hinv.congr hsame)
          (fun x hx => hlive x (mem_of_mem_erase hx)) (hhanded.congr hsame)

/-- Every legal and safe call returns and keeps the invariant. -/
theorem step_inv {op : Op} (hlegal : s.Legal op) (hsafe : s.Safe op) :
    ∃ t L' C', s.step op = some t ∧ ClientInv t L' C' := by
  cases op with
  | alloc size pages =>
    obtain ⟨h', r, L', C', he, hinv⟩ := alloc_inv hs hlegal hsafe
    exact ⟨_, L', C', by simp [step, he], hinv⟩
  | free ptr =>
    cases ptr with
    | none => exact ⟨s, L, C, rfl, hs⟩
    | some p =>
      obtain ⟨L', C', hinv⟩ := free_inv hs (hlegal p rfl) (fun hp => hsafe p hp rfl)
      exact ⟨_, L', C', rfl, hinv⟩
  | realloc ptr size pages =>
    obtain ⟨hfr, hheld⟩ := hlegal
    cases ptr with
    | none =>
      obtain ⟨h', r, L', C', he, hinv⟩ := alloc_inv hs hfr hsafe
      exact ⟨_, L', C', by simp [step, heapRealloc, he], hinv⟩
    | some p =>
      by_cases hsize : size = 0
      · have hret : p ∈ s.live → Returnable s.heap p := by
          intro hp
          simp only [Safe, if_pos hp] at hsafe
          exact hsafe.2.1 (.inl hsize)
        obtain ⟨L', C', hinv⟩ := free_inv hs (hheld p rfl) hret
        exact ⟨_, L', C', by simp [step, heapRealloc, hsize], hinv⟩
      · by_cases hp : p ∈ s.live
        · simp only [Safe, if_pos hp] at hsafe
          obtain ⟨hg, hret, hext⟩ := hsafe
          exact realloc_inv hs hsize hp hfr hg (fun hm => hret (.inr hm)) (hext hsize)
        · simp only [Safe, if_neg hp] at hsafe
          exact realloc_guarded_inv hs hsize ((hheld p rfl).resolve_left hp) hfr (hsafe hsize)

end

end Client

end UintOS.KernelHeap
