import UintOS.Memory.Heap.FreeLists

/-!
# The physical block list of the heap

`Phys h L` says that the blocks `L` are linked in this order from `heap->start`, each with a valid
header and footer, disjoint, and inside one of the memory runs the heap obtained. Consecutive blocks
are adjacent in one run, or the second one is in use at the start of a page: the first block of an
extension, whose payload pointer `heap_free` takes for a guarded allocation. During an operation one
block, the one in transit, may be such a block and still be free.
-/

namespace UintOS.KernelHeap

open Machine Links

namespace Heap

variable (h : Heap)

def next : ℕ → Ptr := fun b => (h.header b).next
def prev : ℕ → Ptr := fun b => (h.header b).prev
def size (b : ℕ) : ℕ := (h.header b).size
def status (b : ℕ) : Status := (h.header b).status

end Heap

/-- A well-formed block: valid tags, room for header and footer, no wrap-around. -/
structure Sound (h : Heap) (b : ℕ) : Prop where
  valid : h.blockValid b = true
  large : 56 ≤ h.size b
  pos : 0 < b
  fits : b + h.size b ≤ 4294967296

def Apart (h : Heap) (b c : ℕ) : Prop := b + h.size b ≤ c ∨ c + h.size c ≤ b

def Inside (h : Heap) (b : ℕ) (r : ℕ × ℕ) : Prop := r.1 ≤ b ∧ b + h.size b ≤ r.1 + r.2

/-- How a block and its successor lie in memory; `t` is the block in transit. -/
def Joined (h : Heap) (t : Ptr) (b c : ℕ) : Prop :=
  (c = b + h.size b ∧ ∃ r ∈ h.regions, Inside h b r ∧ Inside h c r) ∨
    (c % pageSize = 0 ∧ (h.status c = .used ∨ t = some c))

structure Phys (h : Heap) (t : Ptr) (L : List ℕ) : Prop where
  linked : Linked h.next h.prev none L none
  start : L.head? = some h.start
  nodup : L.Nodup
  sound : ∀ b ∈ L, Sound h b
  apart : ∀ b ∈ L, ∀ c ∈ L, b ≠ c → Apart h b c
  owned : ∀ b ∈ L, ∃ r ∈ h.regions, Inside h b r
  joined : ∀ b ∈ L, ∀ c, h.next b = some c → Joined h t b c
  regions_apart : ∀ r ∈ h.regions, ∀ s ∈ h.regions, ∀ a, r.1 ≤ a → a < r.1 + r.2 →
    s.1 ≤ a → a < s.1 + s.2 → r = s

variable {h h' : Heap} {b n : ℕ} {t : Ptr} {L : List ℕ}

theorem Sound.lt (hs : Sound h b) : b < 4294967296 := by
  have := hs.large
  have := hs.fits
  omega

theorem Sound.size_lt (hs : Sound h b) : h.size b < 4294967296 := by
  have := hs.pos
  have := hs.fits
  omega

theorem footerAddr_eq (hl : 56 ≤ h.size b) (hf : b + h.size b ≤ 4294967296) :
    h.footerAddr b = b + h.size b - 16 := by
  unfold Heap.footerAddr add32 sub32 footerSize
  unfold Heap.size at *
  omega

theorem Sound.footerAddr (hs : Sound h b) :
    h.footerAddr b = b + h.size b - 16 := footerAddr_eq hs.large hs.fits

theorem Sound.payload (hs : Sound h b) : h.payload b = h.size b - 56 := by
  have h1 := hs.large
  have h2 := hs.size_lt
  unfold Heap.payload sub32 headerSize footerSize
  unfold Heap.size at *
  omega

theorem blockValid_iff (h : Heap) (b : ℕ) : h.blockValid b = true ↔ (h.header b).magic = heapMagic ∧
      (h.header b).canary = heapCanaryValue ∧
      h.footer (h.footerAddr b) = ⟨heapMagic, b, h.size b, heapCanaryValue⟩ := by
  unfold Heap.blockValid Heap.size
  cases hf : h.footer (h.footerAddr b)
  simp only [Bool.and_eq_true, beq_iff_eq, BlockFooter.mk.injEq]
  tauto

theorem blockValid_congr (hm : (h'.header b).magic = (h.header b).magic)
    (hk : (h'.header b).canary = (h.header b).canary) (hs : h'.size b = h.size b)
    (hf : h'.footer (h.footerAddr b) = h.footer (h.footerAddr b)) :
    h'.blockValid b = h.blockValid b := by
  have ha : h'.footerAddr b = h.footerAddr b := by
    unfold Heap.footerAddr
    unfold Heap.size at hs
    rw [hs]
  rw [Bool.eq_iff_iff, blockValid_iff, blockValid_iff, ha, hm, hk, hs, hf]

theorem Sound.congr (hs : Sound h b) (hv : h'.blockValid b = h.blockValid b)
    (hsz : h'.size b = h.size b) : Sound h' b where
  valid := by rw [hv, hs.valid]
  large := by rw [hsz]; exact hs.large
  pos := hs.pos
  fits := by rw [hsz]; exact hs.fits

/-- Two heaps whose blocks differ at most in status and free-list links. -/
structure SameTags (h h' : Heap) : Prop where
  size : ∀ c, h'.size c = h.size c
  next : ∀ c, h'.next c = h.next c
  prev : ∀ c, h'.prev c = h.prev c
  magic : ∀ c, (h'.header c).magic = (h.header c).magic
  canary : ∀ c, (h'.header c).canary = (h.header c).canary
  footer : h'.footer = h.footer
  start : h'.start = h.start
  regions : h'.regions = h.regions

theorem SameTags.refl (h : Heap) : SameTags h h := by
  constructor <;> intros <;> rfl

theorem SameBlocks.sameTags (hs : SameBlocks h h') : SameTags h h' where
  size c := BlockHeader.size_of_core (hs.core c)
  next c := BlockHeader.next_of_core (hs.core c)
  prev c := BlockHeader.prev_of_core (hs.core c)
  magic c := BlockHeader.magic_of_core (hs.core c)
  canary c := BlockHeader.canary_of_core (hs.core c)
  footer := hs.footer
  start := hs.start
  regions := hs.regions

/-- The physical list reads the status only of blocks at page starts. -/
theorem Phys.congr {t' : Ptr} (hp : Phys h t L) (hs : SameTags h h')
    (hsta : ∀ c, c % pageSize = 0 → h.status c = .used ∨ t = some c →
      h'.status c = .used ∨ t' = some c) : Phys h' t' L := by
  have hin : ∀ c r, Inside h' c r ↔ Inside h c r := by
    intro c r
    simp only [Inside, hs.size]
  constructor
  · exact hp.linked.congr (fun c _ => hs.next c) (fun c _ => hs.prev c)
  · rw [hp.start, hs.start]
  · exact hp.nodup
  · intro b hb
    have hvalid := blockValid_congr (hs.magic b) (hs.canary b) (hs.size b) (by rw [hs.footer])
    exact (hp.sound b hb).congr hvalid (hs.size b)
  · intro b hb c hc hne
    simpa only [Apart, hs.size] using hp.apart b hb c hc hne
  · intro b hb
    simpa only [hs.regions, hin] using hp.owned b hb
  · intro b hb c hc
    rw [hs.next] at hc
    unfold Joined
    simp only [hs.size, hs.regions, hin]
    exact (hp.joined b hb c hc).imp_right fun ⟨hpage, hu⟩ => ⟨hpage, hsta c hpage hu⟩
  · rw [hs.regions]
    exact hp.regions_apart

/-- The physical list does not depend on free lists, statistics or payload. -/
theorem Phys.sameBlocks (hp : Phys h t L) (hs : SameBlocks h h') : Phys h' t L := by
  apply hp.congr hs.sameTags
  intro c _ hu
  rwa [show h'.status c = h.status c from BlockHeader.status_of_core (hs.core c)]

/-- A block in use, or not at the start of a page, need not be in transit. -/
theorem Phys.settle (hp : Phys h (some b) L)
    (hb : h.status b = .used ∨ b % pageSize ≠ 0) : Phys h none L := by
  apply hp.congr (SameTags.refl h)
  rintro c hpage (hu | hbc)
  · exact .inl hu
  · obtain rfl : b = c := by simpa using hbc
    exact .inl (hb.resolve_right (absurd hpage))

theorem Phys.hold (hp : Phys h t L) (ht : ∀ c, t = some c → c = b) : Phys h (some b) L := by
  apply hp.congr (SameTags.refl h)
  intro c _ hu
  exact hu.imp_right fun hc => by rw [ht c hc]

theorem Phys.setStatus (hp : Phys h (some b) L) (s : Status) :
    Phys (h.modify b fun c => { c with status := s }) (some b) L := by
  apply hp.congr
  · constructor <;> intros <;>
      simp only [Heap.size, Heap.next, Heap.prev, Heap.modify_header, Heap.modify_footer,
        Heap.modify_start, Heap.modify_regions] <;> split_ifs with hc <;> simp [hc]
  · intro c _ hu
    by_cases hcb : c = b
    · exact .inr (by rw [hcb])
    · simpa [Heap.status, hcb] using hu

section

variable (hp : Phys h t L) (hb : b ∈ L)
include hp hb

/-- An address strictly inside a block is not that of another block. -/
theorem Phys.not_mem_of_inside (hlt : b < n) (hn : n < b + h.size b) : n ∉ L := by
  intro hm
  rcases hp.apart b hb n hm (by omega) with ha | ha <;> omega

/-- A free block directly follows its predecessor, in the same memory run. -/
theorem Phys.joined_free (hn : h.next b = some n) (hf : h.status n = .free) (ht : t ≠ some n) :
    n = b + h.size b ∧ ∃ r ∈ h.regions, Inside h b r ∧ Inside h n r := by
  rcases hp.joined b hb n hn with hj | ⟨_, hu | hu⟩
  · exact hj
  · rw [hf] at hu
    exact absurd hu (by decide)
  · exact absurd hu ht

theorem Phys.next_mem (hn : h.next b = some n) : n ∈ L := hp.linked.chain.next_mem hb hn

end

theorem Phys.next_ne_prev {l₁ l₂ : List ℕ}
    (hp : Phys h t (l₁ ++ b :: n :: l₂)) : h.next n ≠ some b := by
  intro e
  have hlink : Linked h.next h.prev none ((l₁ ++ [b]) ++ n :: l₂) none := by
    simpa using hp.linked
  have hb : b ∈ l₂ := List.mem_of_head? (hlink.fields.2.symm.trans e)
  have hnodup := hp.nodup
  simp [List.nodup_append, hb] at hnodup

theorem Phys.region_unique (hp : Phys h t L) (hb : b ∈ L) {r s : ℕ × ℕ} (hr : r ∈ h.regions)
    (hs : s ∈ h.regions) (hbr : Inside h b r) (hbs : Inside h b s) : r = s := by
  have := (hp.sound b hb).large
  unfold Inside at hbr hbs
  exact hp.regions_apart r hr s hs b hbr.1 (by omega) hbs.1 (by omega)

theorem Phys.split_next (hp : Phys h t L) (hb : b ∈ L)
    (hn : h.next b = some n) : ∃ l₁ l₂, L = l₁ ++ b :: n :: l₂ := by
  obtain ⟨l₁, l₂, rfl⟩ := List.append_of_mem hb
  have hhead := hp.linked.fields.2
  rw [hn] at hhead
  cases l₂ with
  | nil => simp at hhead
  | cons c l₂ =>
    have hc : n = c := by simpa using hhead
    exact ⟨l₁, l₂, by rw [hc]⟩

end UintOS.KernelHeap
