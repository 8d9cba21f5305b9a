import UintOS.Memory.Heap.Edits

/-!
# The heap invariant

`Inv h t L C` joins the physical list `L` and the bins `C`: the listed blocks are the free blocks of
the physical list. An operation takes one block in hand, edits it and gives it back; `Held h L C b`
is the invariant meanwhile: `b` is in no bin, whatever its status.
-/

namespace UintOS.KernelHeap

open Function Links List Machine

structure Inv (h : Heap) (t : Ptr) (L : List ℕ) (C : ℕ → List ℕ) : Prop where
  phys : Phys h t L
  lists : FreeLists h C
  listed : ∀ c, (∃ i, c ∈ C i) ↔ c ∈ L ∧ h.status c = .free

structure Held (h : Heap) (L : List ℕ) (C : ℕ → List ℕ) (b : ℕ) : Prop where
  phys : Phys h (some b) L
  lists : FreeLists h C
  mem : b ∈ L
  listed : ∀ c, (∃ i, c ∈ C i) ↔ c ∈ L ∧ c ≠ b ∧ h.status c = .free

/-- Two heaps that differ in nothing the invariant reads. -/
structure SameState (h h' : Heap) : Prop where
  header : h'.header = h.header
  footer : h'.footer = h.footer
  bins : h'.bins = h.bins
  start : h'.start = h.start
  regions : h'.regions = h.regions

namespace SameState

variable {h h' : Heap}

theorem trans {h'' : Heap} (h₁ : SameState h h') (h₂ : SameState h' h'') : SameState h h'' where
  header := h₂.header.trans h₁.header
  footer := h₂.footer.trans h₁.footer
  bins := h₂.bins.trans h₁.bins
  start := h₂.start.trans h₁.start
  regions := h₂.regions.trans h₁.regions

theorem sameBlocks (hs : SameState h h') : SameBlocks h h' where
  core c := by rw [hs.header]
  footer := hs.footer
  start := hs.start
  regions := hs.regions

theorem freeLists (hs : SameState h h') {C : ℕ → List ℕ} (hf : FreeLists h C) : FreeLists h' C :=
  hf.congr hs.bins (fun _ b _ => by rw [hs.header]) (fun _ b _ => by rw [hs.header])
    (fun _ b _ => by rw [hs.header])

theorem status (hs : SameState h h') (c : ℕ) : h'.status c = h.status c := by
  unfold Heap.status
  rw [hs.header]

end SameState

section

variable (h : Heap)
include h

theorem noteSplit_sameState (required : ℕ) : SameState h (noteSplit h required) := by
  exact ⟨rfl, rfl, rfl, rfl, rfl⟩

theorem noteAlloc_sameState (b size : ℕ) : SameState h (noteAlloc h b size) := by
  exact ⟨rfl, rfl, rfl, rfl, rfl⟩

theorem noteFree_sameState (b : ℕ) : SameState h (noteFree h b) := by
  exact ⟨rfl, rfl, rfl, rfl, rfl⟩

theorem noteMerged_sameState : SameState h (noteMerged h) := by
  exact ⟨rfl, rfl, rfl, rfl, rfl⟩

theorem copyBytes_sameState (dst src n : ℕ) : SameState h (copyBytes h dst src n) := by
  exact ⟨rfl, rfl, rfl, rfl, rfl⟩

theorem logCall_sameState (call : PageCall) : SameState h (logCall h call) := by
  exact ⟨rfl, rfl, rfl, rfl, rfl⟩

end

theorem Inv.congr {h h' : Heap} {t : Ptr} {L : List ℕ} {C : ℕ → List ℕ} (hi : Inv h t L C)
    (hs : SameState h h') : Inv h' t L C where
  phys := hi.phys.sameBlocks hs.sameBlocks
  lists := hs.freeLists hi.lists
  listed c := by rw [hs.status, hi.listed c]

theorem Held.congr {h h' : Heap} {L : List ℕ} {C : ℕ → List ℕ} {b : ℕ} (hh : Held h L C b)
    (hs : SameState h h') : Held h' L C b where
  phys := hh.phys.sameBlocks hs.sameBlocks
  lists := hs.freeLists hh.lists
  mem := hh.mem
  listed c := by rw [hs.status, hh.listed c]

variable {h : Heap} {t : Ptr} {L l₁ l₂ : List ℕ} {C : ℕ → List ℕ} {b n size : ℕ}

theorem Inv.hold_used (hi : Inv h t L C) (ht : ∀ c, t = some c → c = b) (hb : b ∈ L)
    (hu : h.status b = .used) : Held h L C b where
  phys := hi.phys.hold ht
  lists := hi.lists
  mem := hb
  listed c := by
    rw [hi.listed c]
    constructor
    · rintro ⟨hc, hf⟩
      refine ⟨hc, ?_, hf⟩
      rintro rfl
      rw [hu] at hf
      exact absurd hf (by decide)
    · exact fun ⟨hc, _, hf⟩ => ⟨hc, hf⟩

theorem mem_update_erase (hf : FreeLists h C) {i : ℕ} (hb : b ∈ C i) (c : ℕ) :
    (∃ j, c ∈ update C i ((C i).erase b) j) ↔ (∃ j, c ∈ C j) ∧ c ≠ b := by
  constructor
  · rintro ⟨j, hj⟩
    rw [update_apply] at hj
    split_ifs at hj with hji
    · subst hji
      rw [(hf.nodup j).mem_erase_iff] at hj
      exact ⟨⟨j, hj.2⟩, hj.1⟩
    · refine ⟨⟨j, hj⟩, ?_⟩
      rintro rfl
      exact hji (hf.bin_unique hj hb)
  · rintro ⟨⟨j, hj⟩, hcb⟩
    refine ⟨j, ?_⟩
    by_cases hji : j = i
    · subst hji
      rw [update_self, (hf.nodup j).mem_erase_iff]
      exact ⟨hcb, hj⟩
    · rwa [update_of_ne hji]

theorem mem_update_cons (C : ℕ → List ℕ) (i b c : ℕ) :
    (∃ j, c ∈ update C i (b :: C i) j) ↔ c = b ∨ ∃ j, c ∈ C j := by
  constructor
  · rintro ⟨j, hj⟩
    rw [update_apply] at hj
    split_ifs at hj with hji
    · subst hji
      rw [mem_cons] at hj
      exact hj.imp_right fun hm => ⟨j, hm⟩
    · exact .inr ⟨j, hj⟩
  · rintro (rfl | ⟨j, hj⟩)
    · exact ⟨i, by simp⟩
    · refine ⟨j, ?_⟩
      by_cases hji : j = i
      · subst hji
        simp [hj]
      · rwa [update_of_ne hji]

theorem removeFromFreeList_status (h : Heap) (b c : ℕ) :
    (removeFromFreeList h b).status c = h.status c :=
  BlockHeader.status_of_core ((removeFromFreeList_sameBlocks h b).core c)

theorem addToFreeList_status (h : Heap) (b c : ℕ) : (addToFreeList h b).status c = h.status c :=
  BlockHeader.status_of_core ((addToFreeList_sameBlocks h b).core c)

/-- `remove_from_free_list` takes a free block in hand. -/
theorem Inv.hold_free (hi : Inv h t L C) (ht : ∀ c, t = some c → c = b) (hb : b ∈ L)
    (hfree : h.status b = .free) : ∃ C', Held (removeFromFreeList h b) L C' b := by
  obtain ⟨i, hbi⟩ := (hi.listed b).mpr ⟨hb, hfree⟩
  refine ⟨_, (hi.phys.hold ht).sameBlocks (removeFromFreeList_sameBlocks h b),
    hi.lists.remove hbi, hb, ?_⟩
  intro c
  rw [mem_update_erase hi.lists hbi, hi.listed c, removeFromFreeList_status]
  tauto

/-- Whether `split_block` cuts the block for a request of this size. -/
def Splits (h : Heap) (b size : ℕ) : Prop := minSplitSize ≤ sub32 (h.size b) (requiredSize size)

instance (h : Heap) (b size : ℕ) : Decidable (Splits h b size) :=
  inferInstanceAs (Decidable (minSplitSize ≤ sub32 (h.size b) (requiredSize size)))

theorem splitBlock_eq (h : Heap) (b size : ℕ) :
    splitBlock h b size = if Splits h b size then
      (noteSplit (addToFreeList (carve h b (requiredSize size)) (add32 b (requiredSize size)))
        (requiredSize size), some (add32 b (requiredSize size)))
    else (h, none) := rfl

theorem splits_iff (hs : Sound h b) (hfit : size + 56 ≤ h.size b) :
    Splits h b size ↔ size + 56 + 88 ≤ h.size b := by
  have hlt := hs.size_lt
  unfold Splits minSplitSize requiredSize headerSize footerSize add32 sub32
  omega

theorem requiredSize_eq (hs : Sound h b) (hfit : size + 56 ≤ h.size b) :
    requiredSize size = size + 56 := by
  have hlt := hs.size_lt
  unfold requiredSize add32 headerSize footerSize
  omega

/-- `split_block` on a block it cuts: the rest `n` stands behind it. -/
theorem splitBlock_carved (hp : Phys h t (l₁ ++ b :: l₂)) (hfit : size + 56 ≤ h.size b)
    (hroom : Splits h b size) :
    ∃ n h₁, n ∉ l₁ ++ b :: l₂ ∧ Carved h h₁ b n (size + 56) ∧
      (splitBlock h b size).1 = noteSplit (addToFreeList h₁ n) (size + 56) ∧
      SameBlocks h₁ (splitBlock h b size).1 ∧
      Phys (splitBlock h b size).1 t (l₁ ++ b :: n :: l₂) := by
  have hb : b ∈ l₁ ++ b :: l₂ := by simp
  have hsb := hp.sound b hb
  have hroom' := (splits_iff hsb hfit).mp hroom
  have hfits := hsb.fits
  rw [splitBlock_eq, requiredSize_eq hsb hfit, if_pos hroom]
  obtain ⟨n, hn⟩ : ∃ n, n = b + (size + 56) := ⟨_, rfl⟩
  have hadd : add32 b (size + 56) = n := (add32_eq (by omega)).trans hn.symm
  have hnL : n ∉ l₁ ++ b :: l₂ := hp.not_mem_of_inside hb (by omega) (by omega)
  have hcarve : Carved h (carve h b (size + 56)) b n (size + 56) :=
    carve_spec hsb (by omega) hroom' hn (hp.linked.chain.next_ne_self hb)
      (fun e => hnL (hp.next_mem hb e))
  have hsame := (addToFreeList_sameBlocks (carve h b (size + 56)) n).trans
    (noteSplit_sameState _ (size + 56)).sameBlocks
  rw [hadd]
  exact ⟨n, _, hnL, hcarve, rfl, hsame, (hcarve.phys hp hn (by omega) hroom').sameBlocks hsame⟩

theorem absorb_absorbed (hp : Phys h t (l₁ ++ b :: n :: l₂)) (hfree : h.status n = .free)
    (ht : t ≠ some n) :
    Absorbed (removeFromFreeList h n) (absorb (removeFromFreeList h n) b n) b n ∧
      Phys (absorb (removeFromFreeList h n) b n) t (l₁ ++ b :: l₂) ∧
      ∀ c, (absorb (removeFromFreeList h n) b n).status c = h.status c := by
  have hp₁ := hp.sameBlocks (removeFromFreeList_sameBlocks h n)
  have hstatus₁ := removeFromFreeList_status h n
  generalize removeFromFreeList h n = h₁ at *
  have hb : b ∈ l₁ ++ b :: n :: l₂ := by simp
  have hn : h₁.next b = some n := by simpa using hp₁.linked.fields.2
  have hfree₁ := (hstatus₁ n).trans hfree
  obtain ⟨hadj, _⟩ := hp₁.joined_free hb hn hfree₁ ht
  have habs := absorb_spec (hp₁.sound b hb) (hp₁.sound n (hp₁.next_mem hb hn)) hadj hp₁.next_ne_prev
  exact ⟨habs, habs.phys hp₁ hfree₁ ht, fun c => (habs.status c).trans (hstatus₁ c)⟩

namespace Held

section

variable (hh : Held h L C b)
include hh

theorem not_listed (i : ℕ) : b ∉ C i := by
  intro hb
  exact ((hh.listed b).mp ⟨i, hb⟩).2.1 rfl

theorem list (hfree : h.status b = .free) : ∃ C', Inv (addToFreeList h b) (some b) L C' := by
  refine ⟨_, hh.phys.sameBlocks (addToFreeList_sameBlocks h b), hh.lists.add hh.not_listed, ?_⟩
  intro c
  rw [mem_update_cons, hh.listed c, addToFreeList_status]
  constructor
  · rintro (rfl | ⟨hc, _, hf⟩)
    · exact ⟨hh.mem, hfree⟩
    · exact ⟨hc, hf⟩
  · rintro ⟨hc, hf⟩
    by_cases hcb : c = b
    · exact .inl hcb
    · exact .inr ⟨hc, hcb, hf⟩

theorem giveBack (hu : h.status b = .used) : Inv h none L C where
  phys := hh.phys.settle (.inl hu)
  lists := hh.lists
  listed c := by
    rw [hh.listed c]
    constructor
    · exact fun ⟨hc, _, hf⟩ => ⟨hc, hf⟩
    · rintro ⟨hc, hf⟩
      refine ⟨hc, ?_, hf⟩
      rintro rfl
      rw [hu] at hf
      exact absurd hf (by decide)

theorem setStatus (s : Status) : Held (h.modify b fun c => { c with status := s }) L C b where
  phys := hh.phys.setStatus s
  lists := by
    apply hh.lists.congr (Heap.modify_bins h b _) <;> intro i c hc <;>
      simp [show c ≠ b from fun e => hh.not_listed i (e ▸ hc)]
  mem := hh.mem
  listed c := by
    rw [hh.listed c]
    refine and_congr_right fun _ => and_congr_right fun hcb => ?_
    simp [Heap.status, hcb]

/-- `split_block` keeps all blocks; only the successor of `b` gets a new predecessor. -/
theorem split (hfit : size + 56 ≤ h.size b) :
    ∃ L' C', Held (splitBlock h b size).1 L' C' b ∧ size + 56 ≤ (splitBlock h b size).1.size b ∧
      ∀ c ∈ L, c ∈ L' ∧ (splitBlock h b size).1.status c = h.status c ∧
        (h.next b ≠ some c → (splitBlock h b size).1.prev c = h.prev c) := by
  by_cases hroom : Splits h b size
  · obtain ⟨l₁, l₂, rfl⟩ := append_of_mem hh.mem
    obtain ⟨n, h₁, hnL, hcarve, heq, hsame, hphys⟩ := splitBlock_carved hh.phys hfit hroom
    have hcn : ∀ {c}, c ∈ l₁ ++ b :: l₂ → c ≠ n := fun hc e => hnL (e ▸ hc)
    have hCL : ∀ {i c}, c ∈ C i → c ∈ l₁ ++ b :: l₂ ∧ c ≠ b := fun {i c} hc =>
      ⟨((hh.listed c).mp ⟨i, hc⟩).1, ((hh.listed c).mp ⟨i, hc⟩).2.1⟩
    have hlists : FreeLists h₁ C := by
      apply hh.lists.congr hcarve.bins <;> intro i c hc <;> obtain ⟨hcL, hcb⟩ := hCL hc
      · exact (hcarve.other_fields hcb (hcn hcL)).2.2.2.2.2.2.1
      · exact (hcarve.other_fields hcb (hcn hcL)).2.2.2.2.2.2.2
      · exact (hcarve.other_fields hcb (hcn hcL)).1
    have hadded := (noteSplit_sameState _ (size + 56)).freeLists
      (hlists.add (b := n) fun i hm => hnL (hCL hm).1)
    rw [← heq] at hadded
    generalize (splitBlock h b size).1 = h' at *
    have hmem : ∀ c, c ∈ l₁ ++ b :: n :: l₂ ↔ c = n ∨ c ∈ l₁ ++ b :: l₂ := fun c => by
      rw [(perm_insertAfter l₁ l₂ b n).mem_iff, mem_cons]
    have hcore : ∀ c, h'.status c = h₁.status c :=
      fun c => BlockHeader.status_of_core (hsame.core c)
    have hsta : ∀ {c}, c ∈ l₁ ++ b :: l₂ → h'.status c = h.status c := fun {c} hc =>
      (hcore c).trans (hcarve.status (hcn hc))
    refine ⟨_, _, ⟨hphys, hadded, by simp, ?_⟩, ?_, ?_⟩
    · intro c
      rw [mem_update_cons, hmem, hh.listed c]
      constructor
      · rintro (rfl | ⟨hc, hcb, hf⟩)
        · exact ⟨.inl rfl, (hcn hh.mem).symm, (hcore c).trans (by simp [Heap.status, hcarve.fresh])⟩
        · exact ⟨.inr hc, hcb, by rw [hsta hc, hf]⟩
      · rintro ⟨rfl | hc, hcb, hf⟩
        · exact .inl rfl
        · exact .inr ⟨hc, hcb, by rw [← hsta hc, hf]⟩
    · rw [hsame.sameTags.size, hcarve.size_cut]
    · intro c hc
      refine ⟨(hmem c).mpr (.inr hc), hsta hc, ?_⟩
      intro hnext
      rw [hsame.sameTags.prev]
      by_cases hcb : c = b
      · simp [Heap.prev, hcb, hcarve.cut]
      · have hprev := (hcarve.other_fields hcb (hcn hc)).2.2.2.1
        rwa [if_neg hnext] at hprev
  · rw [splitBlock_eq, if_neg hroom]
    exact ⟨L, C, hh, hfit, fun c hc => ⟨hc, rfl, fun _ => rfl⟩⟩

theorem absorbNext (hn : h.next b = some n) (hfree : h.status n = .free) :
    ∃ L' C', Held (absorb (removeFromFreeList h n) b n) L' C' b ∧
      (absorb (removeFromFreeList h n) b n).size b = h.size b + h.size n ∧
      (absorb (removeFromFreeList h n) b n).prev b = h.prev b ∧
      ∀ c ∈ L, (absorb (removeFromFreeList h n) b n).status c = h.status c ∧
        (c ≠ n → c ∈ L') := by
  have hnb : n ≠ b := by
    rintro rfl
    exact hh.phys.linked.chain.next_ne_self hh.mem hn
  obtain ⟨i, hni⟩ := (hh.listed n).mpr ⟨hh.phys.next_mem hh.mem hn, hnb, hfree⟩
  have hlists := hh.lists.remove hni
  have hlisted : ∀ c, (∃ j, c ∈ update C i ((C i).erase n) j) ↔
      c ∈ L ∧ c ≠ b ∧ c ≠ n ∧ h.status c = .free := by
    intro c
    rw [mem_update_erase hh.lists hni, hh.listed c]
    tauto
  generalize update C i ((C i).erase n) = C₁ at *
  obtain ⟨l₁, l₂, rfl⟩ := hh.phys.split_next hh.mem hn
  obtain ⟨habs, hphys, hsta⟩ := absorb_absorbed hh.phys hfree (by simpa using hnb.symm)
  have hsame := (removeFromFreeList_sameBlocks h n).sameTags
  have hmem : ∀ c, c ∈ l₁ ++ b :: n :: l₂ ↔ c = n ∨ c ∈ l₁ ++ b :: l₂ := fun c => by
    rw [(perm_insertAfter l₁ l₂ b n).mem_iff, mem_cons]
  have hnout : n ∉ l₁ ++ b :: l₂ := by
    have := (perm_insertAfter l₁ l₂ b n).nodup_iff.mp hh.phys.nodup
    exact (nodup_cons.mp this).1
  refine ⟨l₁ ++ b :: l₂, C₁, ⟨hphys, ?_, by simp, ?_⟩, ?_, ?_, ?_⟩
  · have hcb : ∀ {j c}, c ∈ C₁ j → c ≠ b := fun {j c} hc => ((hlisted c).mp ⟨j, hc⟩).2.1
    apply hlists.congr habs.bins <;> intro j c hc
    · exact (habs.other_fields (hcb hc)).2.2.2.2.2.2.1
    · exact (habs.other_fields (hcb hc)).2.2.2.2.2.2.2
    · exact (habs.other_fields (hcb hc)).1
  · intro c
    rw [hlisted c, hsta c, hmem c]
    constructor
    · rintro ⟨rfl | hc, hcb, hcn, hf⟩
      · exact absurd rfl hcn
      · exact ⟨hc, hcb, hf⟩
    · rintro ⟨hc, hcb, hf⟩
      exact ⟨.inr hc, hcb, fun e => hnout (e ▸ hc), hf⟩
  · rw [habs.size_grown, hsame.size, hsame.size]
  · rw [← hsame.prev]
    simp [Heap.prev, habs.grown]
  · exact fun c hc => ⟨hsta c, fun hcn => ((hmem c).mp hc).resolve_left hcn⟩

end

end Held

/-- The pages of an extension become a block in hand behind the last block. -/
theorem Inv.append {l : List ℕ} {last e : ℕ} (hi : Inv h none (l ++ [last]) C)
    (hpage : n % pageSize = 0) (hpos : 0 < n) (he : 56 ≤ e) (hfits : n + e ≤ 4294967296)
    (hnew : ∀ r ∈ h.regions, n + e ≤ r.1 ∨ r.1 + r.2 ≤ n) :
    Held (append h last n e) (l ++ [last, n]) C n ∧ n ∉ l ++ [last] ∧
      (append h last n e).size n = e ∧ (append h last n e).status n = .free ∧
      ∀ c ∈ l ++ [last], (append h last n e).status c = h.status c ∧
        (append h last n e).prev c = h.prev c := by
  have hn : n ∉ l ++ [last] := by
    intro hm
    obtain ⟨r, hr, hin⟩ := hi.phys.owned n hm
    have := hnew r hr
    have := (hi.phys.sound n hm).large
    unfold Inside at hin
    omega
  have happ : Appended h (KernelHeap.append h last n e) last n e :=
    append_spec (fun hl => hn (by simp [hl])) he hfits
  have hcn : ∀ {c}, c ∈ l ++ [last] → c ≠ n := fun hc e => hn (e ▸ hc)
  have hmem : ∀ c, c ∈ l ++ [last, n] ↔ c = n ∨ c ∈ l ++ [last] := fun c => by
    rw [(perm_insertAfter l [] last n).mem_iff, mem_cons]
  have hCL : ∀ {i c}, c ∈ C i → c ≠ n := fun {i c} hc => hcn ((hi.listed c).mp ⟨i, hc⟩).1
  refine ⟨⟨happ.phys hi.phys hpage hpos he hfits hnew, ?_, by simp, ?_⟩, hn, happ.size_fresh,
    happ.status_fresh, ?_⟩
  · apply hi.lists.congr happ.bins <;> intro i c hc
    · exact (happ.other_fields (hCL hc)).2.2.2.2.2.1
    · exact (happ.other_fields (hCL hc)).2.2.2.2.2.2
    · exact (happ.other_fields (hCL hc)).1
  · intro c
    rw [hi.listed c, hmem]
    constructor
    · rintro ⟨hc, hf⟩
      exact ⟨.inr hc, hcn hc, by rw [(happ.other_fields (hcn hc)).2.1, hf]⟩
    · rintro ⟨hc, hne, hf⟩
      exact ⟨hc.resolve_left hne, by rw [← (happ.other_fields hne).2.1, hf]⟩
  · intro c hc
    exact ⟨(happ.other_fields (hcn hc)).2.1, (happ.other_fields (hcn hc)).2.2.1⟩

theorem addToFreeList_regions (h : Heap) (R : List (ℕ × ℕ)) (b : ℕ) :
    addToFreeList { h with regions := R } b = { addToFreeList h b with regions := R } := by
  have hbin : Heap.binOf { h with regions := R } b = h.binOf b := rfl
  unfold addToFreeList
  rw [hbin]
  dsimp only [Heap.modify_bins]
  cases h.bins (h.binOf b) <;> rfl

theorem attach_sameState (h : Heap) (last n e : ℕ) :
    SameState (addToFreeList (append h last n e) n) (attach (formatPages h n e) last n e) := by
  rw [append, attach, addToFreeList_regions, noteExtension]
  refine ⟨rfl, rfl, rfl, rfl, ?_⟩
  rw [(addToFreeList_sameBlocks _ n).regions]

end UintOS.KernelHeap
