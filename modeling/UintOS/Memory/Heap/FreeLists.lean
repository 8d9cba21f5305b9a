import UintOS.Memory.Heap.Model

/-!
# The size bins of the heap

`FreeLists h C` says that bin `i` is the doubly linked list of the blocks `C i`, and that every
block sits in the bin of its size. `remove_from_free_list` on a block in its bin and
`add_to_free_list` on a block in none keep this.
-/

namespace UintOS.KernelHeap

open Function Links List Machine

namespace BlockHeader

/-- The header without its free-list links. -/
def core (c : BlockHeader) : BlockHeader := { c with nextFree := none, prevFree := none }

variable {c d : BlockHeader}

section

variable (e : c.core = d.core)
include e

theorem size_of_core : c.size = d.size :=
  show c.core.size = d.core.size from congrArg _ e

theorem status_of_core : c.status = d.status :=
  show c.core.status = d.core.status from congrArg _ e

theorem next_of_core : c.next = d.next :=
  show c.core.next = d.core.next from congrArg _ e

theorem prev_of_core : c.prev = d.prev :=
  show c.core.prev = d.core.prev from congrArg _ e

theorem magic_of_core : c.magic = d.magic :=
  show c.core.magic = d.core.magic from congrArg _ e

theorem canary_of_core : c.canary = d.canary :=
  show c.core.canary = d.core.canary from congrArg _ e

end

end BlockHeader

namespace Heap

variable (h : Heap)

@[simp] theorem modify_header (b c : ℕ) (f : BlockHeader → BlockHeader) :
    (h.modify b f).header c = if c = b then f (h.header b) else h.header c :=
  update_apply _ _ _ _

section

variable (b : ℕ) (f : BlockHeader → BlockHeader)
include b f

@[simp] theorem modify_bins : (h.modify b f).bins = h.bins := rfl

@[simp] theorem modify_footer : (h.modify b f).footer = h.footer := rfl

@[simp] theorem modify_start : (h.modify b f).start = h.start := rfl

@[simp] theorem modify_regions : (h.modify b f).regions = h.regions := rfl

end

@[simp] theorem writeFooter_header (b : ℕ) : (h.writeFooter b).header = h.header := rfl

@[simp] theorem writeFooter_bins (b : ℕ) : (h.writeFooter b).bins = h.bins := rfl

@[simp] theorem writeFooter_start (b : ℕ) : (h.writeFooter b).start = h.start := rfl

@[simp] theorem writeFooter_regions (b : ℕ) : (h.writeFooter b).regions = h.regions := rfl

def nextFree : ℕ → Ptr := fun b => (h.header b).nextFree
def prevFree : ℕ → Ptr := fun b => (h.header b).prevFree

theorem binOf_congr {h h' : Heap} {b : ℕ} (e : (h'.header b).size = (h.header b).size) :
    h'.binOf b = h.binOf b := by
  unfold binOf payload
  rw [e]

theorem binOf_lt (b : ℕ) : h.binOf b < heapMaxBins := by
  unfold binOf heapMaxBins
  dsimp only
  split_ifs <;> omega

end Heap

/-- Two heaps that differ only in the bins and the free-list links. -/
structure SameBlocks (h h' : Heap) : Prop where
  core : ∀ c, (h'.header c).core = (h.header c).core
  footer : h'.footer = h.footer
  start : h'.start = h.start
  regions : h'.regions = h.regions

theorem SameBlocks.trans {h h' h'' : Heap} (h₁ : SameBlocks h h') (h₂ : SameBlocks h' h'') :
    SameBlocks h h'' where
  core c := (h₂.core c).trans (h₁.core c)
  footer := h₂.footer.trans h₁.footer
  start := h₂.start.trans h₁.start
  regions := h₂.regions.trans h₁.regions

structure FreeLists (h : Heap) (C : ℕ → List ℕ) : Prop where
  linked : ∀ i, Linked h.nextFree h.prevFree none (C i) none
  head : ∀ i, h.bins i = (C i).head?
  nodup : ∀ i, (C i).Nodup
  place : ∀ i b, b ∈ C i → h.binOf b = i

namespace FreeLists

variable {h h' : Heap} {C : ℕ → List ℕ}

theorem bin_unique (hf : FreeLists h C) {b : ℕ} {i j : ℕ} (hi : b ∈ C i) (hj : b ∈ C j) :
    i = j := (hf.place i b hi).symm.trans (hf.place j b hj)

/-- The bins only read the links and sizes of the listed blocks. -/
theorem congr (hf : FreeLists h C) (hbins : h'.bins = h.bins)
    (hn : ∀ i, ∀ b ∈ C i, (h'.header b).nextFree = (h.header b).nextFree)
    (hp : ∀ i, ∀ b ∈ C i, (h'.header b).prevFree = (h.header b).prevFree)
    (hs : ∀ i, ∀ b ∈ C i, (h'.header b).size = (h.header b).size) : FreeLists h' C where
  linked i := (hf.linked i).congr (hn i) (hp i)
  head i := by rw [hbins, hf.head]
  nodup := hf.nodup
  place i b hb := by rw [Heap.binOf_congr (hs i b hb), hf.place i b hb]

end FreeLists

section

variable (h : Heap) (b : ℕ)
include h

theorem removeFromFreeList_sameBlocks : SameBlocks h (removeFromFreeList h b) := by
  constructor
  · intro c
    unfold removeFromFreeList
    cases hp : (h.header b).prevFree <;> dsimp only <;> split <;>
      simp only [Heap.modify_header, BlockHeader.core] <;> split_ifs <;> simp_all
  all_goals
    unfold removeFromFreeList
    cases (h.header b).prevFree <;> dsimp only <;> split <;> rfl

/-- What `remove_from_free_list` does to the links of the other blocks and to the bins. -/
theorem removeFromFreeList_links (hp : (h.header b).prevFree ≠ some b) :
    (∀ c, c ≠ b → (removeFromFreeList h b).nextFree c =
      if h.prevFree b = some c then h.nextFree b else h.nextFree c) ∧
    (∀ c, c ≠ b → (removeFromFreeList h b).prevFree c =
      if h.nextFree b = some c then h.prevFree b else h.prevFree c) ∧
    (removeFromFreeList h b).bins =
      if h.prevFree b = none then update h.bins (h.binOf b) (h.nextFree b)
      else h.bins := by
  unfold removeFromFreeList Heap.nextFree Heap.prevFree
  cases hpb : (h.header b).prevFree with
  | none =>
    dsimp only
    cases hnb : (h.header b).nextFree with
    | none =>
      refine ⟨?_, ?_, rfl⟩ <;> intro c hc <;> simp [hc]
    | some q =>
      refine ⟨?_, ?_, rfl⟩ <;> intro c hc <;> by_cases hq : q = c
      all_goals simp [hc, hq, hpb, eq_comm]
  | some p =>
    have hbp : b ≠ p := fun e => hp (by rw [hpb, e])
    dsimp only
    simp only [Heap.modify_header, if_neg hbp]
    cases hnb : (h.header b).nextFree with
    | none =>
      refine ⟨?_, ?_, by simp⟩ <;> intro c hc <;> by_cases hcp : p = c
      all_goals simp [hc, hcp, eq_comm]
    | some q =>
      refine ⟨?_, ?_, by simp⟩ <;> intro c hc <;> by_cases hcp : p = c <;> by_cases hcq : q = c
      all_goals simp [hc, hcp, hcq, hpb, eq_comm]

theorem addToFreeList_sameBlocks : SameBlocks h (addToFreeList h b) := by
  constructor
  · intro c
    unfold addToFreeList
    dsimp only
    split <;> simp only [Heap.modify_header, BlockHeader.core] <;> split_ifs <;> simp_all
  all_goals
    unfold addToFreeList
    dsimp only
    split <;> rfl

/-- What `add_to_free_list` does to links and bins. -/
theorem addToFreeList_links (hb : h.bins (h.binOf b) ≠ some b) :
    (addToFreeList h b).nextFree b = h.bins (h.binOf b) ∧
    (addToFreeList h b).prevFree b = none ∧
    (∀ c, c ≠ b → (addToFreeList h b).nextFree c = h.nextFree c) ∧
    (∀ c, c ≠ b → (addToFreeList h b).prevFree c =
      if h.bins (h.binOf b) = some c then some b else h.prevFree c) ∧
    (addToFreeList h b).bins = update h.bins (h.binOf b) (some b) := by
  unfold addToFreeList Heap.nextFree Heap.prevFree
  dsimp only [Heap.modify_bins]
  cases hbin : h.bins (h.binOf b) with
  | none =>
    refine ⟨by simp, by simp, ?_, ?_, rfl⟩ <;> intro c hc <;> simp [hc]
  | some q =>
    have hbq : b ≠ q := fun e => hb (by rw [hbin, e])
    refine ⟨by simp [hbq], by simp [hbq], ?_, ?_, rfl⟩ <;> intro c hc <;> by_cases hq : q = c
    all_goals simp [hc, hq, eq_comm]

end

namespace FreeLists

variable {h : Heap} {C : ℕ → List ℕ} {b : ℕ}

theorem edit {h' : Heap} (hf : FreeLists h C) (hsame : SameBlocks h h') {i : ℕ} {l : List ℕ}
    (hl : Linked h'.nextFree h'.prevFree none l none) (hhead : h'.bins i = l.head?)
    (hplace : ∀ b ∈ l, h.binOf b = i)
    (hother : ∀ j ≠ i, Linked h'.nextFree h'.prevFree none (C j) none ∧ h'.bins j = h.bins j) :
    FreeLists h' (update C i l) := by
  have hlinked : ∀ j, Linked h'.nextFree h'.prevFree none (update C i l j) none := by
    intro j
    by_cases hj : j = i
    · rwa [hj, update_self]
    · rw [update_of_ne hj]
      exact (hother j hj).1
  refine ⟨hlinked, ?_, fun j => (hlinked j).chain.nodup, ?_⟩
  · intro j
    by_cases hj : j = i
    · rw [hj, update_self, hhead]
    · rw [update_of_ne hj, (hother j hj).2, hf.head]
  · intro j c hc
    rw [Heap.binOf_congr (BlockHeader.size_of_core (hsame.core c))]
    by_cases hj : j = i
    · subst hj
      exact hplace c (by simpa using hc)
    · exact hf.place j c (by simpa [hj] using hc)

/-- `remove_from_free_list` takes a listed block out of its bin. -/
theorem remove (hf : FreeLists h C) {i : ℕ} (hb : b ∈ C i) :
    FreeLists (removeFromFreeList h b) (update C i ((C i).erase b)) := by
  obtain ⟨l₁, l₂, hl⟩ := append_of_mem hb
  have hlink := hf.linked i
  have hnd := hf.nodup i
  rw [hl] at hlink hnd
  have hnot : b ∉ l₁ ++ l₂ := (nodup_cons.mp (nodup_middle.mp hnd)).1
  have hb₁ : b ∉ l₁ := fun hm => hnot (by simp [hm])
  have herase : (C i).erase b = l₁ ++ l₂ := by
    rw [hl, erase_append_right _ hb₁, erase_cons_head]
  have hself : (h.header b).prevFree ≠ some b := by
    intro e
    exact hb₁ (mem_of_getLast? (hlink.fields.1.symm.trans e))
  obtain ⟨hn, hp, hbins⟩ := removeFromFreeList_links h b hself
  have hbin : h.binOf b = i := hf.place i b hb
  apply hf.edit (removeFromFreeList_sameBlocks h b)
  · rw [herase]
    apply hlink.unlink
    · intro c hc
      exact hn c fun e => hnot (e ▸ hc)
    · intro c hc
      exact hp c fun e => hnot (e ▸ hc)
  · rw [hbins, hbin, herase, hlink.head_unlink, ← hl, ← hf.head i]
    split_ifs <;> simp
  · exact fun c hc => hf.place i c (mem_of_mem_erase hc)
  · intro j hj
    -- the cells of the other bins are not touched: the neighbours of `b` are in bin `i`
    have hout : ∀ c ∈ C j, c ∉ C i := fun c hcj hci => hj (hf.bin_unique hcj hci)
    refine ⟨(hf.linked j).congr ?_ ?_, ?_⟩
    · intro c hc
      have hprev : h.prevFree b ≠ some c := fun e => hout c hc ((hf.linked i).prev_mem hb e)
      rw [hn c (fun e => hout c hc (e ▸ hb)), if_neg hprev]
    · intro c hc
      have hnext : h.nextFree b ≠ some c := fun e =>
        hout c hc ((hf.linked i).chain.next_mem hb e)
      rw [hp c (fun e => hout c hc (e ▸ hb)), if_neg hnext]
    · rw [hbins, hbin]
      split_ifs <;> simp [hj]

/-- `add_to_free_list` puts a block in no bin at the head of its own. -/
theorem add (hf : FreeLists h C) (hb : ∀ i, b ∉ C i) : FreeLists (addToFreeList h b)
      (update C (h.binOf b) (b :: C (h.binOf b))) := by
  have hhead : h.bins (h.binOf b) ≠ some b := by
    rw [hf.head]
    exact fun e => hb _ (mem_of_head? e)
  obtain ⟨hnb, hpb, hn, hp, hbins⟩ := addToFreeList_links h b hhead
  have hne : ∀ {i c}, c ∈ C i → c ≠ b := fun {i c} hc e => hb i (e ▸ hc)
  apply hf.edit (addToFreeList_sameBlocks h b)
  · apply (hf.linked _).push
    · rw [hnb, hf.head]
    · exact hpb
    · intro c hc
      exact hn c (hne hc)
    · intro c hc
      rw [hp c (hne hc), hf.head]
  · simp [hbins]
  · exact forall_mem_cons.mpr ⟨rfl, hf.place _⟩
  · intro j hj
    refine ⟨(hf.linked j).congr (fun c hc => hn c (hne hc)) ?_, by rw [hbins, update_of_ne hj]⟩
    intro c hc
    have hout : h.bins (h.binOf b) ≠ some c := by
      rw [hf.head]
      exact fun e => hj (hf.bin_unique hc (mem_of_head? e))
    rw [hp c (hne hc), if_neg hout]

end FreeLists

end UintOS.KernelHeap
