import UintOS.Memory.Heap.Statistics

/-!
# Neighbouring free blocks

`heap_free` merges a block with its free neighbours, so two free blocks never follow one another,
with one exception: `heap_realloc` cuts a block that becomes shorter and does not look at the block
behind it. In a legal and safe run no two consecutive blocks are both free exactly if no block in
front of a free one is cut.
-/

namespace UintOS.KernelHeap

open Links List Machine Option Runs

def Spaced (h : Heap) (L : List ℕ) : Prop :=
  L.IsChain fun b c => ¬ (h.status b = .free ∧ h.status c = .free)

/-- No two consecutive blocks of the physical list are both free. -/
def Coalesced (h : Heap) : Prop := ∃ L, Walk h L ∧ Spaced h L

section Spaced

variable {h h' : Heap} {L l₁ l₂ : List ℕ} {b : ℕ}

theorem Spaced.congr (hs : Spaced h L) (hsta : ∀ c ∈ L, h'.status c = h.status c) :
    Spaced h' L := by
  refine hs.imp_of_mem_imp ?_
  intro b c hb hc hbc
  rwa [hsta b hb, hsta c hc]

/-- A block in use separates what is before it from what is behind it. -/
theorem spaced_used (hu : h.status b = .used) :
    Spaced h (l₁ ++ b :: l₂) ↔ Spaced h l₁ ∧ Spaced h l₂ := by
  simp [Spaced, isChain_append, isChain_cons, hu]

theorem spaced_free (hfree : h.status b = .free) :
    Spaced h (l₁ ++ b :: l₂) ↔ (Spaced h l₁ ∧ ∀ p ∈ l₁.getLast?, h.status p = .used) ∧
      Spaced h l₂ ∧ ∀ c ∈ l₂.head?, h.status c = .used := by
  have hnot : ∀ c, ¬ h.status c = .free ↔ h.status c = .used := by
    intro c
    cases h.status c <;> simp
  simp only [Spaced, isChain_append, isChain_cons, head?_cons, mem_some_iff,
    forall_eq', hfree, true_and, and_true, hnot]
  tauto

theorem spaced_cons_free (hfree : h.status b = .free) :
    Spaced h (b :: l₂) ↔ Spaced h l₂ ∧ ∀ c ∈ l₂.head?, h.status c = .used := by
  have hspaced := @spaced_free h [] l₂ b hfree
  simpa [Spaced] using hspaced

theorem coalesced_iff {t : Ptr} (hp : Phys h t L) : Coalesced h ↔ Spaced h L := by
  constructor
  · rintro ⟨L', hw, hs⟩
    rwa [hp.walk.unique hw]
  · exact fun hs => ⟨L, hp.walk, hs⟩

theorem Coalesced.congr (hc : Coalesced h) (hs : SameBlocks h h') : Coalesced h' := by
  obtain ⟨L, hw, hspaced⟩ := hc
  exact ⟨L, hw.sameBlocks hs, hspaced.congr fun c _ => BlockHeader.status_of_core (hs.core c)⟩

end Spaced

section Edits

variable {h : Heap} {t : Ptr} {L l₁ l₂ : List ℕ} {C : ℕ → List ℕ} {b : ℕ}

variable {size n : ℕ} {h' : Heap} {pages : ℕ → Ptr}

theorem splitBlock_list (hp : Phys h t (l₁ ++ b :: l₂)) (hfit : size + 56 ≤ h.size b) :
    ∃ rest, Phys (splitBlock h b size).1 t (l₁ ++ b :: (rest ++ l₂)) ∧
      (∀ c ∈ l₁ ++ b :: l₂, (splitBlock h b size).1.status c = h.status c) ∧
      if Splits h b size then ∃ n, rest = [n] ∧ (splitBlock h b size).1.status n = .free
      else rest = [] := by
  by_cases hroom : Splits h b size
  · obtain ⟨n, h₁, hnL, hcarve, -, hsame, hphys⟩ := splitBlock_carved hp hfit hroom
    have hsta : ∀ c, (splitBlock h b size).1.status c = h₁.status c :=
      fun c => BlockHeader.status_of_core (hsame.core c)
    refine ⟨[n], hphys, ?_, ?_⟩
    · exact fun c hc => (hsta c).trans (hcarve.status fun e => hnL (e ▸ hc))
    · rw [if_pos hroom]
      exact ⟨n, rfl, by rw [hsta]; simp [Heap.status, hcarve.fresh]⟩
  · refine ⟨[], ?_, ?_, if_neg hroom ▸ rfl⟩
    · rw [splitBlock_eq, if_neg hroom]
      exact hp
    · intro c _
      rw [splitBlock_eq, if_neg hroom]

/-- A block in use that was cut: the rest must not stand before a free block. -/
theorem spaced_split {rest : List ℕ} (hu : h'.status b = .used)
    (hsta : ∀ c ∈ l₁ ++ l₂, h'.status c = h.status c) {cut : Prop} [Decidable cut]
    (hrest : if cut then ∃ n, rest = [n] ∧ h'.status n = .free else rest = []) :
    Spaced h' (l₁ ++ b :: (rest ++ l₂)) ↔
      Spaced h l₁ ∧ Spaced h l₂ ∧ (cut → ∀ c ∈ l₂.head?, h.status c = .used) := by
  have hcongr : ∀ l, (∀ c ∈ l, c ∈ l₁ ++ l₂) → (Spaced h' l ↔ Spaced h l) := by
    intro l hl
    exact ⟨fun hs => hs.congr fun c hc => (hsta c (hl c hc)).symm,
      fun hs => hs.congr fun c hc => hsta c (hl c hc)⟩
  have h₁ := hcongr l₁ (by simp +contextual)
  have h₂ := hcongr l₂ (by simp +contextual)
  rw [spaced_used hu, h₁]
  refine and_congr_right fun _ => ?_
  split_ifs at hrest with hcut
  · obtain ⟨n, rfl, hfree⟩ := hrest
    have hhead : (∀ c ∈ l₂.head?, h'.status c = .used) ↔ ∀ c ∈ l₂.head?, h.status c = .used := by
      refine forall₂_congr fun c hc => ?_
      rw [hsta c (mem_append_right _ (mem_of_mem_head? hc))]
    rw [singleton_append, spaced_cons_free hfree, h₂, hhead]
    simp [hcut]
  · subst hrest
    simp [h₂, hcut]

theorem takeBlock_coalesced (hi : Inv h t L C) (hb : b ∈ L) (hfree : h.status b = .free)
    (hfit : size ≤ h.payload b) (hc : Coalesced h) : Coalesced (takeBlock h b size).1 := by
  have hsb := hi.phys.sound b hb
  have hlarge := hsb.large
  rw [hsb.payload] at hfit
  have hspaced := (coalesced_iff hi.phys).mp hc
  obtain ⟨l₁, l₂, rfl⟩ := append_of_mem hb
  obtain ⟨⟨hs₁, -⟩, hs₂, hhead⟩ := (spaced_free hfree).mp hspaced
  have hsame := removeFromFreeList_sameBlocks h b
  have hp₁ := hi.phys.sameBlocks hsame
  have hfit₁ : size + 56 ≤ (removeFromFreeList h b).size b := by
    rw [hsame.sameTags.size b]
    omega
  obtain ⟨rest, hp₂, hstatus₂, hrest⟩ := splitBlock_list hp₁ hfit₁
  rw [takeBlock_eq]
  dsimp only
  generalize (splitBlock (removeFromFreeList h b) b size).1 = h₂ at *
  have hb₂ : b ∈ l₁ ++ b :: (rest ++ l₂) := by simp
  obtain ⟨hwalk, -, hused, -⟩ := setStatus_edit hp₂ hb₂ .used rfl
  have hother : ∀ c, c ≠ b → (h₂.modify b fun c => { c with status := .used }).status c =
      h₂.status c := fun c hcb => by simp [Heap.status, hcb]
  generalize (h₂.modify b fun c => { c with status := .used }) = h₃ at *
  refine Coalesced.congr ⟨_, hwalk, ?_⟩ (noteAlloc_sameState h₃ b size).sameBlocks
  have hnodup := nodup_middle.mp hi.phys.nodup
  have hnodup₂ := nodup_middle.mp hp₂.nodup
  have hne : ∀ c ∈ l₁ ++ (rest ++ l₂), c ≠ b := by
    rintro c hc rfl
    exact (nodup_cons.mp hnodup₂).1 hc
  have hkeep : ∀ c ∈ l₁ ++ l₂, h₃.status c = h.status c := by
    intro c hc
    have hcb : c ≠ b := by
      rintro rfl
      exact (nodup_cons.mp hnodup).1 hc
    rw [hother c hcb, hstatus₂ c (by simp at hc ⊢; tauto), removeFromFreeList_status]
  have hrest₃ : if Splits (removeFromFreeList h b) b size then
      ∃ n, rest = [n] ∧ h₃.status n = .free else rest = [] := by
    split_ifs at hrest ⊢
    · obtain ⟨n, rfl, hn⟩ := hrest
      exact ⟨n, rfl, (hother n (hne n (by simp))).trans hn⟩
    · exact hrest
  exact (spaced_split hused hkeep hrest₃).mpr ⟨hs₁, hs₂, fun _ => hhead⟩

theorem splitBlock_coalesced_iff (hp : Phys h t L) (hb : b ∈ L) (hu : h.status b = .used)
    (hfit : size + 56 ≤ h.size b) (hc : Coalesced h) :
    Coalesced (splitBlock h b size).1 ↔ (Splits h b size → ∀ c ∈ h.next b, h.status c = .used) := by
  have hspaced := (coalesced_iff hp).mp hc
  obtain ⟨l₁, l₂, rfl⟩ := append_of_mem hb
  obtain ⟨hs₁, hs₂⟩ := (spaced_used hu).mp hspaced
  obtain ⟨rest, hp', hsta, hrest⟩ := splitBlock_list hp hfit
  have hu' := (hsta b (by simp)).trans hu
  have hkeep : ∀ c ∈ l₁ ++ l₂, (splitBlock h b size).1.status c = h.status c :=
    fun c hc => hsta c (by simp at hc ⊢; tauto)
  rw [coalesced_iff hp', spaced_split hu' hkeep hrest, hp.linked.fields.2]
  simp [hs₁, hs₂]

/-- A block in use that grows over its free successor: behind that is a block in use. -/
theorem growInto_coalesced (hi : Inv h none L C) (hb : b ∈ L) (hu : h.status b = .used)
    (hn : h.next b = some n) (hfree : h.status n = .free)
    (hfit : size ≤ sub32 (sub32 (add32 (h.size b) (h.size n)) headerSize) footerSize)
    (hc : Coalesced h) : Coalesced (growInto h b n size) := by
  have hspaced := (coalesced_iff hi.phys).mp hc
  obtain ⟨L₁, hp₁, hb₁, -, hst₁, hsize₁⟩ := absorb_edit hi.phys hb hn hfree (by simp)
  have hsum : size + 56 ≤ (absorb (removeFromFreeList h n) b n).size b := by
    have := (hp₁.sound b hb₁).size_lt
    have := (hi.phys.sound b hb).large
    rw [hsize₁] at *
    unfold sub32 add32 headerSize footerSize at hfit
    omega
  obtain ⟨l₁, l₂, rfl⟩ := hi.phys.split_next hb hn
  obtain ⟨-, hp', hsta⟩ := absorb_absorbed hi.phys hfree (by simp)
  unfold growInto
  dsimp only
  generalize absorb (removeFromFreeList h n) b n = h₁ at *
  obtain ⟨hs₁, hrest⟩ := (spaced_used hu).mp hspaced
  obtain ⟨hs₂, hhead⟩ := (spaced_cons_free hfree).mp hrest
  have hu₁ := hst₁.trans hu
  have hc₁ : Coalesced h₁ := by
    rw [coalesced_iff hp', spaced_used hu₁]
    exact ⟨hs₁.congr fun c _ => hsta c, hs₂.congr fun c _ => hsta c⟩
  split_ifs
  · rw [splitBlock_coalesced_iff hp' (by simp) hu₁ hsum hc₁, hp'.linked.fields.2]
    intro _ c hc
    rw [hsta]
    exact hhead c hc
  · exact hc₁

/-- The forward half of `merge_blocks`: the block is free, with a predecessor in use. -/
theorem mergeNext_coalesced (hp : Phys h (some b) (l₁ ++ b :: l₂)) (hfree : h.status b = .free)
    (hs₁ : Spaced h l₁) (hs₂ : Spaced h l₂) (hlast : ∀ p ∈ l₁.getLast?, h.status p = .used) :
    Coalesced (mergeNext h b).1 := by
  have hnext : (h.header b).next = l₂.head? := hp.linked.fields.2
  unfold mergeNext
  cases l₂ with
  | nil =>
    rw [hnext]
    exact ⟨_, hp.walk, (spaced_free hfree).mpr ⟨⟨hs₁, hlast⟩, hs₂, by simp⟩⟩
  | cons n l₂ =>
    rw [hnext]
    dsimp only [head?_cons]
    by_cases hn : h.status n = .free
    · have hn' : (h.header n).status = .free := hn
      have hne : (some b : Ptr) ≠ some n := by
        intro e
        cases e
        exact hp.linked.chain.next_ne_self (by simp) hnext
      obtain ⟨-, hp', hsta⟩ := absorb_absorbed hp hn hne
      obtain ⟨hs₂, hhead⟩ := (spaced_cons_free hn).mp hs₂
      rw [if_pos hn', (hp.sound n (by simp)).validateBlock]
      refine Coalesced.congr ⟨_, hp'.walk, ?_⟩ (noteMerged_sameState _).sameBlocks
      refine (spaced_free ((hsta b).trans hfree)).mpr ⟨⟨?_, ?_⟩, ?_, ?_⟩
      · exact hs₁.congr fun c _ => hsta c
      · exact fun p hp => (hsta p).trans (hlast p hp)
      · exact hs₂.congr fun c _ => hsta c
      · exact fun c hc => (hsta c).trans (hhead c hc)
    · have hn' : (h.header n).status ≠ .free := hn
      rw [if_neg hn']
      refine ⟨_, hp.walk, (spaced_free hfree).mpr ⟨⟨hs₁, hlast⟩, hs₂, ?_⟩⟩
      intro c hc
      obtain rfl : n = c := by simpa using hc
      cases hst : h.status n with
      | free => exact absurd hst hn
      | used => rfl

section

variable (hi : Inv h none L C)
include hi

theorem releaseBlock_coalesced (hb : b ∈ L) (hu : h.status b = .used)
    (hpred : PredUsed h b) (hc : Coalesced h) : Coalesced (releaseBlock h b) := by
  have hspaced := (coalesced_iff hi.phys).mp hc
  rw [releaseBlock_eq hi hb hu hpred rfl]
  obtain ⟨hheld, hfree, hsta, -⟩ := noteFree_held hi hb hu rfl
  generalize noteFree (h.modify b fun c => { c with status := .free }) b = h₁ at *
  obtain ⟨l₁, l₂, rfl⟩ := append_of_mem hb
  obtain ⟨hs₁, hs₂⟩ := (spaced_used hu).mp hspaced
  have hnodup := (nodup_cons.mp (nodup_middle.mp hi.phys.nodup)).1
  have hkeep : ∀ c ∈ l₁ ++ l₂, h₁.status c = h.status c := by
    intro c hc
    apply hsta
    rintro rfl
    exact hnodup hc
  refine (mergeNext_coalesced hheld.phys hfree ?_ ?_ ?_).congr (addToFreeList_sameBlocks _ b)
  · exact hs₁.congr fun c hc => hkeep c (by simp [hc])
  · exact hs₂.congr fun c hc => hkeep c (by simp [hc])
  · intro p hp
    rw [hkeep p (mem_append_left _ (mem_of_getLast? hp))]
    exact hpred p (hi.phys.linked.fields.1.trans hp)

theorem heapFree_coalesced (hb : b ∈ L) (hu : h.status b = .used)
    (hg : looksGuarded (b + 40) = false) (hpred : PredUsed h b) (hc : Coalesced h) :
    Coalesced (heapFree h (some (b + 40))) := by
  rw [heapFree_block (hi.phys.sound b hb) hu hg]
  exact releaseBlock_coalesced hi hb hu hpred hc

theorem heapExtend_coalesced (hfr : Fresh pages h) {minSize : ℕ}
    (hmin : 56 ≤ minSize) (hmax : minSize ≤ 8192)
    (hpages : pages (extensionSize minSize / pageSize) = some n)
    (hlast : ∀ last, lastBlock h = some last → h.status last = .used) (hc : Coalesced h)
    (he : heapExtend pages h minSize = some (h', some n)) : Coalesced h' := by
  have hspaced := (coalesced_iff hi.phys).mp hc
  obtain ⟨h₀, l, last, hh₀, rfl, hn, hheld, hfree, hsize, hkeep, hlast', he'⟩ :=
    heapExtend_eq hi hfr hmin hmax hpages
  have hused := hlast last hlast'
  simp only [he, hused, reduceCtorEq, if_false] at he'
  obtain rfl : h' = attach (formatPages h₀ n (extensionSize minSize)) last n
      (extensionSize minSize) := congrArg Prod.fst (some.inj he')
  generalize extensionSize minSize = e at *
  have hsame := (addToFreeList_sameBlocks (append h₀ last n e) n).trans
    (attach_sameState h₀ last n e).sameBlocks
  refine Coalesced.congr ⟨_, hheld.phys.walk, ?_⟩ hsame
  have hused' : (append h₀ last n e).status last = .used := (hkeep last (by simp)).1.trans hused
  refine (spaced_used hused').mpr ⟨?_, by simp [Spaced]⟩
  exact ((spaced_used hused).mp hspaced).1.congr fun c hc => (hkeep c (by simp [hc])).1

theorem heapAlloc_coalesced (hfr : Fresh pages h) {request : ℕ}
    (hext : ExtendsUsed pages h request) (hc : Coalesced h) {r : Ptr}
    (he : heapAlloc pages h request = some (h', r)) : Coalesced h' := by
  unfold heapAlloc at he
  unfold ExtendsUsed at hext
  dsimp only at he
  generalize allocSize request = size at *
  split_ifs at he with hlarge
  · obtain ⟨h₁, r₁, he₁, hsame, -⟩ := guardedAlloc_spec hfr size
    rw [he₁] at he
    cases he
    exact hc.congr hsame.sameBlocks
  · have hsmall := Nat.lt_of_not_le hlarge
    obtain ⟨r₁, hr₁, hfound⟩ := findFreeBlock_spec hi size
    rw [hr₁] at he
    cases r₁ with
    | some b =>
      obtain ⟨hb, hfree, hfit⟩ := hfound b rfl
      have hcoalesced := takeBlock_coalesced hi hb hfree hfit hc
      rw [some.inj he] at hcoalesced
      exact hcoalesced
    | none =>
      rw [requiredSize_of_small hsmall] at he hext
      cases hp : pages (extensionSize (size + 56) / pageSize) with
      | none =>
        obtain ⟨h₁, he₁, hsame⟩ := heapExtend_none (h := h) hp
        rw [he₁] at he
        cases he
        exact hc.congr hsame.sameBlocks
      | some n =>
        have hlast := hext hsmall hr₁ (by simp [hp])
        have hmax : size + 56 ≤ 8192 := by
          unfold pageSize at hsmall
          omega
        obtain ⟨h₁, L₁, C₁, he₁, hinv, hn, -, hfree, hsize, -⟩ :=
          heapExtend_spec hi hfr (by omega) hmax hp hlast
        have hc₁ := heapExtend_coalesced hi hfr (by omega) hmax hp hlast hc he₁
        have hfit : size ≤ h₁.payload n := by
          have := (extensionSize_spec hmax).2
          rw [(hinv.phys.sound n hn).payload, hsize]
          omega
        have hcoalesced := takeBlock_coalesced hinv hn hfree hfit hc₁
        rw [he₁] at he
        rw [some.inj he] at hcoalesced
        exact hcoalesced

theorem moveTo_coalesced (hfr : Fresh pages h) (hb : b ∈ L)
    (hu : h.status b = .used) (hg : looksGuarded (b + 40) = false) (hpred : PredUsed h b)
    {current : ℕ} (hext : ExtendsUsed pages h size) (hc : Coalesced h) {r : Ptr}
    (he : moveTo pages h (b + 40) size current = some (h', r)) : Coalesced h' := by
  obtain ⟨h₁, r₁, L₁, C₁, he₁, hinv, hframe, -⟩ := heapAlloc_spec hi hfr hext
  have hc₁ := heapAlloc_coalesced hi hfr hext hc he₁
  unfold moveTo at he
  rw [he₁] at he
  cases r₁ with
  | none =>
    cases he
    exact hc₁
  | some q =>
    have hsame := copyBytes_sameState h₁ q (b + 40) current
    obtain ⟨hb₁, hu₁, hpred₁⟩ := hframe b hb hu
    obtain ⟨-, hu₂, hpred₂⟩ := Frame.of_sameState (L := L₁) hsame b hb₁ hu₁
    cases he
    exact heapFree_coalesced (hinv.congr hsame) hb₁ hu₂ hg (hpred₂ (hpred₁ hpred))
      (hc₁.congr hsame.sameBlocks)

end

end Edits

namespace Client

/-- A block that becomes shorter is not cut in front of a free block. -/
def Tight (s : Client) : Op → Prop
  | .realloc (some p) size _ => p ∈ s.live → size ≠ 0 →
    alignSize size ≤ s.heap.payload (dataToHeader p) →
    Splits s.heap (dataToHeader p) (alignSize size) →
    ∀ c ∈ s.heap.next (dataToHeader p), s.heap.status c = .used
  | _ => True

instance (s : Client) : DecidablePred s.Tight
  | .realloc (some _) _ _ => inferInstanceAs (Decidable (_ → _ → _ → _ → ∀ c ∈ _, _ = _))
  | .alloc _ _ | .free _ | .realloc none _ _ => inferInstanceAs (Decidable True)

variable {p size : ℕ} {pages : ℕ → Ptr}

theorem step_realloc_heap {s t : Client} (ht : s.step (.realloc (some p) size pages) = some t) :
    ∃ r, heapRealloc pages s.heap (some p) size = some (t.heap, r) := by
  obtain ⟨⟨h', r⟩, he, ht⟩ := map_eq_some_iff.mp ht
  refine ⟨r, he.trans ?_⟩
  subst ht
  dsimp only
  split_ifs <;> simp [receive_heap]

variable {s t : Client} {L : List ℕ} {C : ℕ → List ℕ}

theorem safe_of_fits (hp : p ∈ s.live) (hg : looksGuarded p = false) (hsize : size ≠ 0)
    (hfit : alignSize size ≤ s.heap.payload (dataToHeader p)) :
    s.Safe (.realloc (some p) size pages) := by
  simp only [Safe, if_pos hp]
  refine ⟨hg, ?_, fun _ hm => absurd hfit hm.1⟩
  rintro (hzero | hm)
  · exact absurd hzero hsize
  · exact absurd hfit hm.1

section

variable {h' : Heap} (hs : ClientInv s L C)
include hs

theorem free_coalesced (hp : p ∈ s.live ∨ p ∈ s.guarded)
    (hret : p ∈ s.live → Returnable s.heap p) (hc : Coalesced s.heap) :
    Coalesced (heapFree s.heap (some p)) := by
  by_cases hlive : p ∈ s.live
  · obtain ⟨b, hb, rfl, hu⟩ := hs.live p hlive
    obtain ⟨hg, hpred⟩ := hret hlive
    rw [(hs.inv.phys.sound b hb).dataToHeader] at hpred
    exact heapFree_coalesced hs.inv hb hu hg hpred hc
  · have hgrd := hs.guarded p (hp.resolve_left hlive)
    exact hc.congr (heapFree_guarded s.heap hgrd).sameBlocks

/-- A resized block is cut, grows over its successor, or moves. -/
theorem realloc_coalesced_iff (hsize : size ≠ 0) (hp : p ∈ s.live)
    (hfr : Fresh pages s.heap) (hg : looksGuarded p = false)
    (hret : Moves s.heap (dataToHeader p) (alignSize size) → Returnable s.heap p)
    (hext : Moves s.heap (dataToHeader p) (alignSize size) →
      ExtendsUsed pages s.heap (alignSize size)) (hc : Coalesced s.heap) {r : Ptr}
    (he : heapRealloc pages s.heap (some p) size = some (h', r)) :
    Coalesced h' ↔ s.Tight (.realloc (some p) size pages) := by
  obtain ⟨b, hb, rfl, hu⟩ := hs.live p hp
  have hsb := hs.inv.phys.sound b hb
  rw [heapRealloc_block hsb hsize hg] at he
  unfold Returnable at hret
  simp only [Tight, hsb.dataToHeader] at hret hext ⊢
  by_cases hfit : alignSize size ≤ s.heap.payload b
  · have hfit' : alignSize size + 56 ≤ s.heap.size b := by
      have := hsb.large
      rw [hsb.payload] at hfit
      omega
    have hcut : (if 64 ≤ sub32 (s.heap.payload b) (alignSize size) then
        (splitBlock s.heap b (alignSize size)).1 else s.heap) =
        (splitBlock s.heap b (alignSize size)).1 := by
      split_ifs with hworth
      · rfl
      · have hno : ¬ Splits s.heap b (alignSize size) := by
          have hlt := hsb.size_lt
          rw [splits_iff hsb hfit']
          rw [hsb.payload] at hworth
          unfold sub32 at hworth
          omega
        rw [splitBlock_eq, if_neg hno]
    unfold reallocBlock at he
    dsimp only at he
    rw [if_pos hfit, hcut] at he
    cases he
    rw [splitBlock_coalesced_iff hs.inv.phys hb hu hfit' hc]
    simp [hp, hsize, hfit]
  · refine iff_of_true ?_ (fun _ _ hle => absurd hle hfit)
    by_cases hm : Moves s.heap b (alignSize size)
    · rw [reallocBlock_of_moves hm] at he
      exact moveTo_coalesced hs.inv hfr hb hu hg (hret hm).2 (hext hm) hc he
    · obtain ⟨c, hn, hfree, hle, he'⟩ := reallocBlock_of_grows pages (b + 40) hfit hm
      rw [he] at he'
      cases he'
      exact growInto_coalesced hs.inv hb hu hn hfree hle hc

theorem realloc_guarded_coalesced (hsize : size ≠ 0) (hp : p ∈ s.guarded)
    (hfr : Fresh pages s.heap)
    (hext : guardedSize s.heap p < alignSize size → ExtendsUsed pages s.heap (alignSize size))
    (hc : Coalesced s.heap) {r : Ptr}
    (he : heapRealloc pages s.heap (some p) size = some (h', r)) : Coalesced h' := by
  have hg := hs.guarded p hp
  simp only [heapRealloc, if_neg hsize, if_pos hg] at he
  split_ifs at he with hfit
  · cases he
    exact hc
  · obtain ⟨h₁, r₁, -, -, he₁, -, -, -⟩ := heapAlloc_spec hs.inv hfr (hext (by omega))
    have hc₁ := heapAlloc_coalesced hs.inv hfr (hext (by omega)) hc he₁
    unfold moveTo at he
    rw [he₁] at he
    cases r₁ with
    | none =>
      cases he
      exact hc₁
    | some q =>
      cases he
      exact hc₁.congr ((copyBytes_sameState h₁ q p _).trans (heapFree_guarded _ hg)).sameBlocks

/-- A call of a legal and safe run keeps free blocks apart exactly if it is tight. -/
theorem step_coalesced_iff {op : Op} (hlegal : s.Legal op) (hsafe : s.Safe op)
    (hc : Coalesced s.heap) (ht : s.step op = some t) : Coalesced t.heap ↔ s.Tight op := by
  cases op with
  | alloc size pages =>
    refine iff_of_true ?_ trivial
    obtain ⟨⟨h', r⟩, he, rfl⟩ := map_eq_some_iff.mp ht
    rw [receive_heap]
    exact heapAlloc_coalesced hs.inv hlegal hsafe hc he
  | free ptr =>
    refine iff_of_true ?_ trivial
    cases ptr with
    | none =>
      cases ht
      exact hc
    | some p =>
      cases ht
      exact free_coalesced hs (hlegal p rfl) (fun hp => hsafe p hp rfl) hc
  | realloc ptr size pages =>
    obtain ⟨hfr, hheld⟩ := hlegal
    cases ptr with
    | none =>
      refine iff_of_true ?_ trivial
      obtain ⟨⟨h', r⟩, he, rfl⟩ := map_eq_some_iff.mp ht
      rw [receive_heap]
      exact heapAlloc_coalesced hs.inv hfr hsafe hc he
    | some p =>
      obtain ⟨r, he⟩ := step_realloc_heap ht
      by_cases hsize : size = 0
      · refine iff_of_true ?_ (fun _ hne => absurd hsize hne)
        have hret : p ∈ s.live → Returnable s.heap p := by
          intro hp
          simp only [Safe, if_pos hp] at hsafe
          exact hsafe.2.1 (.inl hsize)
        have hfree : heapRealloc pages s.heap (some p) size =
            some (heapFree s.heap (some p), none) := by simp [heapRealloc, hsize]
        rw [hfree] at he
        have hheap : heapFree s.heap (some p) = t.heap := congrArg Prod.fst (some.inj he)
        rw [← hheap]
        exact free_coalesced hs (hheld p rfl) hret hc
      · by_cases hp : p ∈ s.live
        · simp only [Safe, if_pos hp] at hsafe
          obtain ⟨hg, hret, hext⟩ := hsafe
          exact realloc_coalesced_iff hs hsize hp hfr hg (fun hm => hret (.inr hm))
            (hext hsize) hc he
        · simp only [Safe, if_neg hp] at hsafe
          refine iff_of_true ?_ (fun hlive => absurd hlive hp)
          exact realloc_guarded_coalesced hs hsize ((hheld p rfl).resolve_left hp) hfr
            (hsafe hsize) hc he

end

end Client

section Runs

variable (sizeofHeap : ℕ) (header : ℕ → BlockHeader) (footer : ℕ → BlockFooter)
  (byte : ℕ → UInt8) (start size : ℕ)

theorem heapCreate_coalesced (hpos : 0 < sizeofHeap) (hroom : sizeofHeap + 71 ≤ heapMinSize)
    (hregion : start + max size heapMinSize ≤ 4294967296) :
    ∃ L C, ClientInv (Client.create sizeofHeap header footer byte start size) L C ∧
      Coalesced (Client.create sizeofHeap header footer byte start size).heap := by
  obtain ⟨L, C, hinv⟩ := heapCreate_inv sizeofHeap header footer byte start size hpos hroom hregion
  refine ⟨L, C, ⟨hinv, by simp [Client.create], by simp [Client.create],
    by simp [Client.create]⟩, ?_⟩
  obtain ⟨h, he, hheader, -, -, hstart, -⟩ :=
    heapCreate_spec sizeofHeap header footer byte start size rfl rfl
  unfold Client.create
  dsimp only
  rw [he]
  refine ⟨[h.start], ⟨⟨?_, trivial⟩, rfl⟩, by simp [Spaced]⟩
  rw [hstart]
  simp [Heap.next, hheader]

/-- A legal and safe run returns, and no two consecutive blocks are ever both free exactly if no
block that becomes shorter is cut in front of a free one. -/
theorem free_blocks_apart_iff (hpos : 0 < sizeofHeap) (hroom : sizeofHeap + 71 ≤ heapMinSize)
    (hregion : start + max size heapMinSize ≤ 4294967296) (ops : List Op)
    (hops : Meets Client.step (fun s op => s.Legal op ∧ s.Safe op)
      (Client.create sizeofHeap header footer byte start size) ops) :
    (exec Client.step (Client.create sizeofHeap header footer byte start size) ops).isSome ∧
      (Throughout Client.step (fun s => Coalesced s.heap)
          (Client.create sizeofHeap header footer byte start size) ops ↔
        Meets Client.step Client.Tight
          (Client.create sizeofHeap header footer byte start size) ops) := by
  refine ⟨(Client.completes sizeofHeap header footer byte start size hpos hroom hregion _
    hops).1, ?_⟩
  apply throughout_iff_meets_of_meets Client.step
    (I := fun s => ∃ L C, ClientInv s L C ∧ Coalesced s.heap) _ _
    (heapCreate_coalesced sizeofHeap header footer byte start size hpos hroom hregion) hops
  · rintro s ⟨L, C, -, hc⟩
    exact hc
  · rintro s op ⟨L, C, hs, hc⟩ ⟨hlegal, hsafe⟩
    obtain ⟨t, L', C', ht, hinv⟩ := Client.step_inv hs hlegal hsafe
    have hiff := Client.step_coalesced_iff hs hlegal hsafe hc ht
    exact ⟨t, ht, fun htight => ⟨L', C', hinv, hiff.mpr htight⟩, mt hiff.mp⟩

/-- Two allocations: the first is made shorter and the second handed back. -/
theorem free_blocks_apart_zeroed : Throughout Client.step (fun s => Coalesced s.heap) (zeroed 8192)
      [.alloc 512 noPages, .alloc 16 noPages, .realloc (some 0x200068) 16 noPages] := by
  refine (free_blocks_apart_iff 64 _ _ _ 0x200000 8192 (by decide) (by decide)
    (by decide) _ ?_).2.mpr
    (by decide)
  refine meets_cons _ ⟨fresh_noPages _, extendsUsed_noPages _ _⟩ (by decide) ?_
  refine meets_cons _ ⟨fresh_noPages _, extendsUsed_noPages _ _⟩ (by decide) ?_
  refine meets_cons _ ⟨⟨fresh_noPages _, ?_⟩, ?_⟩ (by decide) trivial
  · rintro p ⟨⟩
    exact .inl (by decide)
  · exact Client.safe_of_fits (by decide) (by decide) (by decide) (by decide)

/-- The block is cut in front of the free block left of the heap. -/
theorem free_blocks_meet : Meets Client.step Client.Legal (zeroed 8192)
      [.alloc 512 noPages, .realloc (some 0x200068) 16 noPages] ∧
    ∃ t, exec Client.step (zeroed 8192)
        [.alloc 512 noPages, .realloc (some 0x200068) 16 noPages] = some t ∧
      Walk t.heap [0x200040, 0x200088, 0x200278] ∧ t.heap.status 0x200088 = .free ∧
      t.heap.status 0x200278 = .free ∧ ¬ Coalesced t.heap := by
  constructor
  · refine meets_cons _ (fresh_noPages _) (by decide) ?_
    refine meets_cons _ ⟨fresh_noPages _, ?_⟩ (by decide) trivial
    rintro p ⟨⟩
    exact .inl (by decide)
  · have hrun : (exec Client.step (zeroed 8192)
        [.alloc 512 noPages, .realloc (some 0x200068) 16 noPages]).map (fun t =>
          (t.heap.start, t.heap.next 0x200040, t.heap.next 0x200088, t.heap.next 0x200278,
            t.heap.status 0x200088, t.heap.status 0x200278)) =
        some (0x200040, some 0x200088, some 0x200278, none, .free, .free) := by decide
    obtain ⟨t, ht, hval⟩ := map_eq_some_iff.mp hrun
    simp only [Prod.mk.injEq] at hval
    obtain ⟨hstart, hnext, hnext', hlast, hfree, hfree'⟩ := hval
    have hwalk : Walk t.heap [0x200040, 0x200088, 0x200278] :=
      ⟨⟨hnext, hnext', hlast, trivial⟩, by rw [hstart]; rfl⟩
    refine ⟨t, ht, hwalk, hfree, hfree', ?_⟩
    rintro ⟨L, hw, hspaced⟩
    obtain rfl := hw.unique hwalk
    simp [Spaced, hfree, hfree'] at hspaced

end Runs

end UintOS.KernelHeap
