import UintOS.Memory.Paging.Model

/-!
# The state after `paging_init`

The first 256 pages are reserved and all others free, those of the page-information array among
them; nothing has a reference; the three protected regions are registered, and the kernel half of
the directory maps the first 16 MiB.
-/

namespace UintOS.PageManager

open Machine PageTable Loops

namespace Paging

variable (s : Paging)

theorem pageState_setState (i k : ℕ) (v : UInt8) :
    (s.setState i v).pageState k = if k = i then v else s.pageState k := by
  unfold setState pageState fill pageInfo
  by_cases hk : k = i
  · subst hk
    simp
  · dsimp only
    rw [if_neg (by omega), if_neg hk]

variable (i k v : ℕ)

theorem pageState_setReferences : (s.setReferences i v).pageState k = s.pageState k :=
  write16_of_out (by unfold pageInfo; omega)

theorem pageState_setFlags : (s.setFlags i v).pageState k = s.pageState k :=
  write32_of_out (by unfold pageInfo; omega)

theorem pageState_setOwner : (s.setOwner i v).pageState k = s.pageState k :=
  write32_of_out (by unfold pageInfo; omega)

theorem references_setState (i k : ℕ) (v : UInt8) :
    (s.setState i v).references k = s.references k :=
  read16_congr fun x _ _ => fill_of_out (by unfold pageInfo at *; omega) v

theorem references_setFlags : (s.setFlags i v).references k = s.references k :=
  read16_congr fun x _ _ => write32_of_out (by unfold pageInfo at *; omega)

theorem references_setOwner : (s.setOwner i v).references k = s.references k :=
  read16_congr fun x _ _ => write32_of_out (by unfold pageInfo at *; omega)

theorem references_setReferences (hv : v < 65536) :
    (s.setReferences i v).references k = if k = i then v else s.references k := by
  split_ifs with hk
  · subst hk
    exact read16_write16 hv
  · exact read16_congr fun x _ _ => write16_of_out (by unfold pageInfo at *; omega)

end Paging

/-- What the reservation loop leaves in the array after `n` rounds. -/
structure Reserved (total n : ℕ) (s : Paging) : Prop where
  totalPages : s.totalPages = total
  reserved : ∀ k < n, s.pageState k = pageReserved
  free : ∀ k, n ≤ k → k < total → s.pageState k = pageFree
  references : ∀ k < total, s.references k = 0
  freePages : s.freePages = total - n
  regions : s.protectedRegions = []

variable {n i total tables index : ℕ} {s : Paging}

theorem reservePage_spec (hs : Reserved total n s) (hn : n < total)
    (htotal : total < 4294967296) : Reserved total (n + 1) (reservePage s n) := by
  have hst : ∀ k, (reservePage s n).pageState k =
      if k = n then pageReserved else s.pageState k := by
    intro k
    have h := (s.setState n pageReserved).pageState_setFlags n k (pageFlagPresent + pageFlagGlobal)
    rw [Paging.pageState_setState] at h
    exact h
  constructor
  · exact hs.totalPages
  · intro k hk
    rw [hst]
    split_ifs with hkn
    · rfl
    · exact hs.reserved k (by omega)
  · intro k hk hkt
    rw [hst, if_neg (by omega)]
    exact hs.free k (by omega) hkt
  · intro k hk
    have h := (s.setState n pageReserved).references_setFlags n k (pageFlagPresent + pageFlagGlobal)
    rw [Paging.references_setState, hs.references k hk] at h
    exact h
  · have h := hs.freePages
    show sub32 s.freePages 1 = _
    rw [h, sub32_eq (by omega) (by omega)]
    omega
  · exact hs.regions

structure LowChange (s s' : Paging) : Prop where
  mem : ∀ x, 0xA000 ≤ x → s'.mem x = s.mem x
  totalPages : s'.totalPages = s.totalPages
  freePages : s'.freePages = s.freePages
  regions : s'.protectedRegions = s.protectedRegions
  directory : s'.currentPageDirectory = s.currentPageDirectory

theorem LowChange.trans {s' s'' : Paging} (h : LowChange s s') (h' : LowChange s' s'') :
    LowChange s s'' where
  mem x hx := (h'.mem x hx).trans (h.mem x hx)
  totalPages := h'.totalPages.trans h.totalPages
  freePages := h'.freePages.trans h.freePages
  regions := h'.regions.trans h.regions
  directory := h'.directory.trans h.directory

theorem identityTable_lowChange (htables : tables + 4096 * i ≤ 0x9000)
    (hdir : s.currentPageDirectory = 0x1000)
    (hindex : index + i < 1024) : LowChange s (identityTable tables index s i) := by
  refine ⟨?_, rfl, rfl, rfl, rfl⟩
  intro x hx
  unfold identityTable Paging.writeEntry Paging.zero setEntry pageTableEntries pageSize
  dsimp only
  rw [hdir, write32_of_out (by omega), storeWords_of_out (by omega), fill_of_out (by omega)]

theorem identityTables_lowChange (htables : tables ≤ 0x6000)
    (hdir : s.currentPageDirectory = 0x1000) (hindex : index + 4 ≤ 1024) :
    LowChange s ((List.range 4).foldl (identityTable tables index) s) := by
  refine foldl_range (P := fun _ t => LowChange s t) ⟨fun _ _ => rfl, rfl, rfl, rfl, rfl⟩ ?_
  intro i t hi ht
  have hroom : tables + 4096 * i ≤ 0x9000 := by omega
  have hone : LowChange t (identityTable tables index t i) :=
    identityTable_lowChange hroom (ht.directory.trans hdir) (by omega)
  exact ht.trans hone

theorem protectRegion_eq (s : Paging) (start stop flags : ℕ) (name : String)
    (hlen : s.protectedRegions.length < 32) : (protectRegion s start stop flags name).1 =
      { s with protectedRegions := s.protectedRegions ++ [⟨start, stop, flags, name⟩] } := by
  unfold protectRegion maxProtectedRegions
  rw [if_neg (by omega)]

/-- The first `n` kernel tables are filled and in the directory at `0x1000`. -/
structure KernelMapped (n : ℕ) (s : Paging) : Prop where
  directory : s.currentPageDirectory = 0x1000
  tables : ∀ j < 256, entry s.mem 0x1000 (768 + j) = if j < n then 0x6003 + 4096 * j else 0
  pages : ∀ j < n, ∀ k < 1024, entry s.mem (0x6000 + 4096 * j) k = (j * 1024 + k) * 4096 + 0x103

theorem identityTable_entry {q : ℕ} (hs : s.currentPageDirectory = 0x1000)
    (htables : 0x2000 ≤ tables ∧ tables ≤ 0x6000) (hi : i < 4) (hq : q < 1024) :
    entry (identityTable tables index s i).mem 0x1000 q =
      if q = index + i then tables + 4096 * i + 3 else entry s.mem 0x1000 q := by
  unfold identityTable Paging.writeEntry Paging.zero pageSize pageFlagPresent pageFlagWritable
  dsimp only
  rw [hs]
  split_ifs with hqi
  · rw [hqi, entry_setEntry (by omega)]
    omega
  · rw [entry_setEntry_ne hqi]
    apply read32_congr
    intro x _ _
    rw [storeWords_of_out (by unfold pageTableEntries; omega), fill_of_out (by omega)]

/-- The tables of the first loop are not in the kernel half. -/
theorem identityTable_kernelMapped (hs : KernelMapped 0 s) (hi : i < 4) :
    KernelMapped 0 (identityTable 0x2000 0 s i) := by
  refine ⟨hs.directory, fun j hj => ?_, by simp⟩
  rw [identityTable_entry hs.directory (by decide) hi (by omega), if_neg (by omega)]
  exact hs.tables j hj

theorem identityTable_kernelMapped_succ (hs : KernelMapped n s)
    (hn : n < 4) : KernelMapped (n + 1) (identityTable 0x6000 768 s n) := by
  refine ⟨hs.directory, fun j hj => ?_, ?_⟩
  · rw [identityTable_entry hs.directory (by decide) hn (by omega), hs.tables j hj]
    split_ifs <;> omega
  · intro j hj k hk
    by_cases hjn : j = n
    · subst hjn
      have hword : (j * 1024 + k) * 4096 + 0x103 < 4294967296 := by omega
      have hlow : entry (identityTable 0x6000 768 s j).mem (0x6000 + 4096 * j) k =
          entry (storeWords (fill s.mem (0x6000 + 4096 * j) 4096 0) (0x6000 + 4096 * j) 1024
            fun k => (j * 1024 + k) * 4096 + 0x103) (0x6000 + 4096 * j) k := by
        apply read32_congr
        intro x hx hx'
        unfold identityTable Paging.writeEntry Paging.zero setEntry pageTableEntries pageSize
        dsimp only
        rw [hs.directory, write32_of_out (by omega), mul_comm j 4096]
        rfl
      rw [hlow]
      exact read32_storeWords hk hword
    · rw [← hs.pages j (by omega) k hk]
      apply read32_congr
      intro x _ _
      unfold identityTable Paging.writeEntry Paging.zero setEntry pageTableEntries pageSize
      dsimp only
      rw [hs.directory, write32_of_out (by omega), storeWords_of_out (by omega),
        fill_of_out (by omega)]

theorem KernelMapped.protectRegion (hs : KernelMapped n s) (start stop flags : ℕ) (name : String) :
    KernelMapped n (protectRegion s start stop flags name).1 := by
  unfold PageManager.protectRegion
  split_ifs
  · exact hs
  · exact ⟨hs.directory, hs.tables, hs.pages⟩

theorem pagingInit_kernelMapped (mem : ℕ → UInt8) (memsize processId : ℕ) :
    KernelMapped 4 (pagingInit mem memsize processId) := by
  unfold pagingInit
  refine KernelMapped.protectRegion (KernelMapped.protectRegion
    (KernelMapped.protectRegion ?_ _ _ _ _) _ _ _ _) _ _ _ _
  refine foldl_range ?_ fun i s hi hs => identityTable_kernelMapped_succ hs hi
  refine foldl_range (P := fun _ s => KernelMapped 0 s) ?_ fun i s hi hs =>
    identityTable_kernelMapped hs hi
  refine ⟨rfl, ?_, by simp⟩
  intro j hj
  exact read32_fill_zero (by omega) (by omega)

/-- The state `paging_init` leaves behind on a machine of `total` pages. -/
structure Booted (total : ℕ) (s : Paging) : Prop where
  totalPages : s.totalPages = total
  reserved : ∀ k < 256, s.pageState k = pageReserved
  free : ∀ k, 256 ≤ k → k < total → s.pageState k = pageFree
  references : ∀ k < total, s.references k = 0
  freePages : s.freePages = total - 256
  regions : s.protectedRegions.map (fun r => (r.start, r.stop)) =
    [(0, 0x1000), (0x1000, 0xA000), (0x100000, 0x200000)]

theorem pagingInit_booted (mem : ℕ → UInt8) {memsize : ℕ} (processId : ℕ)
    (hsize : memsize < 4294967296) (htotal : 256 < memsize / pageSize) :
    Booted (memsize / pageSize) (pagingInit mem memsize processId) := by
  have hlt : memsize / pageSize < 4294967296 := lt_of_le_of_lt (Nat.div_le_self _ _) hsize
  unfold pagingInit
  generalize memsize / pageSize = total at *
  dsimp only
  generalize hs₀ : Paging.mk (fill mem 0x100000 (12 * total) 0) 0 (fun _ => 0) total total []
    processId ⟨0, 0, 0, 0, 0, 0⟩ = s₀
  have h₀ : Reserved total 0 s₀ := by
    subst hs₀
    refine ⟨rfl, by simp, ?_, ?_, rfl, rfl⟩
    · intro k _ hk
      unfold Paging.pageState fill pageInfo
      dsimp only
      rw [if_pos (by omega)]
      rfl
    · intro k hk
      unfold Paging.references read16 fill pageInfo
      dsimp only
      rw [if_pos (by omega), if_pos (by omega)]
      rfl
  have h₁ : Reserved total 256 ((List.range 256).foldl reservePage s₀) :=
    foldl_range h₀ fun i s hi hs => reservePage_spec hs (by omega) hlt
  generalize (List.range 256).foldl reservePage s₀ = s₁ at h₁
  have h₂ : ∀ x, 0xA000 ≤ x → ({ s₁ with currentPageDirectory := 0x1000 }.zero 0x1000 4096).mem x =
      s₁.mem x := fun x hx => fill_of_out (by omega) 0
  have hd₂ : ({ s₁ with currentPageDirectory := 0x1000 }.zero 0x1000 4096).totalPages = total :=
    h₁.totalPages
  have hf₂ : ({ s₁ with currentPageDirectory := 0x1000 }.zero 0x1000 4096).freePages =
      total - 256 := h₁.freePages
  have hr₂ : ({ s₁ with currentPageDirectory := 0x1000 }.zero 0x1000 4096).protectedRegions = [] :=
    h₁.regions
  have hc₂ : ({ s₁ with currentPageDirectory := 0x1000 }.zero 0x1000 4096).currentPageDirectory =
      0x1000 := rfl
  generalize { s₁ with currentPageDirectory := 0x1000 }.zero 0x1000 4096 = s₂ at *
  have h₃ := identityTables_lowChange (by decide : 0x2000 ≤ 0x6000) hc₂ (by decide : 0 + 4 ≤ 1024)
  generalize (List.range 4).foldl (identityTable 0x2000 0) s₂ = s₃ at h₃
  have h₄ := h₃.trans (identityTables_lowChange (le_refl 0x6000) (h₃.directory.trans hc₂)
    (by decide : 768 + 4 ≤ 1024))
  generalize (List.range 4).foldl (identityTable 0x6000 768) s₃ = s₄ at h₄
  have hmem : ∀ x, 0xA000 ≤ x → s₄.mem x = s₁.mem x := fun x hx =>
    (h₄.mem x hx).trans (h₂ x hx)
  have hst : ∀ k, s₄.pageState k = s₁.pageState k := fun k =>
    hmem _ (by unfold pageInfo; omega)
  have href : ∀ k, s₄.references k = s₁.references k := fun k =>
    read16_congr fun x hx _ => hmem x (by unfold pageInfo at hx; omega)
  have hregions : s₄.protectedRegions = [] := h₄.regions.trans hr₂
  rw [protectRegion_eq s₄ 0x0 0x1000 _ _ (by simp [hregions]),
    protectRegion_eq _ 0x1000 0xA000 _ _ (by simp [hregions]),
    protectRegion_eq _ 0x100000 0x200000 _ _ (by simp [hregions])]
  constructor
  · exact h₄.totalPages.trans hd₂
  · exact fun k hk => (hst k).trans (h₁.reserved k hk)
  · exact fun k hk hkt => (hst k).trans (h₁.free k hk hkt)
  · exact fun k hk => (href k).trans (h₁.references k hk)
  · exact h₄.freePages.trans hf₂
  · simp [hregions]

theorem findFreePage_first (hi : i < s.totalPages) (hfree : s.pageState i = pageFree)
    (hused : ∀ j < i, s.pageState j ≠ pageFree) : findFreePage s = some i := by
  unfold findFreePage
  rw [List.find?_range_eq_some]
  refine ⟨by simp [hfree], List.mem_range.mpr hi, ?_⟩
  intro j hj
  simpa using hused j hj

theorem Booted.findFreePage (hb : Booted total s) (htotal : 256 < total) :
    findFreePage s = some 256 := by
  refine findFreePage_first (hb.totalPages ▸ htotal) (hb.free 256 le_rfl htotal) ?_
  intro j hj
  rw [hb.reserved j hj]
  decide

end UintOS.PageManager
