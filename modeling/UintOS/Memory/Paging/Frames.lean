import UintOS.Memory.Paging.Boot

/-!
# What an allocation changes

`allocate_page` touches the page it returns and that page's entry in the
page-information array. As long as no page of the array is free itself, the two
are apart, and nothing else changes.
-/

namespace UintOS.PageManager

open List Loops Machine PageTable

namespace Paging

variable (s : Paging)

def IsFree (k : ℕ) : Prop := k < s.totalPages ∧ s.pageState k = pageFree

def InfoPage (k : ℕ) : Prop := 256 ≤ k ∧ 4096 * k < 0x100000 + 12 * s.totalPages

def InfoHeld : Prop := ∀ k, s.InfoPage k → ¬ s.IsFree k

end Paging

theorem infoPage_congr {s s' : Paging} (h : s'.totalPages = s.totalPages) (k : ℕ) :
    s'.InfoPage k ↔ s.InfoPage k := by
  unfold Paging.InfoPage
  rw [h]

theorem findFreePage_eq_some {s : Paging} {i : ℕ} (h : findFreePage s = some i) : s.IsFree i := by
  have hmem := mem_of_find?_eq_some h
  have hfree := find?_some h
  exact ⟨mem_range.mp hmem, by simpa using hfree⟩

theorem findFreePage_eq_none {s : Paging} (h : findFreePage s = none) (k : ℕ) : ¬ s.IsFree k := by
  rintro ⟨hk, hfree⟩
  have := find?_eq_none.mp h k (mem_range.mpr hk)
  simp [hfree] at this

/-- Page `i` was handed out: its entry in the array was claimed, and then the page was cleared. -/
structure Allocated (s s' : Paging) (i : ℕ) : Prop where
  claimed : ∀ x, x / 4096 ≠ i → s'.mem x = (claimPage s i).mem x
  zero : ∀ x, x / 4096 = i → s'.mem x = 0
  directory : s'.currentPageDirectory = s.currentPageDirectory
  totalPages : s'.totalPages = s.totalPages
  regions : s'.protectedRegions = s.protectedRegions
  shadow : s'.shadowPageDirectory = s.shadowPageDirectory

theorem claimPage_mem (s : Paging) (i : ℕ) {x : ℕ} (hx : x < pageInfo i ∨ pageInfo i + 12 ≤ x) :
    (claimPage s i).mem x = s.mem x := by
  have hclaim : (((s.setState i pageUsed).setReferences i 1).setFlags i
      (pageFlagPresent + pageFlagWritable)).mem x = s.mem x := by
    unfold Paging.setFlags Paging.setReferences Paging.setState
    dsimp only
    rw [write32_of_out (by omega), write16_of_out (by omega), fill_of_out (by omega)]
  unfold claimPage
  dsimp only
  split_ifs
  · exact (write32_of_out (by omega)).trans hclaim
  · exact hclaim

theorem claimPage_state (s : Paging) (i k : ℕ) :
    (claimPage s i).pageState k = if k = i then pageUsed else s.pageState k := by
  unfold claimPage
  dsimp only
  split_ifs <;> simp [Paging.pageState_setOwner, Paging.pageState_setFlags,
    Paging.pageState_setReferences, Paging.pageState_setState, *]

theorem claimPage_references (s : Paging) (i k : ℕ) :
    (claimPage s i).references k = if k = i then 1 else s.references k := by
  unfold claimPage
  dsimp only
  split_ifs <;> simp [Paging.references_setOwner, Paging.references_setFlags,
    Paging.references_setReferences, Paging.references_setState, *]

theorem allocatePage_none {s : Paging} (h : findFreePage s = none) : allocatePage s = (s, 0) := by
  unfold allocatePage
  rw [h]

theorem allocatePage_some {s : Paging} {i : ℕ} (h : findFreePage s = some i) :
    ∃ s', allocatePage s = (s', 4096 * i) ∧ Allocated s s' i := by
  have hclaim : ∀ t, claimPage s i = t → t.currentPageDirectory = s.currentPageDirectory ∧
      t.totalPages = s.totalPages ∧ t.protectedRegions = s.protectedRegions ∧
      t.shadowPageDirectory = s.shadowPageDirectory := by
    rintro t rfl
    unfold claimPage
    dsimp only
    split_ifs <;> exact ⟨rfl, rfl, rfl, rfl⟩
  unfold allocatePage
  rw [h]
  dsimp only
  refine ⟨(noteAllocated (claimPage s i) 1).zero (i * pageSize) pageSize, by rw [mul_comm]; rfl, ?_⟩
  obtain ⟨hdir, htotal, hregions, hshadow⟩ := hclaim _ rfl
  refine ⟨?_, ?_, hdir, htotal, hregions, hshadow⟩
  · intro x hx
    have hout : x < i * pageSize ∨ i * pageSize + pageSize ≤ x := by
      unfold pageSize
      omega
    exact fill_of_out hout 0
  · intro x hx
    unfold Paging.zero fill pageSize
    dsimp only
    rw [if_pos (by omega)]

namespace Allocated

variable {s s' : Paging} {i : ℕ}

theorem mem (h : Allocated s s' i) {x : ℕ} (hpage : x / 4096 ≠ i)
    (hinfo : x < pageInfo i ∨ pageInfo i + 12 ≤ x) : s'.mem x = s.mem x :=
  (h.claimed x hpage).trans (claimPage_mem s i hinfo)

theorem zero_eq (h : Allocated s s' i) : s'.zero (4096 * i) pageSize = s' := by
  have hmem : fill s'.mem (4096 * i) pageSize 0 = s'.mem := by
    funext x
    unfold fill pageSize
    split_ifs with hx
    · exact (h.zero x (by omega)).symm
    · rfl
  unfold Paging.zero
  rw [hmem]

end Allocated

theorem tableEntry_facts {i : ℕ} (flags : ℕ) (hi : i < 1048576) :
    tableEntry (4096 * i) flags < 4294967296 ∧ tableEntry (4096 * i) flags / 4096 = i ∧
      present (tableEntry (4096 * i) flags) = true := by
  unfold tableEntry pageFlagPresent pageFlagWritable pageFlagUser present
  split_ifs
  all_goals exact ⟨by omega, by omega, decide_eq_true (by omega)⟩

theorem mapPage_cases (s : Paging) (physical virt flags : ℕ) :
    mapPage s physical virt flags = (s, -1) ∨ present (s.dirEntry (dirIndex virt)) = true ∧
        mapPage s physical virt flags = mapEntry s physical virt flags ∨
      (getProtectedRegion s virt = none ∧ present (s.dirEntry (dirIndex virt)) = false) ∧
        ∃ i s₁, findFreePage s = some i ∧ Allocated s s₁ i ∧
          (mapPage s physical virt flags = (s₁, -1) ∨
            i ≠ 0 ∧ mapPage s physical virt flags = mapEntry (s₁.writeEntry s₁.currentPageDirectory
              (dirIndex virt) (tableEntry (4096 * i) flags)) physical virt flags) := by
  unfold mapPage
  by_cases hregion : (getProtectedRegion s virt).isSome
  · exact .inl (if_pos hregion)
  by_cases hp : present (s.dirEntry (dirIndex virt))
  · rw [if_neg hregion, if_pos hp]
    exact .inr (.inl ⟨hp, rfl⟩)
  rw [if_neg hregion, if_neg hp]
  cases hfind : findFreePage s with
  | none =>
    rw [allocatePage_none hfind]
    exact .inl rfl
  | some i =>
    obtain ⟨s₁, hs₁, halloc⟩ := allocatePage_some hfind
    refine .inr (.inr ⟨⟨by simpa using hregion, by simpa using hp⟩, i, s₁, rfl, halloc, ?_⟩)
    rw [hs₁]
    split
    · next heq =>
      obtain ⟨rfl, _⟩ := Prod.mk.inj heq
      exact .inl rfl
    · next hne heq =>
      obtain ⟨rfl, rfl⟩ := Prod.mk.inj heq
      rw [halloc.zero_eq]
      exact .inr ⟨fun h0 => hne (by rw [h0]), rfl⟩

/-- The kernel half of the current directory was copied to page `i`. -/
structure CopiedHalf (s s' : Paging) (i : ℕ) : Prop where
  mem : ∀ x, x < 4096 * i + 3072 ∨ 4096 * i + 4096 ≤ x → s'.mem x = s.mem x
  kernel : ∀ j < 256, entry s'.mem (4096 * i) (768 + j) = s.dirEntry (768 + j)
  directory : s'.currentPageDirectory = s.currentPageDirectory
  totalPages : s'.totalPages = s.totalPages
  regions : s'.protectedRegions = s.protectedRegions
  shadow : s'.shadowPageDirectory = s.shadowPageDirectory

theorem createAddressSpace_none {s : Paging} (h : findFreePage s = none) :
    createAddressSpace s true = (s, 0) := by
  unfold createAddressSpace
  rw [allocatePage_none h]
  rfl

/-- `paging_create_address_space(1)` hands out a page with the kernel half; page 0 counts as none.
-/
theorem createAddressSpace_some {s : Paging} {i : ℕ} (h : findFreePage s = some i) :
    ∃ s₁, Allocated s s₁ i ∧ (i = 0 ∧ createAddressSpace s true = (s₁, 0) ∨
        i ≠ 0 ∧ ∃ s₂, createAddressSpace s true = (s₂, 4096 * i) ∧ CopiedHalf s₁ s₂ i) := by
  obtain ⟨s₁, hs₁, halloc⟩ := allocatePage_some h
  refine ⟨s₁, halloc, ?_⟩
  unfold createAddressSpace
  rw [hs₁]
  by_cases hi : i = 0
  · subst hi
    exact .inl ⟨rfl, rfl⟩
  · refine .inr ⟨hi, ?_⟩
    split
    · next heq => exact absurd (Prod.mk.inj heq).2 (by omega)
    · next heq =>
      cases heq
      rw [halloc.zero_eq, if_pos rfl]
      refine ⟨_, rfl, ?_, ?_, rfl, rfl, rfl, rfl⟩
      · intro x hx
        unfold pageDirectoryEntries
        dsimp only
        rw [storeWords_of_out (by omega)]
      · intro j hj
        have hword := read32_storeWords (m := s₁.mem) (a := 4096 * i + 3072) (n := 256)
          (f := fun j => s₁.dirEntry (768 + j)) hj (entry_lt _ _ _)
        have haddr : 4096 * i + 4 * (768 + j) = 4096 * i + 3072 + 4 * j := by omega
        unfold entry
        rw [haddr]
        exact hword

end UintOS.PageManager
