import UintOS.Library.PageTable

/-!
# Freeing virtual memory

`vmm_free` of `memory/vmm.c`: the region to remove is found by its start, the pages to unmap are
those of the caller's size. The state is that of the current address space, with the entries of
every frame that is a page table. What the regions are used for, log messages and the TLB are left
out.
-/

namespace UintOS.Vmm

open Function List Machine PageTable

structure Region where
  start : ℕ
  stop : ℕ
deriving DecidableEq, Repr

structure PageFrame where
  flags : ℕ
  refCount : ℕ

/-- The global state, and the directory and the regions of `current_space`; `table f i` is entry `i`
of the page table in the frame at `f`. -/
structure State where
  initialized : Bool
  directory : ℕ → ℕ
  table : ℕ → ℕ → ℕ
  regions : List Region
  pageFrames : ℕ → PageFrame
  numFrames : ℕ
  freeFrames : ℕ
  nextFreeFrame : ℕ
  freePhysicalMemory : ℕ

def pageSize : ℕ := 4096

variable (s : State)

def freeFrame (addr : ℕ) : State :=
  let i := addr / pageSize
  if s.numFrames ≤ i then s
  else if (s.pageFrames i).flags % 2 = 0 then s
  else
    let refCount := (s.pageFrames i).refCount - 1
    if refCount = 0 then
      { s with
        pageFrames := update s.pageFrames i ⟨0, 0⟩
        freeFrames := add32 s.freeFrames 1
        freePhysicalMemory := add32 s.freePhysicalMemory pageSize
        nextFreeFrame := if i < s.nextFreeFrame then i else s.nextFreeFrame }
    else { s with pageFrames := update s.pageFrames i { s.pageFrames i with refCount } }

def unmapPage (virt : ℕ) : State :=
  let pde := s.directory (dirIndex virt)
  if present pde then
    let pte := s.table (frame pde) (tableIndex virt)
    if present pte then
      let s := freeFrame s (frame pte)
      { s with
        table := update s.table (frame pde) (update (s.table (frame pde)) (tableIndex virt) 0) }
    else s
  else s

def findRegion (regions : List Region) (addr : ℕ) : Option Region :=
  regions.find? fun r => r.start ≤ addr && addr < r.stop

def removeRegion (regions : List Region) (start : ℕ) : List Region :=
  regions.eraseP fun r => r.start = start

/-- The first address that `vmm_free` unmaps, and the one it stops at. -/
def freeStart (addr : ℕ) : ℕ := addr / pageSize * pageSize
def freeEnd (addr size : ℕ) : ℕ := add32 (add32 addr size) (pageSize - 1) / pageSize * pageSize

def vmmFree (addr size : ℕ) : State :=
  if !s.initialized || addr = 0 || size = 0 then s
  else
    match findRegion s.regions (freeStart addr) with
    | none => s
    | some r =>
      if r.start ≠ freeStart addr then s
      else
        let rounds := (freeEnd addr size - freeStart addr) / pageSize
        let t := (List.range rounds).foldl
          (fun s i => unmapPage s (freeStart addr + i * pageSize)) s
        { t with regions := removeRegion t.regions (freeStart addr) }

/-! ## What it is for -/

/-- The page-table entry of a page; `none` without a page table. -/
def State.entry (page : ℕ) : Option ℕ :=
  if present (s.directory (page / 1024)) then
    some (s.table (frame (s.directory (page / 1024))) (page % 1024))
  else none

def State.Mapped (page : ℕ) : Prop := ∃ e, s.entry page = some e ∧ present e = true

def Region.Has (r : Region) (page : ℕ) : Prop :=
  r.start ≤ page * pageSize ∧ page * pageSize < r.stop

/-- The page is one that `vmm_free` unmaps. -/
def InRange (addr size page : ℕ) : Prop :=
  freeStart addr ≤ page * pageSize ∧ page * pageSize < freeEnd addr size

def Removes (s t : State) (r : Region) : Prop := r ∈ s.regions ∧ t.regions = s.regions.erase r

/-- Exactly the pages of the removed region are unmapped; without one, nothing changes. -/
structure Exact (s t : State) : Prop where
  unmapped : ∀ r, Removes s t r → ∀ page, r.Has page → ¬ t.Mapped page
  kept : ∀ r, Removes s t r → ∀ page, ¬ r.Has page → t.entry page = s.entry page
  unchanged : (∀ r, ¬ Removes s t r) → ∀ page, t.entry page = s.entry page

/-- The region that `vmm_free` is going to remove. -/
def freed (addr size : ℕ) : Option Region :=
  if !s.initialized || addr = 0 || size = 0 then none
  else (findRegion s.regions (freeStart addr)).bind fun r =>
    if r.start ≠ freeStart addr then none else s.regions.find? (·.start = freeStart addr)

def Separate : Prop :=
  ∀ i j, present (s.directory i) = true → present (s.directory j) = true →
    frame (s.directory i) = frame (s.directory j) → i = j

/-- The entries of the mapped pages of `P` are cleared, and nothing else. -/
structure Cleared (P : ℕ → Prop) (s t : State) : Prop where
  directory : t.directory = s.directory
  regions : t.regions = s.regions
  cleared : ∀ page, P page → s.Mapped page → t.entry page = some 0
  same : ∀ page, ¬ (P page ∧ s.Mapped page) → t.entry page = s.entry page

section Free

variable {s t u : State} {P Q : ℕ → Prop}

theorem not_mapped_of_zero {page : ℕ} (h : s.entry page = some 0) : ¬ s.Mapped page := by
  rintro ⟨e, he, hp⟩
  rw [h] at he
  cases he
  cases hp

theorem Cleared.refl (h : ∀ page, P page → ¬ s.Mapped page) : Cleared P s s where
  directory := rfl
  regions := rfl
  cleared page hP hm := absurd hm (h page hP)
  same _ _ := rfl

theorem Cleared.trans (h₁ : Cleared P s t) (h₂ : Cleared Q t u) :
    Cleared (fun page => P page ∨ Q page) s u where
  directory := h₂.directory.trans h₁.directory
  regions := h₂.regions.trans h₁.regions
  cleared page hPQ hm := by
    by_cases hP : P page
    · have hzero := h₁.cleared page hP hm
      rw [h₂.same page fun hQ => not_mapped_of_zero hzero hQ.2, hzero]
    · have hsame := h₁.same page fun h => hP h.1
      refine h₂.cleared page (hPQ.resolve_left hP) ?_
      rwa [State.Mapped, hsame]
  same page hno := by
    have hsame := h₁.same page fun h => hno ⟨.inl h.1, h.2⟩
    rw [h₂.same page, hsame]
    rintro ⟨hQ, hm⟩
    rw [State.Mapped, hsame] at hm
    exact hno ⟨.inr hQ, hm⟩

theorem freeFrame_same (s : State) (addr : ℕ) : (freeFrame s addr).directory = s.directory ∧
    (freeFrame s addr).table = s.table ∧ (freeFrame s addr).regions = s.regions := by
  unfold freeFrame
  dsimp only
  split_ifs <;> exact ⟨rfl, rfl, rfl⟩

theorem unmapPage_cleared (hs : Separate s) (p : ℕ) :
    Cleared (· = p) s (unmapPage s (p * pageSize)) := by
  have hdir : dirIndex (p * pageSize) = p / 1024 := by unfold dirIndex pageSize; omega
  have htab : tableIndex (p * pageSize) = p % 1024 := by unfold tableIndex pageSize; omega
  unfold unmapPage
  rw [hdir, htab]
  dsimp only
  split_ifs with hpde hpte
  · obtain ⟨h1, h2, h3⟩ := freeFrame_same s
      (frame (s.table (frame (s.directory (p / 1024))) (p % 1024)))
    refine ⟨h1, h3, ?_, ?_⟩
    · rintro page rfl -
      simp [State.entry, h1, hpde]
    · intro page hno
      have hpage : page ≠ p := fun h => hno ⟨h, _, by rw [h, State.entry, if_pos hpde], hpte⟩
      simp only [State.entry, h1, h2]
      split_ifs with hpresent
      · -- another entry of the table, or an entry of another table
        by_cases hframe : frame (s.directory (page / 1024)) = frame (s.directory (p / 1024))
        · have hindex := hs _ _ hpresent hpde hframe
          rw [hframe, update_self, update_of_ne (by omega)]
        · rw [update_of_ne hframe]
      · rfl
  · apply Cleared.refl
    rintro page rfl ⟨e, he, hp⟩
    rw [State.entry, if_pos hpde] at he
    cases he
    exact hpte hp
  · apply Cleared.refl
    rintro page rfl ⟨e, he, -⟩
    rw [State.entry, if_neg hpde] at he
    cases he

theorem unmapPages_cleared (hs : Separate s) (p n : ℕ) :
    Cleared (fun page => p ≤ page ∧ page < p + n) s
      ((List.range n).foldl (fun s i => unmapPage s (p * pageSize + i * pageSize)) s) := by
  induction n with
  | zero => exact Cleared.refl fun page hpage => absurd hpage (by omega)
  | succ n ih =>
    rw [range_succ, foldl_append, foldl_cons, foldl_nil, ← Nat.add_mul]
    have hall := ih.trans (unmapPage_cleared (by rwa [Separate, ih.directory]) (p + n))
    have hrange : (fun page => (p ≤ page ∧ page < p + n) ∨ page = p + n) =
        fun page => p ≤ page ∧ page < p + (n + 1) := by
      funext page
      exact propext (by omega)
    rwa [hrange] at hall

theorem removeRegion_eq_erase {regions : List Region} {start : ℕ} {r : Region}
    (h : regions.find? (·.start = start) = some r) :
    removeRegion regions start = regions.erase r := by
  obtain ⟨hr, l₁, l₂, rfl, hbef⟩ := find?_eq_some_iff_append.mp h
  have hnot : r ∉ l₁ := fun hmem => absurd hr (by simpa using hbef r hmem)
  rw [removeRegion, eraseP_append_right _ (by simpa using hbef), eraseP_cons, hr,
    erase_append_right _ hnot, erase_cons_head]
  rfl

theorem Removes.unique {r q : Region} (hr : Removes s t r) (hq : Removes s t q) : r = q := by
  by_contra hne
  have hcount := congrArg (count r) (hr.2.symm.trans hq.2)
  rw [count_erase_self, count_erase_of_ne hne] at hcount
  have := count_pos_iff.mpr hr.1
  omega

theorem vmmFree_cases (hs : Separate s) (addr size : ℕ) :
    freed s addr size = none ∧ vmmFree s addr size = s ∨
      ∃ q, freed s addr size = some q ∧ Removes s (vmmFree s addr size) q ∧
        ∃ t, Cleared (InRange addr size) s t ∧ ∀ page,
          (vmmFree s addr size).entry page = t.entry page := by
  unfold vmmFree freed
  split_ifs
  · exact .inl ⟨rfl, rfl⟩
  · cases hfound : findRegion s.regions (freeStart addr) with
    | none => exact .inl ⟨rfl, rfl⟩
    | some r =>
      rw [Option.bind_some]
      dsimp only
      split_ifs with hstart
      · exact .inl ⟨rfl, rfl⟩
      · have hall := unmapPages_cleared hs (addr / pageSize)
          ((freeEnd addr size - freeStart addr) / pageSize)
        have hrange : (fun page => addr / pageSize ≤ page ∧
            page < addr / pageSize + (freeEnd addr size - freeStart addr) / pageSize) =
            InRange addr size := by
          funext page
          unfold InRange freeEnd freeStart pageSize
          exact propext (by omega)
        rw [hrange] at hall
        have hsome : (s.regions.find? (·.start = freeStart addr)).isSome :=
          find?_isSome.mpr ⟨r, mem_of_find?_eq_some hfound, by simpa using hstart⟩
        obtain ⟨q, hq⟩ := Option.isSome_iff_exists.mp hsome
        refine .inr ⟨q, hq, ⟨mem_of_find?_eq_some hq, ?_⟩, _, hall, fun _ => rfl⟩
        exact (congrArg (removeRegion · _) hall.regions).trans (removeRegion_eq_erase hq)

end Free

/-- `vmm_free` unmaps exactly the region it removes, if and only if the mapped pages of the region
are those of the given size. -/
theorem vmm_free_exact_iff {s : State} (hs : Separate s) (addr size : ℕ) :
    Exact s (vmmFree s addr size) ↔ ∀ r, freed s addr size = some r →
      ∀ page, s.Mapped page → (r.Has page ↔ InRange addr size page) := by
  rcases vmmFree_cases hs addr size with ⟨hnone, heq⟩ | ⟨q, hfreed, hq, t, ht, hentry⟩
  · rw [heq, hnone]
    have hno : ∀ r, ¬ Removes s s r := by
      rintro r ⟨hr, herase⟩
      have hlen := length_erase_of_mem hr
      rw [← herase] at hlen
      have := length_pos_of_mem hr
      omega
    exact iff_of_true ⟨fun r h => absurd h (hno r), fun r h => absurd h (hno r), fun _ _ => rfl⟩
      (by simp)
  · rw [hfreed]
    generalize vmmFree s addr size = u at *
    constructor
    · rintro h _ ⟨⟩ page hm
      constructor
      · intro hhas
        by_contra hout
        apply h.unmapped q hq page hhas
        rwa [State.Mapped, hentry, ht.same page fun hin => hout hin.1]
      · intro hin
        by_contra hno
        have hkept := h.kept q hq page hno
        rw [hentry, ht.cleared page hin hm] at hkept
        exact not_mapped_of_zero hkept.symm hm
    · intro h
      refine ⟨?_, ?_, fun hnone => absurd hq (hnone q)⟩
      · intro r hr page hhas hm
        obtain rfl := hr.unique hq
        rw [State.Mapped, hentry] at hm
        by_cases hold : s.Mapped page
        · exact not_mapped_of_zero (ht.cleared page ((h r rfl page hold).mp hhas) hold) hm
        · rw [ht.same page fun hin => hold hin.2] at hm
          exact hold hm
      · intro r hr page hno
        obtain rfl := hr.unique hq
        rw [hentry]
        exact ht.same page fun hin => hno ((h r rfl page hin.2).mpr hin.1)

def twoPages : State where
  initialized := true
  directory i := if i = 0 then 0x1003 else 0
  table _ i := if i = 1 ∨ i = 2 then 0x5003 else 0
  regions := [⟨0x1000, 0x3000⟩]
  pageFrames _ := ⟨0, 0⟩
  numFrames := 16
  freeFrames := 16
  nextFreeFrame := 0
  freePhysicalMemory := 65536

theorem twoPages_separate : Separate twoPages := by
  intro i j hi hj _
  unfold twoPages at hi hj
  dsimp only at hi hj
  split_ifs at hi hj with h1 h2
  · rw [h1, h2]
  all_goals cases hi <;> cases hj

theorem two_pages_freed : Exact twoPages (vmmFree twoPages 0x1000 0x2000) := by
  refine (vmm_free_exact_iff twoPages_separate _ _).mpr ?_
  rintro r ⟨⟩ page -
  rfl

/-- The region is removed, and its second page stays mapped. -/
theorem second_page_stays_mapped : Separate twoPages ∧
    (twoPages.regions.Pairwise fun r q => r.stop ≤ q.start ∨ q.stop ≤ r.start) ∧
    ¬ Exact twoPages (vmmFree twoPages 0x1000 0x1000) := by
  refine ⟨twoPages_separate, pairwise_singleton _ _, fun h => ?_⟩
  exact h.unmapped ⟨0x1000, 0x3000⟩ ⟨by decide, by decide⟩ 2 ⟨by decide, by decide⟩
    ⟨0x5003, by decide, by decide⟩

end UintOS.Vmm
