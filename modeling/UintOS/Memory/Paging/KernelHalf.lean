import UintOS.Memory.Paging.Frames

/-!
# The kernel half of the address spaces

`paging_create_address_space(1)` copies the kernel entries of the current page
directory. From then on the spaces agree above `0xC0000000` as long as nothing
changes a kernel entry of one directory only. Two things do: a mapping that needs
a new page table enters it in the current directory alone, and the allocator may
hand out, or keep its records in, a page that a directory or a kernel table
occupies. `Keeps` excludes both.
-/

namespace UintOS.PageManager

open Machine PageTable Runs

/-- The paging state and the directories `paging_create_address_space(1)` returned. -/
structure Spaces where
  paging : Paging
  created : List ℕ

inductive KernelOp
  | create
  | switch (pageDirectory : ℕ)
  | map (physical virt flags : ℕ)
  | unmap (virt : ℕ)
  | updateFlags (virt flags : ℕ)

def KernelAddr (va : ℕ) : Prop := 0xC0000000 ≤ va ∧ va < 4294967296

instance (va : ℕ) : Decidable (KernelAddr va) :=
  inferInstanceAs (Decidable (0xC0000000 ≤ va ∧ va < 4294967296))

namespace Spaces

variable (s : Spaces)

def step : KernelOp → Option Spaces
  | .create =>
    match createAddressSpace s.paging true with
    | (p, 0) => some { s with paging := p }
    | (p, dir) => some ⟨p, dir :: s.created⟩
  | .switch dir => some { s with paging := switchAddressSpace s.paging dir }
  | .map physical virt flags => some { s with paging := (mapPage s.paging physical virt flags).1 }
  | .unmap virt => some { s with paging := unmapPage s.paging virt }
  | .updateFlags virt flags => some { s with paging := (updateFlags s.paging virt flags).1 }

/-- Switches go to created spaces, the other calls are about kernel addresses. -/
def Legal : KernelOp → Prop
  | .create => True
  | .switch dir => dir ∈ s.created
  | .map _ virt _ => KernelAddr virt
  | .unmap virt => KernelAddr virt
  | .updateFlags virt _ => KernelAddr virt

/-- All created spaces translate kernel addresses to the same page and flags. -/
def Shared : Prop :=
  ∀ d ∈ s.created, ∀ d' ∈ s.created, ∀ va, KernelAddr va →
    walk s.paging.mem d va = walk s.paging.mem d' va

def directories : List ℕ := s.paging.currentPageDirectory :: s.created

/-- An allocation of page `i` neither writes to the kernel half of a directory in use nor takes its
page. -/
def Spares (i : ℕ) : Prop :=
  ∀ d ∈ s.directories, i ≠ d / 4096 ∧ (pageInfo i + 12 ≤ d + 3072 ∨ d + 4096 ≤ pageInfo i)

def NoTable (i : ℕ) : Prop :=
  ∀ j < 256, present (s.paging.dirEntry (768 + j)) → s.paging.dirEntry (768 + j) / 4096 ≠ i

def NeedsTable (virt : ℕ) : Prop :=
  getProtectedRegion s.paging virt = none ∧ present (s.paging.dirEntry (dirIndex virt)) = false

/-- The condition under which a call keeps the kernel half shared. -/
def Keeps : KernelOp → Prop
  | .create => ∀ i, findFreePage s.paging = some i → s.Spares i ∧ s.NoTable i
  | .map _ virt _ => s.NeedsTable virt → ∀ i, findFreePage s.paging = some i →
      s.Spares i ∧ (i ≠ 0 → ∀ d ∈ s.created, d = s.paging.currentPageDirectory)
  | _ => True

/-- The kernel halves of directories in use are equal, and no kernel table is in a directory's page.
-/
structure KernelInv (s : Spaces) : Prop where
  total : s.paging.totalPages ≤ 1048576
  aligned : ∀ d ∈ s.directories, d % 4096 = 0
  same : ∀ d ∈ s.created, ∀ j < 256, entry s.paging.mem d (768 + j) = s.paging.dirEntry (768 + j)
  apart : ∀ d ∈ s.directories, s.NoTable (d / 4096)

/-- The states have the same directories with the same kernel halves. -/
structure SameHalves (s t : Spaces) : Prop where
  created : t.created = s.created
  directory : t.paging.currentPageDirectory = s.paging.currentPageDirectory
  totalPages : t.paging.totalPages = s.paging.totalPages
  mem : ∀ d ∈ s.directories, ∀ x, d + 3072 ≤ x → x < d + 4096 → t.paging.mem x = s.paging.mem x

end Spaces

theorem dirIndex_kernel {va : ℕ} (h : KernelAddr va) : ∃ j < 256, dirIndex va = 768 + j := by
  unfold KernelAddr at h
  unfold dirIndex
  exact ⟨va / 4194304 - 768, by omega, by omega⟩

namespace Spaces

variable {s t : Spaces} {i virt : ℕ}

theorem KernelInv.shared (h : KernelInv s) : s.Shared := by
  intro d hd d' hd' va hva
  obtain ⟨j, hj, hidx⟩ := dirIndex_kernel hva
  unfold walk
  rw [hidx, h.same d hd j hj, h.same d' hd' j hj]

namespace SameHalves

section

variable (h : SameHalves s t)
include h

theorem directories : t.directories = s.directories := by
  unfold Spaces.directories
  rw [h.created, h.directory]

theorem entry {d j : ℕ} (hd : d ∈ s.directories) (hj : j < 256) :
    entry t.paging.mem d (768 + j) = entry s.paging.mem d (768 + j) :=
  read32_congr fun x _ _ => h.mem d hd x (by omega) (by omega)

theorem dirEntry {j : ℕ} (hj : j < 256) :
    t.paging.dirEntry (768 + j) = s.paging.dirEntry (768 + j) := by
  unfold Paging.dirEntry
  rw [h.directory]
  exact h.entry (by simp [Spaces.directories]) hj

theorem inv (hs : KernelInv s) : KernelInv t := by
  constructor
  · rw [h.totalPages]
    exact hs.total
  · rw [h.directories]
    exact hs.aligned
  · intro d hd j hj
    rw [h.created] at hd
    rw [h.dirEntry hj, h.entry (by simp [Spaces.directories, hd]) hj]
    exact hs.same d hd j hj
  · intro d hd j hj
    rw [h.directories] at hd
    rw [h.dirEntry hj]
    exact hs.apart d hd j hj

end

end SameHalves

/-- A write to an entry of a kernel table. -/
theorem KernelInv.writeTable (hs : KernelInv s) {e : ℕ} (hva : KernelAddr virt)
    (hp : present (s.paging.dirEntry (dirIndex virt))) :
    KernelInv { s with
      paging := s.paging.writeEntry (frame (s.paging.dirEntry (dirIndex virt))) (tableIndex virt)
        e } := by
  obtain ⟨j, hj, hidx⟩ := dirIndex_kernel hva
  refine SameHalves.inv (s := s) ⟨rfl, rfl, rfl, ?_⟩ hs
  intro d hd x hx hx'
  rw [hidx] at hp ⊢
  have hapart := hs.apart d hd j hj hp
  have haligned := hs.aligned d hd
  have hi := tableIndex_lt virt
  rw [frame_eq]
  exact write32_of_out (by omega)

theorem sameHalves_allocated {p : Paging} (hs : KernelInv s) (hi : s.Spares i)
    (h : Allocated s.paging p i) : SameHalves s { s with paging := p } := by
  refine ⟨rfl, h.directory, h.totalPages, ?_⟩
  intro d hd x hx hx'
  have hal := hs.aligned d hd
  obtain ⟨hne, hinfo⟩ := hi d hd
  exact h.mem (by omega) (by omega)

theorem KernelInv.copiedHalf {p : Paging} (hs : KernelInv s) (hi : s.Spares i)
    (htable : s.NoTable i) (hp : CopiedHalf s.paging p i) :
    KernelInv ⟨p, 4096 * i :: s.created⟩ := by
  have hold : SameHalves s { s with paging := p } := by
    refine ⟨rfl, hp.directory, hp.totalPages, ?_⟩
    intro d hd x hx hx'
    have hal := hs.aligned d hd
    have hne := (hi d hd).1
    exact hp.mem x (by omega)
  have hinv := hold.inv hs
  have hdirs : ∀ d, d ∈ (⟨p, 4096 * i :: s.created⟩ : Spaces).directories →
      d = 4096 * i ∨ d ∈ ({ s with paging := p } : Spaces).directories := by
    intro d hd
    simp only [directories, List.mem_cons] at hd ⊢
    tauto
  refine ⟨hinv.total, ?_, ?_, ?_⟩
  · intro d hd
    rcases hdirs d hd with rfl | hd
    · omega
    · exact hinv.aligned d hd
  · intro d hd j hj
    rcases List.mem_cons.mp hd with rfl | hd
    · rw [hp.kernel j hj]
      exact (hold.dirEntry hj).symm
    · exact hinv.same d hd j hj
  · intro d hd j hj
    rcases hdirs d hd with rfl | hd
    · have hdir : p.dirEntry (768 + j) = s.paging.dirEntry (768 + j) := hold.dirEntry hj
      rw [show 4096 * i / 4096 = i by omega]
      rw [hdir]
      exact htable j hj
    · exact hinv.apart d hd j hj

theorem step_create_none (h : findFreePage s.paging = none) : s.step .create = some s := by
  simp only [step, createAddressSpace_none h]

theorem step_create_zero (h : findFreePage s.paging = some 0) :
    ∃ p, Allocated s.paging p 0 ∧ s.step .create = some { s with paging := p } := by
  obtain ⟨p, hp, ⟨_, hcreate⟩ | ⟨hi, _⟩⟩ := createAddressSpace_some h
  · exact ⟨p, hp, by simp only [step, hcreate]⟩
  · exact absurd rfl hi

theorem step_create_some (h : findFreePage s.paging = some i) (hi : i ≠ 0) :
    ∃ p q, Allocated s.paging p i ∧ CopiedHalf p q i ∧
      s.step .create = some ⟨q, 4096 * i :: s.created⟩ := by
  obtain ⟨p, hp, ⟨h0, _⟩ | ⟨_, q, hcreate, hq⟩⟩ := createAddressSpace_some h
  · exact absurd h0 hi
  · refine ⟨p, q, hp, hq, ?_⟩
    simp only [step, hcreate]
    split
    · next heq => exact absurd (Prod.mk.inj heq).2 (by omega)
    · next heq =>
      cases heq
      rfl

section

variable (hs : KernelInv s)
include hs

theorem KernelInv.create (hkeep : s.Keeps .create)
    (ht : s.step .create = some t) : KernelInv t := by
  cases hfind : findFreePage s.paging with
  | none =>
    rw [step_create_none hfind] at ht
    cases ht
    exact hs
  | some i =>
    obtain ⟨hspare, htable⟩ := hkeep i hfind
    by_cases hi : i = 0
    · subst hi
      obtain ⟨p, hp, hstep⟩ := step_create_zero hfind
      rw [hstep] at ht
      cases ht
      exact (sameHalves_allocated hs hspare hp).inv hs
    · obtain ⟨p, q, hp, hq, hstep⟩ := step_create_some hfind hi
      have hhalves := sameHalves_allocated hs hspare hp
      rw [hstep] at ht
      cases ht
      refine (hhalves.inv hs).copiedHalf ?_ ?_ hq
      · unfold Spares
        rw [hhalves.directories]
        exact hspare
      · intro j hj
        rw [hhalves.dirEntry hj]
        exact htable j hj

/-- A new kernel table in page `i`, entered in the only directory in use. -/
theorem KernelInv.enterTable {p : Paging} {j : ℕ} (hi : s.Spares i)
    (honly : ∀ d ∈ s.created, d = s.paging.currentPageDirectory)
    (hdir : p.currentPageDirectory = s.paging.currentPageDirectory)
    (htotal : p.totalPages = s.paging.totalPages) (hnew : p.dirEntry (768 + j) / 4096 = i)
    (hother : ∀ k < 256, k ≠ j → p.dirEntry (768 + k) = s.paging.dirEntry (768 + k)) :
    KernelInv { s with paging := p } := by
  have hdirs : ({ s with paging := p } : Spaces).directories = s.directories := by
    simp [directories, hdir]
  refine ⟨by rw [htotal]; exact hs.total, by rw [hdirs]; exact hs.aligned, ?_, ?_⟩
  · intro d hd k _
    rw [honly d hd, ← hdir]
    rfl
  · intro d hd k hk
    rw [hdirs] at hd
    by_cases hkj : k = j
    · rw [hkj, hnew]
      exact fun _ => (hi d hd).1
    · rw [hother k hk hkj]
      exact hs.apart d hd k hk

theorem KernelInv.map {physical flags : ℕ} (hva : KernelAddr virt)
    (hkeep : s.Keeps (.map physical virt flags)) :
    KernelInv { s with paging := (mapPage s.paging physical virt flags).1 } := by
  rcases mapPage_cases s.paging physical virt flags with
    heq | ⟨hp, heq⟩ | ⟨hneeds, i, p, hfind, halloc, hcase⟩
  · rw [heq]
    exact hs
  · rw [heq]
    exact hs.writeTable hva hp
  · obtain ⟨hspare, honly⟩ := hkeep hneeds i hfind
    have hhalves := sameHalves_allocated hs hspare halloc
    have hinv := hhalves.inv hs
    rcases hcase with heq | ⟨hi, heq⟩
    · rw [heq]
      exact hinv
    · have he := tableEntry_facts flags (lt_of_lt_of_le (findFreePage_eq_some hfind).1 hs.total)
      obtain ⟨j, hj, hidx⟩ := dirIndex_kernel hva
      rw [heq, hidx]
      have hnew : (p.writeEntry p.currentPageDirectory (768 + j)
          (tableEntry (4096 * i) flags)).dirEntry (768 + j) = tableEntry (4096 * i) flags :=
        entry_setEntry he.1
      have hother : ∀ k < 256, k ≠ j → (p.writeEntry p.currentPageDirectory (768 + j)
          (tableEntry (4096 * i) flags)).dirEntry (768 + k) = p.dirEntry (768 + k) :=
        fun k _ hkj => entry_setEntry_ne (by omega)
      have hdir : (p.writeEntry p.currentPageDirectory (768 + j)
          (tableEntry (4096 * i) flags)).currentPageDirectory = p.currentPageDirectory := rfl
      have htotal : (p.writeEntry p.currentPageDirectory (768 + j)
          (tableEntry (4096 * i) flags)).totalPages = p.totalPages := rfl
      generalize p.writeEntry p.currentPageDirectory (768 + j)
        (tableEntry (4096 * i) flags) = q at *
      have hentered : KernelInv { s with paging := q } := by
        refine hinv.enterTable ?_ ?_ hdir htotal (hnew ▸ he.2.1) hother
        · unfold Spares
          rw [hhalves.directories]
          exact hspare
        · intro d hd
          exact (honly hi d hd).trans halloc.directory.symm
      have hpres : present (q.dirEntry (dirIndex virt)) := by
        rw [hidx, hnew]
        exact he.2.2
      exact hentered.writeTable hva hpres

/-- Every legal call that keeps the condition keeps the invariant. -/
theorem KernelInv.step {op : KernelOp} (hlegal : s.Legal op)
    (hkeep : s.Keeps op) (ht : s.step op = some t) : KernelInv t := by
  cases op with
  | create => exact hs.create hkeep ht
  | switch dir =>
    cases ht
    have hd : dir ∈ s.created := hlegal
    unfold switchAddressSpace
    split_ifs with h0
    · exact hs
    · have hdir : ∀ j < 256, entry s.paging.mem dir (768 + j) = s.paging.dirEntry (768 + j) :=
        hs.same dir hd
      have hdirs : ∀ d, d = dir ∨ d ∈ s.created → d ∈ s.directories := by
        rintro d (rfl | hd')
        · simp [directories, hd]
        · simp [directories, hd']
      refine ⟨hs.total, fun d hd' => hs.aligned d (hdirs d (by simpa [directories] using hd')),
        ?_, ?_⟩
      · intro d hd' j hj
        exact (hs.same d hd' j hj).trans (hdir j hj).symm
      · intro d hd' j hj
        show present (entry s.paging.mem dir (768 + j)) →
          entry s.paging.mem dir (768 + j) / 4096 ≠ _
        rw [hdir j hj]
        exact hs.apart d (hdirs d (by simpa [directories] using hd')) j hj
  | map physical virt flags =>
    cases ht
    exact hs.map hlegal hkeep
  | unmap virt =>
    cases ht
    unfold unmapPage
    split_ifs with hregion hp
    · exact hs
    · exact hs.writeTable hlegal hp
    · exact hs
  | updateFlags virt flags =>
    cases ht
    unfold PageManager.updateFlags
    dsimp only
    split_ifs with hp
    · exact hs
    · exact hs.writeTable hlegal hp
    · exact hs
    · exact hs

end

end Spaces

/-- Before the first space: the current directory is a page, and none of its kernel tables is that
page. -/
structure KernelReady (p : Paging) : Prop where
  total : p.totalPages ≤ 1048576
  aligned : p.currentPageDirectory % 4096 = 0
  apart : ∀ j < 256, present (p.dirEntry (768 + j)) →
    p.dirEntry (768 + j) / 4096 ≠ p.currentPageDirectory / 4096

theorem KernelReady.inv {p : Paging} (h : KernelReady p) : Spaces.KernelInv ⟨p, []⟩ := by
  refine ⟨h.total, ?_, by simp, ?_⟩
  · simpa [Spaces.directories] using h.aligned
  · simpa [Spaces.directories, Spaces.NoTable] using h.apart

section Boot

variable {total : ℕ} {boot : Paging}

section

variable (hk : KernelMapped 4 boot)
include hk

theorem KernelMapped.dirEntry {j : ℕ} (hj : j < 256) :
    boot.dirEntry (768 + j) = if j < 4 then 0x6003 + 4096 * j else 0 := by
  unfold Paging.dirEntry
  rw [hk.directory]
  exact hk.tables j hj

theorem KernelMapped.ready (htotal : boot.totalPages ≤ 1048576) : KernelReady boot := by
  refine ⟨htotal, ?_, ?_⟩
  · rw [hk.directory]
  · intro j hj
    rw [hk.dirEntry hj, hk.directory]
    split_ifs
    · omega
    · simp [present]

/-- The first page after `paging_init` is apart from the directory and its tables. -/
theorem KernelMapped.spares : Spaces.Spares ⟨boot, []⟩ 256 ∧ Spaces.NoTable ⟨boot, []⟩ 256 := by
  constructor
  · intro d hd
    simp only [Spaces.directories, hk.directory, List.mem_singleton] at hd
    subst hd
    decide
  · intro j hj
    rw [hk.dirEntry hj]
    split_ifs
    · omega
    · simp [present]

end

theorem pagingInit_kernelReady (mem : ℕ → UInt8) {memsize : ℕ} (processId : ℕ)
    (hsize : memsize < 4294967296) (htotal : 256 < memsize / pageSize) :
    KernelReady (pagingInit mem memsize processId) := by
  apply (pagingInit_kernelMapped mem memsize processId).ready
  rw [(pagingInit_booted mem processId hsize htotal).totalPages]
  unfold pageSize
  omega

theorem Booted.create (hb : Booted total boot) (hk : KernelMapped 4 boot) (htotal : 256 < total)
    (hmax : total ≤ 1048576) :
    ∃ p q, Allocated boot p 256 ∧ CopiedHalf p q 256 ∧
      Spaces.step ⟨boot, []⟩ .create = some ⟨q, [0x100000]⟩ ∧
      entry q.mem 0x100000 768 = 0x6003 := by
  obtain ⟨p, q, hp, hq, hstep⟩ :=
    Spaces.step_create_some (s := ⟨boot, []⟩) (hb.findFreePage htotal) (by decide)
  refine ⟨p, q, hp, hq, hstep, ?_⟩
  have hready := hk.ready (hb.totalPages ▸ hmax)
  have hhalves := Spaces.sameHalves_allocated hready.inv hk.spares.1 hp
  calc entry q.mem 0x100000 768 = p.dirEntry 768 := hq.kernel 0 (by decide)
    _ = boot.dirEntry 768 := hhalves.dirEntry (j := 0) (by decide)
    _ = 0x6003 := hk.dirEntry (j := 0) (by decide)

end Boot

/-- The kernel half stays shared in every run whose calls keep the condition. -/
theorem kernelHalf_shared {p : Paging} (hp : KernelReady p) {ops : List KernelOp}
    (hops : Meets Spaces.step (fun s op => s.Legal op ∧ s.Keeps op) ⟨p, []⟩ ops) :
    Throughout Spaces.step Spaces.Shared ⟨p, []⟩ ops := by
  have hrun : Throughout Spaces.step Spaces.KernelInv ⟨p, []⟩ ops :=
    throughout_of_meets Spaces.step (fun s op t hs hop ht => hs.step hop.1 hop.2 ht) hp.inv hops
  exact hrun.imp Spaces.step fun s hs => hs.shared

theorem kernelHalf_shared_boot :
    Throughout Spaces.step Spaces.Shared ⟨pagingInit (fun _ => 0) 0x400000 0, []⟩
      [.create, .switch 0x100000, .map 0x5000 0xC0000000 3] := by
  have hb := pagingInit_booted (fun _ => 0) 0 (by decide : 0x400000 < 4294967296) (by decide)
  have hk := pagingInit_kernelMapped (fun _ => 0) 0x400000 0
  have hready := pagingInit_kernelReady (fun _ => 0) 0
    (by decide : 0x400000 < 4294967296) (by decide)
  generalize pagingInit (fun _ => 0) 0x400000 0 = boot at *
  refine kernelHalf_shared hready ?_
  obtain ⟨p, q, _, _, hstep, hentry⟩ := hb.create hk (by decide) (by decide)
  have hfind : findFreePage boot = some 256 := hb.findFreePage (by decide)
  refine ⟨⟨trivial, ?_⟩, ?_⟩
  · intro i hi
    obtain rfl : i = 256 := Option.some.inj (hi.symm.trans hfind)
    exact hk.spares
  · intro t ht
    obtain rfl := Option.some.inj (hstep.symm.trans ht)
    refine ⟨⟨List.mem_singleton.mpr rfl, trivial⟩, ?_⟩
    intro t ht
    cases ht
    refine ⟨⟨(by decide : KernelAddr 0xC0000000), ?_⟩, fun _ _ => trivial⟩
    -- the table of the address is there
    rintro ⟨-, habsent⟩
    have hpresent : present (entry q.mem 0x100000 768) = false := habsent
    rw [hentry] at hpresent
    exact absurd hpresent (by decide)

/-- With 4 MiB, the second of three creations takes page 0, which is no result, and the third takes
the page of the boot directory, so that the spaces at 1 MiB and at `0x1000` map `0xC0000000`
differently. -/
theorem kernelHalf_diverges :
    Meets Spaces.step Spaces.Legal ⟨pagingInit (fun _ => 0) 0x400000 0, []⟩
      [.create, .create, .create] ∧
    ¬ Throughout Spaces.step Spaces.Shared ⟨pagingInit (fun _ => 0) 0x400000 0, []⟩
      [.create, .create, .create] := by
  have hb := pagingInit_booted (fun _ => 0) 0 (by decide : 0x400000 < 4294967296) (by decide)
  have hk := pagingInit_kernelMapped (fun _ => 0) 0x400000 0
  refine ⟨⟨trivial, fun _ _ => ⟨trivial, fun _ _ => ⟨trivial, fun _ _ => trivial⟩⟩⟩, ?_⟩
  intro hrun
  obtain ⟨p₁, s₁, hp₁, hs₁, hstep₁, hentry₁⟩ := hb.create hk (by decide) (by decide)
  have htotal₁ : s₁.totalPages = 1024 :=
    hs₁.totalPages.trans (hp₁.totalPages.trans hb.totalPages)
  have hdir₁ : s₁.currentPageDirectory = 0x1000 :=
    hs₁.directory.trans (hp₁.directory.trans hk.directory)
  -- the page-information array starts in the new directory, so pages 0 and 1 look free
  have hfree₁ : ∀ k < 2, s₁.pageState k = pageFree := by
    intro k hk
    have hinfo : pageInfo k < 0x100018 ∧ 0x100000 ≤ pageInfo k := by
      unfold pageInfo
      omega
    exact (hs₁.mem _ (by omega)).trans (hp₁.zero _ (by omega))
  have hfind₁ : findFreePage s₁ = some 0 :=
    findFreePage_first (by omega) (hfree₁ 0 (by decide)) (by simp)
  obtain ⟨s₂, hs₂, hstep₂⟩ := Spaces.step_create_zero (s := ⟨s₁, [0x100000]⟩) hfind₁
  have hfind₂ : findFreePage s₂ = some 1 := by
    have hst : ∀ k < 2, s₂.pageState k = if k = 0 then pageUsed else s₁.pageState k := by
      intro k hk
      rw [← claimPage_state]
      exact hs₂.claimed _ (by unfold pageInfo; omega)
    refine findFreePage_first ?_ ?_ ?_
    · rw [hs₂.totalPages.trans htotal₁]
      decide
    · rw [hst 1 (by decide)]
      exact hfree₁ 1 (by decide)
    · intro j hj
      obtain rfl : j = 0 := by omega
      rw [hst 0 (by decide), if_pos rfl]
      decide
  obtain ⟨p₃, s₃, hp₃, hs₃, hstep₃⟩ :=
    Spaces.step_create_some (s := ⟨s₂, [0x100000]⟩) hfind₂ (by decide)
  -- the third directory is empty, the first is as it was
  have hnew : entry s₃.mem 0x1000 768 = 0 := by
    have hcopy : entry s₃.mem 0x1000 768 = p₃.dirEntry 768 := hs₃.kernel 0 (by decide)
    have hdir₃ : p₃.currentPageDirectory = 4096 * 1 :=
      hp₃.directory.trans (hs₂.directory.trans hdir₁)
    rw [hcopy]
    unfold Paging.dirEntry
    rw [hdir₃]
    exact entry_of_zero hp₃.zero (by decide)
  have hmem₃ : ∀ x, 0x2000 ≤ x → (x < 0x100000 ∨ 0x100018 ≤ x) → s₃.mem x = s₁.mem x := by
    intro x hx hx'
    have hinfo : ∀ i < 2, 0x100000 ≤ pageInfo i ∧ pageInfo i + 12 ≤ 0x100018 := by
      intro i hi
      unfold pageInfo
      omega
    have h0 := hinfo 0 (by decide)
    have h1 := hinfo 1 (by decide)
    rw [hs₃.mem x (by omega), hp₃.mem (by omega) (by omega)]
    exact hs₂.mem (by omega) (by omega)
  have hentry : entry s₃.mem 0x100000 768 = 0x6003 :=
    (read32_congr fun x _ _ => hmem₃ x (by omega) (by omega)).trans hentry₁
  have htable : entry s₃.mem 0x6000 0 = 0x103 := by
    refine Eq.trans (read32_congr fun x hx hx' => ?_) (hk.pages 0 (by decide) 0 (by decide))
    have hinfo : 0x100000 ≤ pageInfo 256 := by unfold pageInfo; omega
    rw [hmem₃ x (by omega) (by omega), hs₁.mem x (by omega)]
    exact hp₁.mem (by omega) (by omega)
  have hrun₁ := ((throughout_cons Spaces.step _ _ _ _).mp hrun).2 _ hstep₁
  have hrun₂ := ((throughout_cons Spaces.step _ _ _ _).mp hrun₁).2 _ hstep₂
  have hrun₃ := ((throughout_cons Spaces.step _ _ _ _).mp hrun₂).2 _ hstep₃
  have hshared : walk s₃.mem 0x100000 0xC0000000 = walk s₃.mem 0x1000 0xC0000000 :=
    hrun₃.head Spaces.step _ (by simp) _ (by simp) _ (by decide)
  have hfirst : walk s₃.mem 0x100000 0xC0000000 = some 0x103 := by
    unfold walk
    rw [show dirIndex 0xC0000000 = 768 from rfl, show tableIndex 0xC0000000 = 0 from rfl, hentry,
      show frame 0x6003 = 0x6000 from rfl, htable]
    rfl
  have hlast : walk s₃.mem 0x1000 0xC0000000 = none := by
    unfold walk
    rw [show dirIndex 0xC0000000 = 768 from rfl, hnew]
    rfl
  rw [hfirst, hlast] at hshared
  cases hshared

end UintOS.PageManager
