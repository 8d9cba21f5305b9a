import UintOS.Memory.Paging.Boot

/-!
# Protected and reserved pages

A page in a protected region should never be handed out, and a reserved page never become free. The
two tables behind this do not match: allocation only looks at the page states, which leave the
protected pages from 1 MiB on free; freeing only looks at the regions, which leave the reserved
pages 10 to 255 unprotected. So the property holds exactly when a run allocates nothing and frees
none of those pages.
-/

namespace UintOS.PageManager

open List Loops Machine Runs

structure Circulation where
  paging : Paging
  returned : List ℕ

inductive PageOp
  | allocatePage
  | allocatePages (num : ℕ)
  | freePage (page : ℕ)
  | freePages (start num : ℕ)

namespace Circulation

def pagesOf (start num : ℕ) : List ℕ :=
  if start = 0 then [] else (List.range num).map fun i => start + i * pageSize

def step (s : Circulation) : PageOp → Option Circulation
  | .allocatePage =>
    let r := allocatePage s.paging
    some ⟨r.1, pagesOf r.2 1 ++ s.returned⟩
  | .allocatePages num =>
    let r := allocatePages s.paging num
    some ⟨r.1, pagesOf r.2 num ++ s.returned⟩
  | .freePage page => some ⟨freePage s.paging page, s.returned⟩
  | .freePages start num => some ⟨freePages s.paging start num, s.returned⟩

/-- No returned page is in a protected region, and no page reserved in `boot` is free. -/
def Withheld (boot : Paging) (s : Circulation) : Prop :=
  (∀ a ∈ s.returned, getProtectedRegion s.paging a = none) ∧
    ∀ k < boot.totalPages, boot.pageState k = pageReserved → s.paging.pageState k ≠ pageFree

end Circulation

/-- A page that is reserved but in no protected region. -/
def Exposed (page : ℕ) : Prop := 0xA000 ≤ page ∧ page < 0x100000

/-- The calls that leave a machine of `total` pages as it was booted. -/
def Harmless (total : ℕ) : PageOp → Prop
  | .allocatePage => False
  | .allocatePages num => num = 0 ∨ total - 256 < num
  | .freePage page => ¬ Exposed page
  | .freePages start num => ∀ i < num, ¬ Exposed (add32 start (mul32 i pageSize))

instance (page : ℕ) : Decidable (Exposed page) :=
  inferInstanceAs (Decidable (_ ∧ _))

instance (total : ℕ) : (op : PageOp) → Decidable (Harmless total op)
  | .allocatePage => inferInstanceAs (Decidable False)
  | .allocatePages _ => inferInstanceAs (Decidable (_ ∨ _))
  | .freePage _ => inferInstanceAs (Decidable (¬ Exposed _))
  | .freePages _ _ => inferInstanceAs (Decidable (∀ i < _, ¬ Exposed _))

theorem getProtectedRegion_isSome (s : Paging) (addr : ℕ) : (getProtectedRegion s addr).isSome ↔
      ∃ p ∈ s.protectedRegions.map (fun r => (r.start, r.stop)), p.1 ≤ addr ∧ addr < p.2 := by
  unfold getProtectedRegion
  simp [find?_isSome]

variable {s : Paging} {k page : ℕ}

theorem pageState_zero_free (hk : s.pageState k = pageFree) (a n : ℕ) :
    (s.zero a n).pageState k = pageFree := by
  unfold Paging.zero Paging.pageState fill
  dsimp only
  split_ifs
  · rfl
  · exact hk

/-- `releasePage` makes the page free and keeps free pages free. -/
theorem releasePage_state (hk : k = page / pageSize ∨ s.pageState k = pageFree) :
    (releasePage s page).pageState k = pageFree := by
  have hst : ((((s.setState (page / pageSize) pageFree).setReferences (page / pageSize)
      0).setFlags (page / pageSize) 0).setOwner (page / pageSize) 0).pageState k = pageFree := by
    rw [Paging.pageState_setOwner, Paging.pageState_setFlags, Paging.pageState_setReferences,
      Paging.pageState_setState]
    split_ifs with hki
    · rfl
    · exact hk.resolve_left hki
  exact pageState_zero_free hst page pageSize

theorem freePage_free (hk : s.pageState k = pageFree) :
    (freePage s page).pageState k = pageFree := by
  unfold freePage
  dsimp only
  split_ifs
  · exact hk
  · exact hk
  · exact hk
  · rwa [Paging.pageState_setReferences]
  · exact releasePage_state (.inr hk)

theorem claimPage_regions (s : Paging) (i : ℕ) :
    (claimPage s i).protectedRegions = s.protectedRegions := by
  unfold claimPage
  dsimp only
  split_ifs <;> rfl

section Booted

variable {total : ℕ} {s : Paging}

theorem Booted.protectedRegion (hb : Booted total s) (addr : ℕ) :
    (getProtectedRegion s addr).isSome ↔ addr < 0xA000 ∨ 0x100000 ≤ addr ∧ addr < 0x200000 := by
  rw [getProtectedRegion_isSome, hb.regions]
  simp only [mem_cons, not_mem_nil, or_false, exists_eq_or_imp, exists_eq_left]
  omega

variable {num start i : ℕ}

theorem findRun_used {is : List ℕ} (hused : ∀ i ∈ is, s.pageState i ≠ pageFree) (js : List ℕ)
    (start : ℕ) : findRun s num (is ++ js) start 0 = findRun s num js start 0 := by
  induction is with
  | nil => rfl
  | cons i is ih =>
    rw [cons_append, findRun, if_neg (hused i (by simp))]
    exact ih fun j hj => hused j (by simp [hj])

/-- The search of `allocate_pages` succeeds on enough free pages in a row. -/
theorem findRun_free {n : ℕ} (hfree : ∀ j, i ≤ j → j < i + n → s.pageState j = pageFree)
    (js : List ℕ) {found : ℕ} (hfound : found ≠ 0) (hnum : found + n = num) (hn : n ≠ 0) :
    findRun s num (List.range' i n ++ js) start found = some start := by
  induction n generalizing i found with
  | zero => exact absurd rfl hn
  | succ n ih =>
    rw [range'_succ, cons_append, findRun, if_pos (hfree i (by omega) (by omega))]
    simp only [if_neg hfound]
    split_ifs with hlast
    · rfl
    · exact ih (fun j hj hj' => hfree j (by omega) (by omega)) (by omega) (by omega) (by omega)

section

variable (hb : Booted total s)
include hb

theorem Booted.findRun (hnum : 2 ≤ num) (hle : num ≤ total - 256) :
    findRun s num (List.range s.totalPages) 0 0 = some 256 := by
  obtain ⟨m, rfl⟩ : ∃ m, num = m + 1 := ⟨num - 1, by omega⟩
  obtain ⟨r, rfl⟩ : ∃ r, total = 256 + (m + 1 + r) := ⟨total - (256 + (m + 1)), by omega⟩
  have hsplit : List.range s.totalPages =
      List.range' 0 256 ++ (256 :: (List.range' 257 m ++ List.range' (257 + m) r)) := by
    have hfirst := @range'_append_1 0 256 (m + 1 + r)
    have hnext := @range'_append_1 257 m r
    have hcons : List.range' 256 (m + 1 + r) = 256 :: List.range' 257 (m + r) := by
      rw [add_right_comm, range'_succ]
    rw [hb.totalPages, range_eq_range', ← hfirst, zero_add, hcons, hnext]
  rw [hsplit, findRun_used, PageManager.findRun, if_pos (hb.free 256 (by omega) (by omega))]
  · simp only [if_true, zero_add]
    rw [if_neg (by omega)]
    exact findRun_free (fun j hj hj' => hb.free j (by omega) (by omega)) _ (by omega) (by omega)
      (by omega)
  · intro i hi
    rw [hb.reserved i (by simpa using hi)]
    decide

theorem Booted.freePage_exposed (htotal : 512 < total)
    (hp : Exposed page) : (freePage s page).pageState (page / pageSize) = pageFree := by
  unfold Exposed at hp
  have hk : page / pageSize < 256 := by
    unfold pageSize
    omega
  have hregion : ¬ (getProtectedRegion s page).isSome := by
    rw [hb.protectedRegion]
    omega
  unfold freePage
  rw [hb.totalPages, if_neg (by omega), hb.reserved _ hk, if_neg (by decide), if_neg hregion,
    hb.references _ (by omega), if_neg (by decide)]
  exact releasePage_state (.inl rfl)

theorem Booted.freePage_eq (hp : ¬ Exposed page) : freePage s page = s := by
  unfold Exposed at hp
  unfold freePage
  rw [hb.totalPages]
  by_cases hout : total ≤ page / pageSize
  · rw [if_pos hout]
  by_cases hfree : 256 ≤ page / pageSize
  · rw [if_neg hout, if_pos (hb.free _ hfree (by omega))]
  · have hregion : (getProtectedRegion s page).isSome := by
      rw [hb.protectedRegion]
      unfold pageSize at hfree
      omega
    rw [if_neg hout, hb.reserved _ (by omega), if_neg (by decide), if_pos hregion]

theorem Booted.freePages_eq (hp : ∀ i < num, ¬ Exposed (add32 start (mul32 i pageSize))) :
    PageManager.freePages s start num = s := by
  refine foldl_range (P := fun _ t => t = s) rfl ?_
  rintro i t hi rfl
  exact hb.freePage_eq (hp i hi)

/-- One exposed page in a run is enough to free a reserved page. -/
theorem Booted.freePages_exposed (htotal : 512 < total) (hi : i < num)
    (hp : Exposed (add32 start (mul32 i pageSize))) :
    ∃ k < 256, (PageManager.freePages s start num).pageState k = pageFree := by
  have hrun : (PageManager.freePages s start num = s ∧
      ∀ j < num, ¬ Exposed (add32 start (mul32 j pageSize))) ∨
      ∃ k < 256, (PageManager.freePages s start num).pageState k = pageFree := by
    refine foldl_range (P := fun n t => (t = s ∧
      ∀ j < n, ¬ Exposed (add32 start (mul32 j pageSize))) ∨
      ∃ k < 256, t.pageState k = pageFree) (.inl ⟨rfl, by simp⟩) ?_
    rintro n t - (⟨rfl, hj⟩ | ⟨k, hk, hfree⟩)
    · by_cases hexp : Exposed (add32 start (mul32 n pageSize))
      · refine .inr ⟨_, ?_, hb.freePage_exposed htotal hexp⟩
        unfold Exposed at hexp
        unfold pageSize
        unfold pageSize at hexp
        omega
      · refine .inl ⟨hb.freePage_eq hexp, ?_⟩
        intro j hjn
        rcases Nat.lt_succ_iff_lt_or_eq.mp hjn with hlt | rfl
        · exact hj j hlt
        · exact hexp
    · exact .inr ⟨k, hk, freePage_free hfree⟩
  rcases hrun with ⟨_, hnone⟩ | hfree
  · exact absurd hp (hnone i hi)
  · exact hfree

section

variable (htotal : 512 < total) (hnum : num ≠ 0) (hle : num ≤ total - 256)
include htotal hnum hle

/-- Every allocation starts at the first free page, protected, at 1 MiB. -/
theorem Booted.allocatePages_result : (allocatePages s num).2 = 0x100000 ∧
      (allocatePages s num).1.protectedRegions = s.protectedRegions := by
  unfold allocatePages
  rw [if_neg hnum]
  by_cases hone : num = 1
  · rw [if_pos hone]
    unfold allocatePage
    rw [hb.findFreePage (by omega)]
    exact ⟨rfl, claimPage_regions s 256⟩
  · have hfree : ¬ s.freePages < num := by
      rw [hb.freePages]
      omega
    rw [if_neg hone, if_neg hfree, hb.findRun (by omega) hle]
    refine ⟨rfl, ?_⟩
    show (List.foldl (fun s j => claimPage s (256 + j)) s (List.range num)).protectedRegions = _
    refine foldl_range (P := fun _ (t : Paging) => t.protectedRegions = s.protectedRegions) rfl ?_
    intro i t _ ht
    exact (claimPage_regions t _).trans ht

theorem Booted.allocatePages_protected : ∃ a ∈ Circulation.pagesOf (allocatePages s num).2 num,
      getProtectedRegion (allocatePages s num).1 a ≠ none := by
  obtain ⟨hres, hregions⟩ := hb.allocatePages_result htotal hnum hle
  refine ⟨0x100000, ?_, ?_⟩
  · rw [hres]
    unfold Circulation.pagesOf
    exact mem_map.mpr ⟨0, mem_range.mpr (by omega), rfl⟩
  · rw [← Option.isSome_iff_ne_none, getProtectedRegion_isSome, hregions,
      ← getProtectedRegion_isSome, hb.protectedRegion]
    decide

end

theorem Booted.allocatePages_none (hnum : num = 0 ∨ total - 256 < num)
    (htotal : 512 < total) : allocatePages s num = (s, 0) := by
  unfold allocatePages
  by_cases h0 : num = 0
  · rw [if_pos h0]
  · rw [if_neg h0, if_neg (by omega), hb.freePages, if_pos (by omega)]

end

end Booted

namespace Circulation

variable {total : ℕ} {boot : Paging} {op : PageOp}

theorem step_isSome (s : Circulation) (op : PageOp) : (s.step op).isSome := by
  cases op <;> rfl

theorem withheld_boot (boot : Paging) : Withheld boot ⟨boot, []⟩ := by
  refine ⟨by simp, ?_⟩
  intro k _ hk
  rw [hk]
  decide

theorem step_harmless (hb : Booted total boot) (htotal : 512 < total)
    (hop : Harmless total op) : step ⟨boot, []⟩ op = some ⟨boot, []⟩ := by
  cases op with
  | allocatePage => exact absurd hop id
  | allocatePages num => simp [step, hb.allocatePages_none hop htotal, pagesOf]
  | freePage page => simp [step, hb.freePage_eq hop]
  | freePages start num => simp [step, hb.freePages_eq hop]

/-- Any other call hands out a protected page or frees a reserved one. -/
theorem step_harmful (hb : Booted total boot) (htotal : 512 < total)
    (hop : ¬ Harmless total op) {t : Circulation} (ht : step ⟨boot, []⟩ op = some t) :
    ¬ Withheld boot t := by
  have hreserved : ∀ k < 256, k < boot.totalPages ∧ boot.pageState k = pageReserved := fun k hk =>
    ⟨by rw [hb.totalPages]; omega, hb.reserved k hk⟩
  rintro ⟨hreturned, hkept⟩
  cases op with
  | allocatePage =>
    obtain ⟨a, ha, hregion⟩ := hb.allocatePages_protected htotal one_ne_zero (by omega)
    have hone : allocatePages boot 1 = allocatePage boot := by simp [allocatePages]
    rw [hone] at ha hregion
    cases ht
    exact hregion (hreturned a (by simpa using ha))
  | allocatePages num =>
    unfold Harmless at hop
    have hnum : num ≠ 0 ∧ num ≤ total - 256 := by omega
    obtain ⟨a, ha, hregion⟩ := hb.allocatePages_protected htotal hnum.1 hnum.2
    cases ht
    exact hregion (hreturned a (by simpa using ha))
  | freePage page =>
    have hexp : Exposed page := not_not.mp hop
    have hk : page / pageSize < 256 := by
      unfold Exposed at hexp
      unfold pageSize
      omega
    cases ht
    exact hkept _ (hreserved _ hk).1 (hreserved _ hk).2 (hb.freePage_exposed htotal hexp)
  | freePages start num =>
    unfold Harmless at hop
    push Not at hop
    obtain ⟨i, hi, hexp⟩ := hop
    obtain ⟨k, hk, hfree⟩ := hb.freePages_exposed htotal hi hexp
    cases ht
    exact hkept k (hreserved k hk).1 (hreserved k hk).2 hfree

end Circulation

/-- Protected and reserved pages stay out of circulation exactly in the runs that allocate
nothing and free no exposed page. -/
theorem withheld_iff (mem : ℕ → UInt8) (memsize processId : ℕ) (hsize : memsize < 4294967296)
    (htotal : 512 < memsize / pageSize) (ops : List PageOp) :
    Throughout Circulation.step (Circulation.Withheld (pagingInit mem memsize processId))
      ⟨pagingInit mem memsize processId, []⟩ ops ↔
    ∀ op ∈ ops, Harmless (memsize / pageSize) op := by
  have hb := pagingInit_booted mem processId hsize (by omega)
  generalize pagingInit mem memsize processId = boot at *
  generalize memsize / pageSize = total at *
  rw [← meets_const Circulation.step Circulation.step_isSome ⟨boot, []⟩ ops]
  refine throughout_iff_meets Circulation.step (I := (· = ⟨boot, []⟩)) ?_ ?_ rfl ops
  · rintro s rfl
    exact Circulation.withheld_boot boot
  · rintro s op rfl
    obtain ⟨t, ht⟩ := Option.isSome_iff_exists.mp (Circulation.step_isSome ⟨boot, []⟩ op)
    refine ⟨t, ht, fun hop => ?_, fun hop => Circulation.step_harmful hb htotal hop ht⟩
    rw [Circulation.step_harmless hb htotal hop] at ht
    exact (Option.some.inj ht).symm

theorem withheld_iff_zeroed :
    Throughout Circulation.step (Circulation.Withheld (pagingInit (fun _ => 0) 0x400000 0))
      ⟨pagingInit (fun _ => 0) 0x400000 0, []⟩ [.freePage 0x5000, .freePages 0x100000 8] := by
  refine (withheld_iff (fun _ => 0) 0x400000 0 (by decide) (by decide) _).mpr ?_
  intro op hop
  simp only [mem_cons, not_mem_nil, or_false] at hop
  rcases hop with rfl | rfl <;> decide

/-- The first allocation on 4 MiB hands out the protected page at 1 MiB. -/
theorem allocation_protected :
    ¬ Throughout Circulation.step (Circulation.Withheld (pagingInit (fun _ => 0) 0x400000 0))
      ⟨pagingInit (fun _ => 0) 0x400000 0, []⟩ [.allocatePage] := by
  intro hrun
  have hb := pagingInit_booted (fun _ => 0) 0 (by decide : 0x400000 < 4294967296) (by decide)
  have hnext := ((throughout_cons Circulation.step _ _ _ _).mp hrun).2 _ rfl
  have hop : ¬ Harmless (0x400000 / pageSize) .allocatePage := id
  exact Circulation.step_harmful hb (by decide) hop rfl hnext.head

end UintOS.PageManager
