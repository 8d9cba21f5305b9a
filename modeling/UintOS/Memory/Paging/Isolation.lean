import UintOS.Memory.Paging.Clone
import UintOS.Memory.Paging.UserWrites

/-!
# Isolation of copy-on-write clones

After `paging_clone_address_space(1)` the source and the clone share their pages. As long as no
shared page counts fewer references than the two spaces have slots for it, a user write in one space
is not seen in the other. A page that was mapped without being counted, as `paging_init` maps pages,
is counted once after the clone but mapped twice: the first write makes it writable in place.
-/

namespace UintOS.PageManager

open Machine PageTable CopyOnWrite

/-- A byte written by a user program, in the clone or in the source. -/
structure UserWrite where
  inClone : Bool
  va : ℕ
  value : UInt8

def UserWrite.IsUser (w : UserWrite) : Prop := w.va < 0xC0000000

def directoryOf (source clone : ℕ) (inClone : Bool) : ℕ := if inClone then clone else source

def applyWrite (source clone : ℕ) (s : Paging) (w : UserWrite) : Paging :=
  userWrite s (directoryOf source clone w.inClone) w.va w.value

/-- A source address space: its directory is a page; the page-information array, the directory and
the user tables are in use and apart from each other and from the mapped pages, which are in use;
and the references of a page after the clone are none, or at least one for each of its slots in both
spaces. -/
structure Cloneable (s : Paging) : Prop where
  aligned : s.currentPageDirectory % 4096 = 0
  nonzero : s.currentPageDirectory ≠ 0
  layout : Layout s fun _ : Unit => s.currentPageDirectory / 4096
  counted : ∀ k, s.IsMapped (fun _ : Unit => s.currentPageDirectory / 4096) k →
    (s.references k + slotCount s (s.currentPageDirectory / 4096) 768 k) % 65536 = 0 ∨
    2 * slotCount s (s.currentPageDirectory / 4096) 768 k ≤
      (s.references k + slotCount s (s.currentPageDirectory / 4096) 768 k) % 65536

section Writes

variable {s : Paging} {c d : ℕ}

theorem directoryOf_eq (c d : ℕ) (b : Bool) :
    directoryOf (4096 * c) (4096 * d) b = 4096 * spacesOf c d b := by
  cases b <;> rfl

section

variable (hs : Layout s (spacesOf c d)) (hinv : Inv (slots Bool) (sharing s (spacesOf c d)))
  (hc : c ≠ 0) (hd : d ≠ 0)
include hs hinv hc hd

/-- A write keeps the sharing in order, unseen in the other space. -/
theorem applyWrite_spec {w : UserWrite} (hw : w.IsUser) :
    Layout (applyWrite (4096 * c) (4096 * d) s w) (spacesOf c d) ∧
    Inv (slots Bool) (sharing (applyWrite (4096 * c) (4096 * d) s w) (spacesOf c d)) ∧
    ∀ va < 0xC0000000,
      load (applyWrite (4096 * c) (4096 * d) s w).mem (4096 * spacesOf c d !w.inClone) va =
        load s.mem (4096 * spacesOf c d !w.inClone) va := by
  have hb : spacesOf c d w.inClone ≠ 0 := by
    cases w.inClone
    · exact hc
    · exact hd
  have hslot : ∀ (b : Bool), ∀ va < 0xC0000000, (b, dirIndex va, tableIndex va) ∈ slots Bool := by
    intro b va hva
    refine mem_slots.mpr ⟨?_, tableIndex_lt va⟩
    unfold dirIndex
    omega
  unfold applyWrite
  rw [directoryOf_eq]
  obtain ⟨hlayout, fresh, hfr, hagree⟩ := userWrite_spec hs hb hw w.value
  refine ⟨hlayout, hagree.inv (hinv.write _ (hslot _ _ hw) hfr), ?_⟩
  intro va hva
  have hother : ((!w.inClone), dirIndex va, tableIndex va) ≠
      (w.inClone, dirIndex w.va, tableIndex w.va) := by
    intro heq
    exact absurd (Prod.mk.inj heq).1 (by simp)
  rw [load_eq_view, load_eq_view, hagree.view (hslot _ va hva),
    hinv.write_view _ (hslot _ _ hw) hfr (hslot _ va hva) hother]

theorem applyWrites_inv {ws : List UserWrite} (hws : ∀ w ∈ ws, w.IsUser) :
    Layout (ws.foldl (applyWrite (4096 * c) (4096 * d)) s) (spacesOf c d) ∧
    Inv (slots Bool) (sharing (ws.foldl (applyWrite (4096 * c) (4096 * d)) s) (spacesOf c d)) := by
  induction ws generalizing s with
  | nil => exact ⟨hs, hinv⟩
  | cons w ws ih =>
    obtain ⟨hs', hinv', -⟩ := applyWrite_spec hs hinv hc hd (hws w (by simp))
    exact ih hs' hinv' fun w' hw' => hws w' (by simp [hw'])

end

end Writes

section Sample

variable {k q j : ℕ} (r : ℕ)

theorem sample_total : (sample r).totalPages = 600 := rfl

theorem sample_isFree (k : ℕ) : (sample r).IsFree k ↔ 302 ≤ k ∧ k < 600 := by
  unfold Paging.IsFree Paging.pageState sample pageInfo
  dsimp only
  constructor
  · rintro ⟨hk, hfree⟩
    by_contra hlt
    rw [write16_of_out (by omega), write32_of_out (by omega), write32_of_out (by omega),
      if_pos (by omega)] at hfree
    exact absurd hfree (by decide)
  · rintro ⟨hk, hk'⟩
    refine ⟨hk', ?_⟩
    rw [write16_of_out (by omega), write32_of_out (by omega), write32_of_out (by omega),
      if_neg (by omega)]
    rfl

theorem sample_mem {x : ℕ} (hx : 4096 * 300 ≤ x) : (sample r).mem x =
    write32 (write32 (fun _ => 0) (4096 * 300) 0x12D007) (4096 * 301) 0xB8007 x := by
  unfold sample pageInfo
  dsimp only
  rw [write16_of_out (by omega)]
  unfold write32
  dsimp only
  split_ifs <;> first | rfl | omega

theorem sample_dirEntry (hq : q < 1024) :
    entry (sample r).mem (4096 * 300) q = if q = 0 then 0x12D007 else 0 := by
  have hmem : entry (sample r).mem (4096 * 300) q =
      entry (write32 (fun _ => 0) (4096 * 300) 0x12D007) (4096 * 300) q := by
    refine read32_congr fun x hx hx' => ?_
    rw [sample_mem r (by omega), write32_of_out (by omega)]
  rw [hmem]
  split_ifs with h0
  · subst h0
    exact entry_setEntry (i := 0) (by decide)
  · exact (entry_setEntry_ne (i := 0) h0).trans rfl

theorem sample_tableEntry (hj : j < 1024) :
    entry (sample r).mem (4096 * 301) j = if j = 0 then 0xB8007 else 0 := by
  have hmem : entry (sample r).mem (4096 * 301) j =
      entry (write32 (fun _ => 0) (4096 * 301) 0xB8007) (4096 * 301) j := by
    refine read32_congr fun x hx hx' => ?_
    rw [sample_mem r (by omega)]
    unfold write32
    split_ifs <;> first | rfl | omega
  rw [hmem]
  split_ifs with h0
  · subst h0
    exact entry_setEntry (i := 0) (by decide)
  · exact (entry_setEntry_ne (i := 0) h0).trans rfl

theorem sample_lookup (hq : q < 768) (hj : j < 1024) :
    lookup (sample r).mem (4096 * 300) q j = if q = 0 ∧ j = 0 then some 0xB8007 else none := by
  unfold lookup
  rw [sample_dirEntry r (show q < 1024 by omega)]
  by_cases h0 : q = 0
  · rw [if_pos h0, show frame 0x12D007 = 4096 * 301 by decide, sample_tableEntry r hj]
    by_cases hj0 : j = 0
    · simp [h0, hj0, present]
    · simp [hj0, present]
  · simp [h0, present]

theorem sample_slotCount (k : ℕ) : slotCount (sample r) 300 768 k = if k = 184 then 1 else 0 := by
  have hslot : ∀ q < 768, ∀ j < 1024,
      (if (lookup (sample r).mem (4096 * 300) q j).map (· / 4096) = some k then 1 else 0) =
        if q = 0 ∧ j = 0 ∧ k = 184 then 1 else 0 := by
    intro q hq j hj
    rw [sample_lookup r hq hj]
    by_cases h0 : q = 0 ∧ j = 0
    · have hk : (Option.map (· / 4096) (some 0xB8007) = some k) ↔ k = 184 := by
        constructor
        · exact fun h => (Option.some.inj h).symm
        · rintro rfl
          rfl
      rw [if_pos h0]
      simp only [hk, h0.1, h0.2, true_and]
    · have hno : ¬ (q = 0 ∧ j = 0 ∧ k = 184) := fun h => h0 ⟨h.1, h.2.1⟩
      rw [if_neg h0, if_neg hno]
      rfl
  have hrow : ∀ q ∈ Finset.range 768, (∑ j ∈ Finset.range 1024,
      if (lookup (sample r).mem (4096 * 300) q j).map (· / 4096) = some k then 1 else 0) =
        if q = 0 ∧ k = 184 then 1 else 0 := by
    intro q hq
    rw [Finset.sum_congr rfl fun j hj =>
      hslot q (Finset.mem_range.mp hq) j (Finset.mem_range.mp hj),
      Finset.sum_eq_single_of_mem 0 (Finset.mem_range.mpr (by decide))]
    · simp only [true_and]
    · intro j _ hj0
      rw [if_neg fun h => hj0 h.2.1]
  unfold slotCount
  rw [Finset.sum_congr rfl hrow, Finset.sum_eq_single_of_mem 0 (Finset.mem_range.mpr (by decide))]
  · simp only [true_and]
  · intro q _ hq0
    rw [if_neg fun h => hq0 h.1]

theorem sample_isMapped (hk : (sample r).IsMapped (fun _ : Unit => 300) k) : k = 184 := by
  obtain ⟨_, q, hq, j, hj, e, he, rfl⟩ := hk
  rw [sample_lookup r hq hj] at he
  split_ifs at he
  cases he
  rfl

theorem sample_isTable (hk : (sample r).IsTable (fun _ : Unit => 300) k) : k = 301 := by
  obtain ⟨_, q, hq, hp, rfl⟩ := hk
  rw [sample_dirEntry r (show q < 1024 by omega)] at hp ⊢
  split_ifs with h0
  · rfl
  · rw [if_neg h0] at hp
    exact absurd hp (by decide)

theorem sample_infoPage (hk : (sample r).InfoPage k) : k = 256 ∨ k = 257 := by
  unfold Paging.InfoPage at hk
  rw [sample_total] at hk
  omega

theorem sample_layout : Layout (sample r) fun _ : Unit => 300 := by
  have hinfo : ∀ k, k = 184 ∨ 258 ≤ k → ¬ (sample r).InfoPage k := by
    intro k hk hinfo
    rcases sample_infoPage r hinfo with h | h <;> omega
  have hused : ∀ k < 302, ¬ (sample r).IsFree k := by
    intro k hk hfree
    have := (sample_isFree r k).mp hfree
    omega
  refine ⟨by rw [sample_total]; decide, ?_, ?_, ?_, ?_, ?_⟩
  · intro k hk
    rcases sample_infoPage r hk with rfl | rfl
    · exact hused 256 (by decide)
    · exact hused 257 (by decide)
  · exact fun _ => ⟨hused 300 (by decide), hinfo 300 (by decide)⟩
  · intro k hk
    obtain rfl := sample_isTable r hk
    exact ⟨hused 301 (by decide), hinfo 301 (by decide), fun _ => by decide⟩
  · have hzero : ∀ q < 768, present (entry (sample r).mem (4096 * 300) q) → q = 0 := by
      intro q hq hp
      by_contra h0
      rw [sample_dirEntry r (show q < 1024 by omega), if_neg h0] at hp
      exact absurd hp (by decide)
    intro _ _ q q' hq hq' hp hp' _
    exact ⟨rfl, (hzero q hq hp).trans (hzero q' hq' hp').symm⟩
  · intro k hk
    obtain rfl := sample_isMapped r hk
    refine ⟨by rw [sample_total]; decide, hused 184 (by decide), hinfo 184 (by decide),
      fun _ => by decide, ?_⟩
    intro htable
    exact absurd (sample_isTable r htable) (by decide)

theorem sample_references (hr : r < 65536) : (sample r).references 184 = r := read16_write16 hr

theorem sample_clone : ∃ s', cloneAddressSpace (sample r) true = (s', 4096 * 302) := by
  have hs := sample_layout r
  have hfind : findFreePage (sample r) = some 302 := by
    have h302 := (sample_isFree r 302).mpr (by decide)
    refine findFreePage_first h302.1 h302.2 ?_
    intro j hj hfree
    have := (sample_isFree r j).mp ⟨lt_trans hj h302.1, hfree⟩
    omega
  have h302 : (sample r).IsFree 302 := (sample_isFree r 302).mpr (by decide)
  obtain ⟨s₁, h₁, ⟨h0, -⟩ | ⟨-, v, hcreate, hv⟩⟩ := createAddressSpace_some hfind
  · cases h0
  -- the directory loop allocates once, for table 0
  have hpage : OnlyPage 302 s₁ v := ⟨fun x hx => hv.mem x (by omega), hv.totalPages⟩
  have hinfo := (hs.free_spec h302).1
  have hfree : v.IsFree 303 :=
    (hpage.isFree (mt (infoPage_congr h₁.totalPages 302).mp hinfo)).mpr
      ((h₁.isFree hinfo).mpr ⟨(sample_isFree r 303).mpr (by decide), by decide⟩)
  have hloop : ∃ w, (List.range 768).foldlM (cloneTable true (4096 * 302)) v = .ok w ∧
      (Cloning (sample r) w 300 302 768 ∧ (768 = 0 → w.IsFree 303)) := by
    refine Loops.foldlM_range_ok
      (P := fun n v => Cloning (sample r) v 300 302 n ∧ (n = 0 → v.IsFree 303))
      ⟨Cloning.start hs h302 h₁ hv, fun _ => hfree⟩ ?_
    rintro n v hn ⟨hcl, hv⟩
    suffices hok : ∃ w, cloneTable true (4096 * 302) v n = .ok w by
      obtain ⟨w, hw⟩ := hok
      exact ⟨w, hw, hcl.step hs rfl hn hw, by simp⟩
    unfold cloneTable
    have hentry : v.dirEntry n = if n = 0 then 0x12D007 else 0 := by
      unfold Paging.dirEntry
      rw [hcl.directory, ← sample_dirEntry r (show n < 1024 by omega)]
      exact (hcl.sourceDir hs).entry (by omega)
    rw [hentry]
    by_cases h0 : n = 0
    · rw [if_pos h0, if_pos (by decide)]
      cases hfind : findFreePage v with
      | none => exact absurd (hv h0) (findFreePage_eq_none hfind 303)
      | some t =>
        obtain ⟨v₁, halloc, -⟩ := allocatePage_some hfind
        have ht := (sample_isFree r t).mp (hcl.free t (findFreePage_eq_some hfind))
        rw [halloc]
        split
        · next heq => exact absurd (Prod.mk.inj heq).2 (by omega)
        · exact shareTable_ok _ _ _ _ _
    · rw [if_neg h0, if_neg (by decide)]
      exact ⟨v, rfl⟩
  obtain ⟨w, hw, -⟩ := hloop
  refine ⟨{ w with shadowPageDirectory := fun i => entry w.mem (4096 * 302) i }, ?_⟩
  unfold cloneAddressSpace
  rw [hcreate]
  simp only [hw]

end Sample

/-- A write in one of the two spaces of a copy-on-write clone, after any others, does not change
what the other one reads at a user address. -/
theorem clone_isolated {s s' : Paging} {clone : ℕ} (hs : Cloneable s)
    (hclone : cloneAddressSpace s true = (s', clone)) (hdone : clone ≠ 0)
    {ws : List UserWrite} (hws : ∀ w ∈ ws, w.IsUser) {w : UserWrite} (hw : w.IsUser)
    {va : ℕ} (hva : va < 0xC0000000) :
    load (applyWrite s.currentPageDirectory clone
        (ws.foldl (applyWrite s.currentPageDirectory clone) s') w).mem
      (directoryOf s.currentPageDirectory clone !w.inClone) va =
    load (ws.foldl (applyWrite s.currentPageDirectory clone) s').mem
      (directoryOf s.currentPageDirectory clone !w.inClone) va := by
  obtain ⟨haligned, hnonzero, hlayout, hcounted⟩ := hs
  obtain ⟨c, hc⟩ : ∃ c, s.currentPageDirectory / 4096 = c := ⟨_, rfl⟩
  have hcur : s.currentPageDirectory = 4096 * c := by omega
  rw [hc] at hlayout hcounted
  obtain ⟨d, hd, rfl, hcloned⟩ := cloneAddressSpace_spec hlayout hcur hclone hdone
  rw [hcur, directoryOf_eq]
  obtain ⟨hs', hinv⟩ := applyWrites_inv (hcloned.layout hlayout) (hcloned.inv hlayout hcounted)
    (by omega) hd hws
  exact (applyWrite_spec hs' hinv (by omega) hd hw).2.2 va hva

theorem clone_isolated_counted : ∃ s', cloneAddressSpace (sample 1) true = (s', 4096 * 302) ∧
    load (applyWrite (4096 * 300) (4096 * 302) s' ⟨false, 0, 5⟩).mem (4096 * 302) 0 =
      load s'.mem (4096 * 302) 0 := by
  obtain ⟨s', hclone⟩ := sample_clone 1
  refine ⟨s', hclone, ?_⟩
  have hs : Cloneable (sample 1) := by
    refine ⟨rfl, by decide, sample_layout 1, ?_⟩
    intro k hk
    obtain rfl := sample_isMapped 1 hk
    right
    have hcount : slotCount (sample 1) ((sample 1).currentPageDirectory / 4096) 768 184 = 1 :=
      sample_slotCount 1 184
    rw [hcount, sample_references 1 (by decide)]
  have hws : ∀ w ∈ ([] : List UserWrite), w.IsUser := by simp
  have hw : UserWrite.IsUser ⟨false, 0, 5⟩ := by
    unfold UserWrite.IsUser
    decide
  have hva : 0 < 0xC0000000 := by decide
  exact clone_isolated hs hclone (by decide) hws hw hva

/-- Page 184 is mapped but counts no reference. After the clone it counts one; a write of 5 to
address 0 in the source goes to the page in place, and the clone reads it. -/
theorem clone_not_isolated : ∃ s', cloneAddressSpace (sample 0) true = (s', 4096 * 302) ∧
    load s'.mem (4096 * 302) 0 = some 0 ∧
    load (applyWrite (4096 * 300) (4096 * 302) s' ⟨false, 0, 5⟩).mem (4096 * 302) 0 = some 5 := by
  obtain ⟨s', hclone⟩ := sample_clone 0
  refine ⟨s', hclone, ?_⟩
  have hs := sample_layout 0
  obtain ⟨d, -, hd, hcloned⟩ := cloneAddressSpace_spec hs rfl hclone (by decide)
  obtain rfl : d = 302 := by omega
  have hlayout := hcloned.layout hs
  -- both spaces map page 184 read-only, and it counts one reference
  have hlookup : ∀ b, lookup s'.mem (4096 * spacesOf 300 302 b) 0 0 = some 0xB8005 := by
    intro b
    rw [hcloned.lookup hs b (by decide) (by decide), sample_lookup 0 (by decide) (by decide)]
    rfl
  have hmap : ∀ b, (sharing s' (spacesOf 300 302)).map (b, 0, 0) = some (184, false) :=
    fun b => sharing_map (hlookup b)
  have hused : ¬ (sample 0).IsFree 184 := by
    intro hfree
    have := (sample_isFree 0 184).mp hfree
    omega
  have hrefs : (sharing s' (spacesOf 300 302)).refs 184 = 1 := by
    have h := hcloned.references 184 (by decide) hused
    rw [sample_slotCount, sample_references 0 (by decide)] at h
    exact h
  have hzero : (sharing s' (spacesOf 300 302)).data 184 0 = 0 := by
    have hinfo : ¬ (sample 0).InfoPage 184 := by
      intro h
      rcases sample_infoPage 0 h with h | h <;> omega
    have hpage := hcloned.pages 184 hused hinfo fun h => absurd (sample_isTable 0 h) (by decide)
    exact (hpage _ (by decide)).trans (by decide)
  have hview : ∀ t : Paging, load t.mem (4096 * 302) 0 =
      ((sharing t (spacesOf 300 302)).view (true, 0, 0)).map fun page => page 0 := fun t =>
    load_eq_view t (spacesOf 300 302) true 0
  have hslot : ((true, 0, 0) : Bool × ℕ × ℕ) ∈ slots Bool := mem_slots.mpr ⟨by decide, by decide⟩
  constructor
  · rw [hview]
    unfold Sharing.view Sharing.frameOf
    rw [hmap true]
    exact congrArg some hzero
  · -- the write makes page 184 writable in place
    have hva : 0 < 0xC0000000 := by decide
    obtain ⟨-, fresh, -, hagree⟩ := userWrite_spec (b := false) hlayout (by decide) hva 5
    have hwrite : (sharing s' (spacesOf 300 302)).write (false, dirIndex 0, tableIndex 0) fresh
        (setByte 0 5) = (sharing s' (spacesOf 300 302)).move (false, 0, 0) 184
          (setByte 0 5 ((sharing s' (spacesOf 300 302)).data 184)) := by
      unfold Sharing.write
      rw [show dirIndex 0 = 0 from rfl, show tableIndex 0 = 0 from rfl, hmap false]
      simp only [hrefs]
      rfl
    rw [hwrite] at hagree
    rw [hview]
    refine (congrArg (Option.map _) (hagree.view hslot)).trans ?_
    have hframe : (sharing s' (spacesOf 300 302)).frameOf (true, 0, 0) = some 184 :=
      CopyOnWrite.frameOf_eq (hmap true)
    unfold Sharing.view
    rw [frameOf_move, if_neg (by decide), hframe]
    simp [Sharing.move, setByte]

end UintOS.PageManager
