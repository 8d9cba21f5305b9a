import UintOS.Memory.Paging.Layout

/-!
# `paging_clone_address_space` with copy-on-write

The entry loop takes the write permission from every page of a source table, enters the page in the
new table as well and counts one more reference. The directory loop does this for every user table.
Each loop has an invariant that says how far it has come; at the end both spaces map what the source
mapped, read-only.
-/

namespace UintOS.PageManager

open CopyOnWrite Loops Machine Option PageTable

/-- `1` when entry `j` of the table in page `a` maps page `k`. -/
def entryCount (s : Paging) (a j k : ℕ) : ℕ :=
  if present (entry s.mem (4096 * a) j) ∧ entry s.mem (4096 * a) j / 4096 = k then 1 else 0

theorem sum_entryCount_congr {u v : Paging} {a : ℕ}
    (h : ∀ j < 1024, entry u.mem (4096 * a) j = entry v.mem (4096 * a) j) (k : ℕ) :
    ∑ j ∈ Finset.range 1024, entryCount u a j k = ∑ j ∈ Finset.range 1024, entryCount v a j k := by
  refine Finset.sum_congr rfl fun j hj => ?_
  unfold entryCount
  rw [h j (Finset.mem_range.mp hj)]

/-- The table in page `a` was shared with the table in page `t` up to entry `n`. -/
structure TableShared (u v : Paging) (a t n : ℕ) : Prop where
  totalPages : v.totalPages = u.totalPages
  directory : v.currentPageDirectory = u.currentPageDirectory
  pages : ∀ k, k ≠ a → k ≠ t → ¬ u.InfoPage k → SamePage u.mem v.mem k
  state : ∀ k < u.totalPages, v.pageState k = u.pageState k
  references : ∀ k < u.totalPages,
    v.references k = (u.references k + ∑ j ∈ Finset.range n, entryCount u a j k) % 65536
  source : ∀ j < 1024, entry v.mem (4096 * a) j =
    if j < n ∧ present (entry u.mem (4096 * a) j) then clearWritable (entry u.mem (4096 * a) j)
    else entry u.mem (4096 * a) j
  target : ∀ j < 1024, entry v.mem (4096 * t) j =
    if j < n ∧ present (entry u.mem (4096 * a) j) then clearWritable (entry u.mem (4096 * a) j)
    else 0

theorem frame_add_clearWritable (e : ℕ) : frame e + clearWritable (flags e) = clearWritable e := by
  have hw : writable (flags e) = writable e := by
    unfold writable flags
    rw [decide_eq_decide]
    omega
  unfold clearWritable frame
  rw [hw]
  split_ifs with h
  · unfold writable at h
    unfold flags
    simp only [decide_eq_true_eq] at h
    omega
  · unfold flags
    omega

section Entries

variable {u v : Paging} {a t n : ℕ}

/-- What the entry loop needs: two tables apart from each other and from the page-information
array, and no page beyond the end of memory. -/
structure TablesApart (u : Paging) (a t : ℕ) : Prop where
  ne : a ≠ t
  source : ¬ u.InfoPage a
  target : ¬ u.InfoPage t
  frames : ∀ j < 1024, present (entry u.mem (4096 * a) j) →
    entry u.mem (4096 * a) j / 4096 < u.totalPages

theorem TableShared.start (hzero : ∀ j < 1024, entry u.mem (4096 * t) j = 0) :
    TableShared u u a t 0 := by
  refine ⟨rfl, rfl, fun k _ _ _ x _ => rfl, fun _ _ => rfl, ?_, by simp, by simpa using hzero⟩
  intro k _
  have := read16_lt u.mem (pageInfo k + 2)
  unfold Paging.references
  rw [Finset.sum_range_zero, add_zero, Nat.mod_eq_of_lt this]

section

variable (h : TableShared u v a t n) (hap : TablesApart u a t) (hn : n < 1024)
include h hap hn

theorem TableShared.skip (hp : ¬ present (entry u.mem (4096 * a) n)) :
    TableShared u (v.writeEntry (4096 * t) n 0) a t (n + 1) := by
  have hpage := onlyPage_writeEntry v t (e := 0) hn
  have hinfo : ¬ v.InfoPage t := mt (infoPage_congr h.totalPages t).mp hap.target
  have hlt : ∀ j, (j < n + 1 ∧ present (entry u.mem (4096 * a) j)) ↔
      (j < n ∧ present (entry u.mem (4096 * a) j)) := by
    intro j
    constructor
    · rintro ⟨hj, hpj⟩
      exact ⟨lt_of_le_of_ne (by omega) (fun heq => hp (heq ▸ hpj)), hpj⟩
    · rintro ⟨hj, hpj⟩
      exact ⟨by omega, hpj⟩
  refine ⟨h.totalPages, h.directory, ?_, ?_, ?_, ?_, ?_⟩
  · intro k hka hkt hk
    exact (h.pages k hka hkt hk).trans (hpage.samePage hkt)
  · intro k hk
    rw [hpage.pageState hinfo (h.totalPages ▸ hk), h.state k hk]
  · intro k hk
    have hzero : entryCount u a n k = 0 := by
      unfold entryCount
      rw [if_neg (fun hc => hp hc.1)]
    rw [hpage.references hinfo (h.totalPages ▸ hk), h.references k hk, Finset.sum_range_succ, hzero,
      add_zero]
  · intro j hj
    rw [(hpage.samePage hap.ne).entry hj, h.source j hj]
    simp only [hlt]
  · intro j hj
    simp only [hlt, ← h.target j hj]
    by_cases hjn : j = n
    · subst hjn
      have hold := h.target j hj
      rw [if_neg (by omega)] at hold
      rw [hold]
      exact entry_setEntry (by decide)
    · exact entry_setEntry_ne hjn

theorem TableShared.share (hp : present (entry u.mem (4096 * a) n)) :
    TableShared u (shareEntry (4096 * a) (4096 * t) v n) a t (n + 1) := by
  have hentry : entry v.mem (4096 * a) n = entry u.mem (4096 * a) n := by
    rw [h.source n hn, if_neg (by omega)]
  have hframe := hap.frames n hn hp
  have hinfo := infoPage_congr h.totalPages
  have hlt : clearWritable (entry u.mem (4096 * a) n) < 4294967296 :=
    lt_of_le_of_lt (clearWritable_le _) (entry_lt _ _ _)
  generalize he : entry u.mem (4096 * a) n = e at *
  have hk : frame e / pageSize = e / 4096 := by
    unfold frame pageSize
    omega
  unfold shareEntry
  dsimp only
  rw [hentry, hk, frame_add_clearWritable]
  -- the three writes
  have h₁ := onlyPage_writeEntry v a (e := clearWritable e) hn
  have hsrc₁ : ∀ j < 1024, entry (v.writeEntry (4096 * a) n (clearWritable e)).mem (4096 * a) j =
      if j = n then clearWritable e else entry v.mem (4096 * a) j := by
    intro j _
    split_ifs with hjn
    · rw [hjn]
      exact entry_setEntry hlt
    · exact entry_setEntry_ne hjn
  have hdir₁ : (v.writeEntry (4096 * a) n (clearWritable e)).currentPageDirectory =
      u.currentPageDirectory := h.directory
  generalize v.writeEntry (4096 * a) n (clearWritable e) = v₁ at *
  have hinfo₁ := infoPage_congr (h₁.totalPages.trans h.totalPages)
  have htotal₁ : v₁.totalPages = u.totalPages := h₁.totalPages.trans h.totalPages
  have hrefs₁ : ∀ k < u.totalPages, v₁.references k = v.references k := fun k hk =>
    h₁.references (mt (hinfo a).mp hap.source) (h.totalPages ▸ hk)
  have h₂ := onlyRefs_setReferences v₁ (htotal₁ ▸ hframe)
    (Nat.mod_lt (v₁.references (e / 4096) + 1) (by decide : 0 < 65536))
  have hdir₂ : (v₁.setReferences (e / 4096) ((v₁.references (e / 4096) + 1) % 65536)
      ).currentPageDirectory = u.currentPageDirectory := hdir₁
  generalize v₁.setReferences (e / 4096) ((v₁.references (e / 4096) + 1) % 65536) = v₂ at *
  have hinfo₂ : ¬ v₂.InfoPage t :=
    mt (infoPage_congr (h₂.totalPages.trans htotal₁) t).mp hap.target
  have hpages₂ : ∀ k, ¬ u.InfoPage k → SamePage v₁.mem v₂.mem k := fun k hk x hx =>
    h₂.mem x (hx ▸ mt (hinfo₁ k).mp hk)
  have h₃ := onlyPage_writeEntry v₂ t (e := clearWritable e) hn
  have htotal₂ : v₂.totalPages = u.totalPages := h₂.totalPages.trans htotal₁
  refine ⟨htotal₂, hdir₂, ?_, ?_, ?_, ?_, ?_⟩
  · intro k hka hkt hk
    exact (h.pages k hka hkt hk).trans ((h₁.samePage hka).trans
      ((hpages₂ k hk).trans (h₃.samePage hkt)))
  · intro k hk
    rw [h₃.pageState hinfo₂ (htotal₂ ▸ hk), h₂.state,
      h₁.pageState (mt (hinfo a).mp hap.source) (h.totalPages ▸ hk), h.state k hk]
  · intro k hk
    rw [h₃.references hinfo₂ (htotal₂ ▸ hk), h₂.references, hrefs₁ _ hframe, hrefs₁ k hk,
      h.references k hk, h.references _ hframe, Finset.sum_range_succ]
    by_cases hke : k = e / 4096
    · have hone : entryCount u a n k = 1 := by
        unfold entryCount
        rw [he, if_pos ⟨hp, hke.symm⟩]
      rw [if_pos hke, hone, ← hke]
      omega
    · have hzero : entryCount u a n k = 0 := by
        unfold entryCount
        rw [he, if_neg (fun hc => hke hc.2.symm)]
      rw [if_neg hke, hzero, add_zero]
  · intro j hj
    rw [(h₃.samePage hap.ne).entry hj, (hpages₂ a hap.source).entry hj, hsrc₁ j hj]
    by_cases hjn : j = n
    · subst hjn
      rw [he, if_pos rfl, if_pos ⟨by omega, hp⟩]
    · have hlt : j < n + 1 ↔ j < n := by omega
      rw [if_neg hjn, h.source j hj]
      simp only [hlt]
  · intro j hj
    by_cases hjn : j = n
    · subst hjn
      rw [he, if_pos ⟨by omega, hp⟩]
      exact entry_setEntry hlt
    · have hlt : j < n + 1 ↔ j < n := by omega
      have hold : entry (v₂.writeEntry (4096 * t) n (clearWritable e)).mem (4096 * t) j =
          entry v₂.mem (4096 * t) j := entry_setEntry_ne hjn
      rw [hold, (hpages₂ t hap.target).entry hj, (h₁.samePage hap.ne.symm).entry hj, h.target j hj]
      simp only [hlt]

end

theorem shareTable_spec {newDir pd : ℕ} {w : Paging} (hap : TablesApart u a t)
    (hzero : ∀ j < 1024, entry u.mem (4096 * t) j = 0)
    (hrun : (List.range pageTableEntries).foldlM
      (cloneEntry true newDir pd (4096 * a) (4096 * t)) u = .ok w) :
    TableShared u w a t 1024 := by
  refine foldlM_range (P := fun n v => TableShared u v a t n) (TableShared.start hzero) ?_ hrun
  intro n v v' hn hv hstep
  have hn' : n < 1024 := hn
  have hentry : entry v.mem (4096 * a) n = entry u.mem (4096 * a) n := by
    rw [hv.source n hn', if_neg (by omega)]
  unfold cloneEntry at hstep
  rw [hentry] at hstep
  by_cases hp : present (entry u.mem (4096 * a) n)
  · rw [if_pos hp, if_pos rfl] at hstep
    cases hstep
    exact hv.share hap hn' hp
  · rw [if_neg hp] at hstep
    cases hstep
    exact hv.skip hap hn' hp

theorem shareTable_ok (newDir pd src dst : ℕ) (u : Paging) : ∃ w,
    (List.range pageTableEntries).foldlM (cloneEntry true newDir pd src dst) u = .ok w := by
  have hloop := foldlM_range_ok (f := cloneEntry true newDir pd src dst) (P := fun _ _ => True)
    (n := pageTableEntries) (s := u) trivial
  obtain ⟨w, hw, -⟩ := hloop fun j v _ _ => by
    unfold cloneEntry
    by_cases hp : present (entry v.mem src j)
    · exact ⟨_, by rw [if_pos hp, if_pos rfl], trivial⟩
    · exact ⟨_, by rw [if_neg hp], trivial⟩
  exact ⟨w, hw⟩

end Entries

/-- How many user slots, in the first `n` tables of the directory in page `c`, map page `k`. -/
def slotCount (s : Paging) (c n k : ℕ) : ℕ :=
  ∑ q ∈ Finset.range n, ∑ j ∈ Finset.range 1024,
    if (lookup s.mem (4096 * c) q j).map (· / 4096) = some k then 1 else 0

/-- The user tables of the directory in page `c` were cloned up to table `n`, to page `d`. -/
structure Cloning (s v : Paging) (c d n : ℕ) : Prop where
  totalPages : v.totalPages = s.totalPages
  directory : v.currentPageDirectory = s.currentPageDirectory
  free : ∀ k, v.IsFree k → s.IsFree k
  fresh : s.IsFree d ∧ ¬ v.IsFree d
  pages : ∀ k, ¬ s.IsFree k → ¬ s.InfoPage k → ¬ s.IsTable (fun _ : Unit => c) k →
    SamePage s.mem v.mem k
  references : ∀ k < s.totalPages, ¬ s.IsFree k →
    v.references k = (s.references k + slotCount s c n k) % 65536
  source : ∀ q < 768, present (entry s.mem (4096 * c) q) → ∀ j < 1024,
    entry v.mem (4096 * (entry s.mem (4096 * c) q / 4096)) j =
      if q < n ∧ present (entry s.mem (4096 * (entry s.mem (4096 * c) q / 4096)) j) then
        clearWritable (entry s.mem (4096 * (entry s.mem (4096 * c) q / 4096)) j)
      else entry s.mem (4096 * (entry s.mem (4096 * c) q / 4096)) j
  empty : ∀ q < 768, ¬ (q < n ∧ present (entry s.mem (4096 * c) q)) →
    entry v.mem (4096 * d) q = 0
  entered : ∀ q < 768, q < n → present (entry s.mem (4096 * c) q) →
    present (entry v.mem (4096 * d) q)
  taken : ∀ q < 768, q < n → present (entry s.mem (4096 * c) q) →
    s.IsFree (entry v.mem (4096 * d) q / 4096) ∧ ¬ v.IsFree (entry v.mem (4096 * d) q / 4096) ∧
      entry v.mem (4096 * d) q / 4096 ≠ d
  target : ∀ q < 768, q < n → present (entry s.mem (4096 * c) q) → ∀ j < 1024,
    entry v.mem (4096 * (entry v.mem (4096 * d) q / 4096)) j =
      if present (entry s.mem (4096 * (entry s.mem (4096 * c) q / 4096)) j) then
        clearWritable (entry s.mem (4096 * (entry s.mem (4096 * c) q / 4096)) j)
      else 0
  inj : ∀ q < 768, q < n → ∀ q' < 768, q' < n → present (entry s.mem (4096 * c) q) →
    present (entry s.mem (4096 * c) q') →
    entry v.mem (4096 * d) q / 4096 = entry v.mem (4096 * d) q' / 4096 → q = q'

section Tables

variable {s v w : Paging} {c d n t : ℕ}

theorem slotCount_succ (s : Paging) (c n k : ℕ) : slotCount s c (n + 1) k = slotCount s c n k +
    ∑ j ∈ Finset.range 1024,
      if (lookup s.mem (4096 * c) n j).map (· / 4096) = some k then 1 else 0 := by
  unfold slotCount
  rw [Finset.sum_range_succ]

theorem slotCount_absent (hp : ¬ present (entry s.mem (4096 * c) n)) (k : ℕ) :
    slotCount s c (n + 1) k = slotCount s c n k := by
  rw [slotCount_succ, Finset.sum_eq_zero, add_zero]
  intro j _
  simp [lookup, hp]

theorem slotCount_present (hp : present (entry s.mem (4096 * c) n)) (k : ℕ) :
    slotCount s c (n + 1) k = slotCount s c n k +
      ∑ j ∈ Finset.range 1024, entryCount s (entry s.mem (4096 * c) n / 4096) j k := by
  rw [slotCount_succ]
  refine congrArg (slotCount s c n k + ·) (Finset.sum_congr rfl fun j _ => ?_)
  unfold lookup entryCount
  rw [if_pos hp, frame_eq]
  by_cases he : present (entry s.mem (4096 * (entry s.mem (4096 * c) n / 4096)) j)
  · simp [he]
  · simp [he]

theorem Cloning.skip (h : Cloning s v c d n) (hp : ¬ present (entry s.mem (4096 * c) n)) :
    Cloning s v c d (n + 1) := by
  have hlt : ∀ q, q < n + 1 → present (entry s.mem (4096 * c) q) → q < n := by
    intro q hq hpq
    exact lt_of_le_of_ne (by omega) (fun heq => hp (heq ▸ hpq))
  refine ⟨h.totalPages, h.directory, h.free, h.fresh, h.pages, ?_, ?_, ?_, ?_, ?_, ?_, ?_⟩
  · intro k hk hfree
    rw [slotCount_absent hp, h.references k hk hfree]
  · intro q hq hpq j hj
    have hqn : q ≠ n := fun heq => hp (heq ▸ hpq)
    have hiff : q < n + 1 ↔ q < n := by omega
    rw [h.source q hq hpq j hj]
    simp only [hiff]
  · intro q hq hno
    exact h.empty q hq fun hc => hno ⟨by omega, hc.2⟩
  · exact fun q hq hqn hpq => h.entered q hq (hlt q hqn hpq) hpq
  · exact fun q hq hqn hpq => h.taken q hq (hlt q hqn hpq) hpq
  · exact fun q hq hqn hpq => h.target q hq (hlt q hqn hpq) hpq
  · exact fun q hq hqn q' hq' hqn' hpq hpq' =>
      h.inj q hq (hlt q hqn hpq) q' hq' (hlt q' hqn' hpq') hpq hpq'

/-- One round of the directory loop: the table in page `a` was shared with a new table in page `t`,
which entry `n` of the directory in page `d` refers to. -/
structure TableCloned (v w : Paging) (a d n t : ℕ) : Prop where
  totalPages : w.totalPages = v.totalPages
  directory : w.currentPageDirectory = v.currentPageDirectory
  free : ∀ k, w.IsFree k → v.IsFree k ∧ k ≠ t
  pages : ∀ k, k ≠ t → k ≠ d → k ≠ a → ¬ v.InfoPage k → SamePage v.mem w.mem k
  references : ∀ k < v.totalPages, k ≠ t →
    w.references k = (v.references k + ∑ j ∈ Finset.range 1024, entryCount v a j k) % 65536
  source : ∀ j < 1024, entry w.mem (4096 * a) j =
    if present (entry v.mem (4096 * a) j) then clearWritable (entry v.mem (4096 * a) j)
    else entry v.mem (4096 * a) j
  target : ∀ j < 1024, entry w.mem (4096 * t) j =
    if present (entry v.mem (4096 * a) j) then clearWritable (entry v.mem (4096 * a) j) else 0
  entered : present (entry w.mem (4096 * d) n) ∧ entry w.mem (4096 * d) n / 4096 = t
  others : ∀ q < 768, q ≠ n → entry w.mem (4096 * d) q = entry v.mem (4096 * d) q

/-- A table is allocated in page `t`, entered in the directory and filled by the entry loop. -/
theorem tableCloned_of_run {a : ℕ} {v₁ : Paging} (ht : v.IsFree t) (h₁ : Allocated v v₁ t)
    (hmax : v.totalPages ≤ 1048576) (hap : TablesApart v a t) (hd : ¬ v.InfoPage d)
    (hda : d ≠ a) (hdt : d ≠ t) (hn : n < 768) (hp : present (v₁.dirEntry n))
    (hrun : (List.range pageTableEntries).foldlM
      (cloneEntry true (4096 * d) n (4096 * a) (4096 * t))
      (v₁.writeEntry (4096 * d) n (4096 * t + flags (v₁.dirEntry n))) = .ok w) :
    TableCloned v w a d n t := by
  have hx : 4096 * t + flags (v₁.dirEntry n) < 4294967296 ∧
      present (4096 * t + flags (v₁.dirEntry n)) ∧
      (4096 * t + flags (v₁.dirEntry n)) / 4096 = t := by
    have hlt := ht.1
    unfold present flags at *
    simp only [decide_eq_true_eq] at *
    omega
  generalize 4096 * t + flags (v₁.dirEntry n) = x at *
  have hinfo₁ := infoPage_congr h₁.totalPages
  -- the directory entry
  have hpageu := onlyPage_writeEntry v₁ d (i := n) (e := x) (by omega)
  have hnewu : entry (v₁.writeEntry (4096 * d) n x).mem (4096 * d) n = x := entry_setEntry hx.1
  have holdu : ∀ q < 768, q ≠ n → entry (v₁.writeEntry (4096 * d) n x).mem (4096 * d) q =
      entry v.mem (4096 * d) q := by
    intro q hq hqn
    rw [← (h₁.samePage ht.1 hdt hd).entry (show q < 1024 by omega)]
    exact entry_setEntry_ne hqn
  have hdiru : (v₁.writeEntry (4096 * d) n x).currentPageDirectory = v.currentPageDirectory :=
    h₁.directory
  generalize v₁.writeEntry (4096 * d) n x = u at *
  have htotalu : u.totalPages = v.totalPages := hpageu.totalPages.trans h₁.totalPages
  have hinfou := infoPage_congr htotalu
  have hpagesu : ∀ k, k ≠ t → k ≠ d → ¬ v.InfoPage k → SamePage v.mem u.mem k :=
    fun k hkt hkd hk => (h₁.samePage ht.1 hkt hk).trans (hpageu.samePage hkd)
  have hsrcu : ∀ j < 1024, entry u.mem (4096 * a) j = entry v.mem (4096 * a) j := fun j hj =>
    (hpagesu a hap.ne hda.symm hap.source).entry hj
  -- the entry loop
  have hapu : TablesApart u a t := by
    refine ⟨hap.ne, mt (hinfou _).mp hap.source, mt (hinfou _).mp hap.target, ?_⟩
    intro j hj hpj
    rw [hsrcu j hj] at hpj ⊢
    rw [htotalu]
    exact hap.frames j hj hpj
  have hzero : ∀ j < 1024, entry u.mem (4096 * t) j = 0 := by
    intro j hj
    rw [(hpageu.samePage hdt.symm).entry hj]
    exact entry_of_zero h₁.zero hj
  have hw := shareTable_spec hapu hzero hrun
  have hdw : ∀ q < 768, entry w.mem (4096 * d) q = entry u.mem (4096 * d) q := fun q hq =>
    (hw.pages d hda hdt (mt (hinfou d).mp hd)).entry (show q < 1024 by omega)
  refine ⟨hw.totalPages.trans htotalu, hw.directory.trans hdiru, ?_, ?_, ?_, ?_, ?_, ?_, ?_⟩
  · rintro k ⟨hk, hst⟩
    rw [hw.totalPages] at hk
    rw [hw.state k hk] at hst
    exact (h₁.isFree hap.target).mp ((hpageu.isFree (mt (hinfo₁ d).mp hd)).mp ⟨hk, hst⟩)
  · exact fun k hkt hkd hka hk =>
      (hpagesu k hkt hkd hk).trans (hw.pages k hka hkt (mt (hinfou k).mp hk))
  · intro k hk hkt
    rw [hw.references k (htotalu ▸ hk), sum_entryCount_congr hsrcu,
      hpageu.references (mt (hinfo₁ d).mp hd) (h₁.totalPages ▸ hk), h₁.references hap.target hk,
      if_neg hkt]
  · intro j hj
    rw [hw.source j hj, hsrcu j hj]
    simp [hj]
  · intro j hj
    rw [hw.target j hj, hsrcu j hj]
    simp [hj]
  · rw [hdw n hn, hnewu]
    exact hx.2
  · exact fun q hq hqn => (hdw q hq).trans (holdu q hq hqn)

section

variable (h : Cloning s v c d n) (hs : Layout s fun _ : Unit => c)
include h hs

/-- The source table of entry `n` and the pages a round takes are apart. -/
theorem Cloning.tablesApart
    (hn : n < 768) (hp : present (entry s.mem (4096 * c) n)) (ht : v.IsFree t) :
    TablesApart v (entry s.mem (4096 * c) n / 4096) t ∧
      ¬ v.InfoPage d ∧ d ≠ entry s.mem (4096 * c) n / 4096 ∧ d ≠ t := by
  have hinfo := infoPage_congr h.totalPages
  obtain ⟨hafree, hainfo, -⟩ := hs.table (entry s.mem (4096 * c) n / 4096) ⟨(), n, hn, hp, rfl⟩
  refine ⟨⟨fun heq => hafree (heq ▸ h.free t ht), mt (hinfo _).mp hainfo,
    mt (hinfo _).mp (hs.free_spec (h.free t ht)).1, ?_⟩, mt (hinfo _).mp (hs.free_spec h.fresh.1).1,
    fun heq => hafree (heq ▸ h.fresh.1), fun heq => h.fresh.2 (heq ▸ ht)⟩
  intro j hj hpj
  have hentry := h.source n hn hp j hj
  rw [if_neg (by omega)] at hentry
  rw [hentry] at hpj ⊢
  rw [h.totalPages]
  exact (hs.mapped _ ⟨(), n, hn, j, hj, _, lookup_eq_some.mpr ⟨hp, hpj, by rw [frame_eq]⟩, rfl⟩).lt

theorem Cloning.sourceDir : SamePage s.mem v.mem c :=
  h.pages c (hs.dir ()).1 (hs.dir ()).2 fun htable => (hs.table c htable).2.2 () rfl

theorem Cloning.table (hn : n < 768) (hp : present (entry s.mem (4096 * c) n)) (ht : v.IsFree t)
    (hw : TableCloned v w (entry s.mem (4096 * c) n / 4096) d n t) : Cloning s w c d (n + 1) := by
  have hts := h.free t ht
  have hinfo := infoPage_congr h.totalPages
  have hsrc : ∀ j < 1024, entry v.mem (4096 * (entry s.mem (4096 * c) n / 4096)) j =
      entry s.mem (4096 * (entry s.mem (4096 * c) n / 4096)) j := by
    intro j hj
    rw [h.source n hn hp j hj, if_neg (by omega)]
  have hcount := slotCount_present hp
  generalize ha : entry s.mem (4096 * c) n / 4096 = a at *
  obtain ⟨hafree, -, -⟩ := hs.table a ⟨(), n, hn, hp, ha⟩
  have hcases : ∀ q, q < n + 1 → q = n ∨ q < n := by omega
  -- the tables made before keep their entries
  have hbef : ∀ q < 768, q < n → present (entry s.mem (4096 * c) q) →
      entry w.mem (4096 * d) q = entry v.mem (4096 * d) q ∧
      entry v.mem (4096 * d) q / 4096 ≠ t ∧
      SamePage v.mem w.mem (entry v.mem (4096 * d) q / 4096) := by
    intro q hq hqn hpq
    obtain ⟨hxs, hxv, hxd⟩ := h.taken q hq hqn hpq
    have hxt : entry v.mem (4096 * d) q / 4096 ≠ t := fun heq => hxv (heq ▸ ht)
    refine ⟨hw.others q hq (by omega), hxt, hw.pages _ hxt hxd ?_ ?_⟩
    · exact fun heq => hafree (heq ▸ hxs)
    · exact mt (hinfo _).mp (hs.free_spec hxs).1
  refine ⟨hw.totalPages.trans h.totalPages, hw.directory.trans h.directory,
    fun k hk => h.free k (hw.free k hk).1, ⟨h.fresh.1, fun hd => h.fresh.2 (hw.free d hd).1⟩,
    ?_, ?_, ?_, ?_, ?_, ?_, ?_, ?_⟩
  · intro k hk hkinfo hktable
    refine (h.pages k hk hkinfo hktable).trans (hw.pages k ?_ ?_ ?_ (mt (hinfo k).mp hkinfo))
    · exact fun heq => hk (heq ▸ hts)
    · exact fun heq => hk (heq ▸ h.fresh.1)
    · exact fun heq => hktable ⟨(), n, hn, hp, ha.trans heq.symm⟩
  · intro k hk hkfree
    rw [hw.references k (h.totalPages ▸ hk) (fun heq => hkfree (heq ▸ hts)),
      sum_entryCount_congr hsrc, hcount, h.references k hk hkfree]
    omega
  · intro q hq hpq j hj
    by_cases hqn : q = n
    · subst hqn
      rw [ha, hw.source j hj, hsrc j hj]
      simp
    · have hne : entry s.mem (4096 * c) q / 4096 ≠ a := fun heq =>
        hqn (hs.tableInj () () q n hq hn hpq hp (heq.trans ha.symm)).2
      have hqtable : s.IsTable (fun _ : Unit => c) (entry s.mem (4096 * c) q / 4096) :=
        ⟨(), q, hq, hpq, rfl⟩
      have hsame := hw.pages (entry s.mem (4096 * c) q / 4096)
        (fun heq => (hs.table _ hqtable).1 (heq ▸ hts))
        (fun heq => (hs.table _ hqtable).1 (heq ▸ h.fresh.1)) hne
        (mt (hinfo _).mp (hs.table _ hqtable).2.1)
      have hiff : q < n + 1 ↔ q < n := by omega
      rw [hsame.entry hj, h.source q hq hpq j hj]
      simp only [hiff]
  · intro q hq hno
    have hqn : q ≠ n := by
      rintro rfl
      exact hno ⟨by omega, hp⟩
    rw [hw.others q hq hqn]
    exact h.empty q hq fun hc => hno ⟨by omega, hc.2⟩
  · intro q hq hqn hpq
    rcases hcases q hqn with rfl | hlt
    · exact hw.entered.1
    · rw [(hbef q hq hlt hpq).1]
      exact h.entered q hq hlt hpq
  · intro q hq hqn hpq
    rcases hcases q hqn with rfl | hlt
    · rw [hw.entered.2]
      exact ⟨hts, fun hf => (hw.free t hf).2 rfl, fun heq => h.fresh.2 (heq ▸ ht)⟩
    · obtain ⟨hxs, hxv, hxd⟩ := h.taken q hq hlt hpq
      rw [(hbef q hq hlt hpq).1]
      exact ⟨hxs, fun hf => hxv (hw.free _ hf).1, hxd⟩
  · intro q hq hqn hpq j hj
    rcases hcases q hqn with rfl | hlt
    · rw [hw.entered.2, hw.target j hj, ha, hsrc j hj]
    · obtain ⟨hsameEntry, -, hsame⟩ := hbef q hq hlt hpq
      rw [hsameEntry, hsame.entry hj]
      exact h.target q hq hlt hpq j hj
  · intro q hq hqn q' hq' hqn' hpq hpq' heq
    rcases hcases q hqn with rfl | hlt
    · rcases hcases q' hqn' with rfl | hlt'
      · rfl
      · obtain ⟨hsameEntry, hne, -⟩ := hbef q' hq' hlt' hpq'
        rw [hsameEntry, hw.entered.2] at heq
        exact absurd heq.symm hne
    · obtain ⟨hsameEntry, hne, -⟩ := hbef q hq hlt hpq
      rcases hcases q' hqn' with rfl | hlt'
      · rw [hsameEntry, hw.entered.2] at heq
        exact absurd heq hne
      · rw [hsameEntry, (hbef q' hq' hlt' hpq').1] at heq
        exact h.inj q hq hlt q' hq' hlt' hpq hpq' heq

theorem Cloning.step (hcur : s.currentPageDirectory = 4096 * c) (hn : n < 768)
    (hrun : cloneTable true (4096 * d) v n = .ok w) : Cloning s w c d (n + 1) := by
  have hdir := h.sourceDir hs
  have hentry : v.dirEntry n = entry s.mem (4096 * c) n := by
    unfold Paging.dirEntry
    rw [h.directory, hcur]
    exact hdir.entry (by omega)
  unfold cloneTable at hrun
  rw [hentry] at hrun
  split_ifs at hrun with hp
  · cases hfind : findFreePage v with
    | none =>
      rw [allocatePage_none hfind] at hrun
      cases hrun
    | some t =>
      have ht := findFreePage_eq_some hfind
      obtain ⟨v₁, halloc, h₁⟩ := allocatePage_some hfind
      obtain ⟨hap, hd, hda, hdt⟩ := h.tablesApart hs hn hp ht
      rw [halloc] at hrun
      split at hrun
      · cases hrun
      · next heq =>
        obtain ⟨rfl, rfl⟩ := Prod.mk.inj heq
        have hinfoc : ¬ v.InfoPage c := mt (infoPage_congr h.totalPages c).mp (hs.dir ()).2
        have hct : c ≠ t := fun heq => (hs.dir ()).1 (heq ▸ h.free t ht)
        have hp₁ : present (v₁.dirEntry n) := by
          unfold Paging.dirEntry
          rw [h₁.directory, h.directory, hcur, (h₁.samePage ht.1 hct hinfoc).entry (by omega),
            hdir.entry (by omega)]
          exact hp
        rw [frame_eq] at hrun
        exact h.table hs hn hp ht (tableCloned_of_run ht h₁ (h.totalPages ▸ hs.total) hap hd hda hdt
          hn hp₁ hrun)
  · cases hrun
    exact h.skip hp

end

end Tables

section Clone

variable {s v w : Paging} {c d : ℕ}

theorem Cloning.start {s₁ : Paging} (hs : Layout s fun _ : Unit => c) (hd : s.IsFree d)
    (h₁ : Allocated s s₁ d) (hv : CopiedHalf s₁ v d) : Cloning s v c d 0 := by
  obtain ⟨hinfo, -, -, -⟩ := hs.free_spec hd
  have hpage : OnlyPage d s₁ v := ⟨fun x hx => hv.mem x (by omega), hv.totalPages⟩
  have hinfo₁ : ¬ s₁.InfoPage d := mt (infoPage_congr h₁.totalPages d).mp hinfo
  have hfree : ∀ k, v.IsFree k → s.IsFree k ∧ k ≠ d := fun k hk =>
    (h₁.isFree hinfo).mp ((hpage.isFree hinfo₁).mp hk)
  have hpages : ∀ k, k ≠ d → ¬ s.InfoPage k → SamePage s.mem v.mem k := fun k hkd hk =>
    (h₁.samePage hd.1 hkd hk).trans (hpage.samePage hkd)
  refine ⟨hv.totalPages.trans h₁.totalPages, hv.directory.trans h₁.directory,
    fun k hk => (hfree k hk).1, ⟨hd, fun h => (hfree d h).2 rfl⟩, ?_, ?_, ?_, ?_, ?_, ?_, ?_, ?_⟩
  · intro k hk hkinfo _
    exact hpages k (fun heq => hk (heq ▸ hd)) hkinfo
  · intro k hk hkfree
    have hkd : k ≠ d := fun heq => hkfree (heq ▸ hd)
    have hlt := read16_lt s.mem (pageInfo k + 2)
    rw [hpage.references hinfo₁ (h₁.totalPages ▸ hk), h₁.references hinfo hk, if_neg hkd]
    unfold slotCount Paging.references
    rw [Finset.sum_range_zero, add_zero, Nat.mod_eq_of_lt hlt]
  · intro q hq hpq j hj
    have htable : s.IsTable (fun _ : Unit => c) (entry s.mem (4096 * c) q / 4096) :=
      ⟨(), q, hq, hpq, rfl⟩
    exact (hpages (entry s.mem (4096 * c) q / 4096) (fun heq => (hs.table _ htable).1 (heq ▸ hd))
      (hs.table _ htable).2.1).entry hj
  · intro q hq _
    have hlow : entry v.mem (4096 * d) q = entry s₁.mem (4096 * d) q :=
      read32_congr fun x hx hx' => hv.mem x (by omega)
    rw [hlow]
    exact entry_of_zero h₁.zero (by omega)
  all_goals
    intro q hq hqn
    omega

theorem cloneAddressSpace_spec {dir : ℕ} (hs : Layout s fun _ : Unit => c)
    (hcur : s.currentPageDirectory = 4096 * c) (hclone : cloneAddressSpace s true = (w, dir))
    (hdir : dir ≠ 0) : ∃ d ≠ 0, dir = 4096 * d ∧ Cloning s w c d 768 := by
  unfold cloneAddressSpace at hclone
  cases hfind : findFreePage s with
  | none =>
    rw [createAddressSpace_none hfind] at hclone
    exact absurd (Prod.mk.inj hclone).2.symm hdir
  | some d =>
    obtain ⟨s₁, h₁, ⟨-, hcreate⟩ | ⟨hd, v, hcreate, hv⟩⟩ := createAddressSpace_some hfind
    · rw [hcreate] at hclone
      exact absurd (Prod.mk.inj hclone).2.symm hdir
    · have hstart := Cloning.start hs (findFreePage_eq_some hfind) h₁ hv
      rw [hcreate] at hclone
      split at hclone
      · exact absurd (Prod.mk.inj hclone).2.symm hdir
      · next heq =>
        obtain ⟨rfl, rfl⟩ := Prod.mk.inj heq
        split at hclone
        · exact absurd (Prod.mk.inj hclone).2.symm hdir
        · next w' hrun =>
          obtain ⟨rfl, rfl⟩ := Prod.mk.inj hclone
          have hdone : Cloning s w' c d 768 :=
            foldlM_range (P := fun n v => Cloning s v c d n) hstart
              (fun n v v' hn hv hstep => hv.step hs hcur hn hstep) hrun
          exact ⟨d, hd, rfl, { hdone with }⟩

def spacesOf (c d : ℕ) : Bool → ℕ := fun b => if b then d else c

section

variable (h : Cloning s w c d 768)
include h

theorem Cloning.lookup (hs : Layout s fun _ : Unit => c) (b : Bool)
    {q j : ℕ} (hq : q < 768) (hj : j < 1024) :
    PageTable.lookup w.mem (4096 * spacesOf c d b) q j =
      (PageTable.lookup s.mem (4096 * c) q j).map clearWritable := by
  unfold PageTable.lookup
  cases b with
  | false =>
    have hdir : entry w.mem (4096 * spacesOf c d false) q = entry s.mem (4096 * c) q :=
      (h.sourceDir hs).entry (by omega)
    rw [hdir]
    by_cases hp : present (entry s.mem (4096 * c) q)
    · rw [if_pos hp, if_pos hp, frame_eq, h.source q hq hp j hj]
      by_cases hpe : present (entry s.mem (4096 * (entry s.mem (4096 * c) q / 4096)) j)
      · simp [hq, hpe]
      · simp [hpe]
    · rw [if_neg hp, if_neg hp]
      rfl
  | true =>
    show (if present (entry w.mem (4096 * d) q) then _ else _) = _
    by_cases hp : present (entry s.mem (4096 * c) q)
    · rw [if_pos (h.entered q hq hq hp), if_pos hp]
      show (if present (entry w.mem (frame (entry w.mem (4096 * d) q)) j) then
        some (entry w.mem (frame (entry w.mem (4096 * d) q)) j) else none) = _
      rw [frame_eq, frame_eq, h.target q hq hq hp j hj]
      by_cases hpe : present (entry s.mem (4096 * (entry s.mem (4096 * c) q / 4096)) j)
      · simp [hpe]
      · have habsent : present 0 = false := rfl
        simp [hpe, habsent]
    · have hzero := h.empty q hq fun hc => hp hc.2
      rw [hzero, if_neg (by decide), if_neg hp]
      rfl

theorem Cloning.present_source {q : ℕ} (hq : q < 768)
    (hp : present (entry w.mem (4096 * d) q)) : present (entry s.mem (4096 * c) q) := by
  by_contra hno
  rw [h.empty q hq fun hc => hno hc.2] at hp
  exact absurd hp (by decide)

theorem Cloning.table_cases (hs : Layout s fun _ : Unit => c) {k : ℕ}
    (hk : w.IsTable (spacesOf c d) k) :
    s.IsTable (fun _ : Unit => c) k ∨ s.IsFree k ∧ ¬ w.IsFree k ∧ k ≠ d := by
  obtain ⟨b, q, hq, hp, rfl⟩ := hk
  cases b with
  | false =>
    have hdir : entry w.mem (4096 * spacesOf c d false) q = entry s.mem (4096 * c) q :=
      (h.sourceDir hs).entry (by omega)
    rw [hdir] at hp ⊢
    exact Or.inl ⟨(), q, hq, hp, rfl⟩
  | true =>
    exact Or.inr (h.taken q hq hq (h.present_source hq hp))

theorem Cloning.layout (hs : Layout s fun _ : Unit => c) : Layout w (spacesOf c d) := by
  have hinfo := infoPage_congr h.totalPages
  have hused : ∀ k, ¬ s.IsFree k → ¬ w.IsFree k := fun k hk hf => hk (h.free k hf)
  have hdirs : ∀ k, (∃ b, k = spacesOf c d b) ↔ k = c ∨ k = d := by
    intro k
    simp [spacesOf]
  have hcd : ∀ k, k ≠ c → k ≠ d → ∀ b, k ≠ spacesOf c d b := by
    intro k hkc hkd b heq
    rcases (hdirs k).mp ⟨b, heq⟩ with h | h
    · exact hkc h
    · exact hkd h
  refine ⟨h.totalPages ▸ hs.total, ?_, ?_, ?_, ?_, ?_⟩
  · intro k hk hfree
    exact hs.info k ((hinfo k).mp hk) (h.free k hfree)
  · intro b
    cases b with
    | false => exact ⟨hused c (hs.dir ()).1, mt (hinfo c).mp (hs.dir ()).2⟩
    | true => exact ⟨h.fresh.2, mt (hinfo d).mp (hs.free_spec h.fresh.1).1⟩
  · intro k hk
    rcases h.table_cases hs hk with htable | ⟨hfree, hnot, hkd⟩
    · obtain ⟨hkfree, hkinfo, hkc⟩ := hs.table k htable
      refine ⟨hused k hkfree, mt (hinfo k).mp hkinfo, hcd k (hkc ()) ?_⟩
      exact fun heq => hkfree (heq ▸ h.fresh.1)
    · obtain ⟨hkinfo, hkc, -, -⟩ := hs.free_spec hfree
      exact ⟨hnot, mt (hinfo k).mp hkinfo, hcd k (hkc ()) hkd⟩
  · intro b b' q q' hq hq' hp hp' heq
    have hsource : ∀ q < 768,
      entry w.mem (4096 * spacesOf c d false) q = entry s.mem (4096 * c) q :=
      fun q hq => (h.sourceDir hs).entry (by omega)
    -- a table of the source was in use before the clone, a table of the clone was free
    have hmixed : ∀ q < 768, ∀ q' < 768, present (entry s.mem (4096 * c) q) →
        present (entry s.mem (4096 * c) q') →
        entry s.mem (4096 * c) q / 4096 ≠ entry w.mem (4096 * d) q' / 4096 := by
      intro q hq q' hq' hp hp' heq
      exact (hs.table _ ⟨(), q, hq, hp, heq⟩).1 (h.taken q' hq' hq' hp').1
    cases b with
    | false =>
      rw [hsource q hq] at hp heq
      cases b' with
      | false =>
        rw [hsource q' hq'] at hp' heq
        exact ⟨rfl, (hs.tableInj () () q q' hq hq' hp hp' heq).2⟩
      | true => exact absurd heq (hmixed q hq q' hq' hp (h.present_source hq' hp'))
    | true =>
      cases b' with
      | false =>
        rw [hsource q' hq'] at hp' heq
        exact absurd heq.symm (hmixed q' hq' q hq hp' (h.present_source hq hp))
      | true =>
        exact ⟨rfl, h.inj q hq hq q' hq' hq' (h.present_source hq hp)
          (h.present_source hq' hp') heq⟩
  · rintro k ⟨b, q, hq, j, hj, e, he, rfl⟩
    rw [h.lookup hs b hq hj] at he
    obtain ⟨e', he', rfl⟩ := map_eq_some_iff.mp he
    rw [frame_clearWritable]
    have hdata := hs.mapped (e' / 4096) ⟨(), q, hq, j, hj, e', he', rfl⟩
    refine ⟨h.totalPages ▸ hdata.lt, hused _ hdata.used, mt (hinfo _).mp hdata.info,
      hcd _ (hdata.dir ()) (fun heq => hdata.used (heq ▸ h.fresh.1)), ?_⟩
    intro htable
    rcases h.table_cases hs htable with htable | ⟨hfree, -⟩
    · exact hdata.table htable
    · exact hdata.used hfree

end

theorem count_eq_sum {β : Type*} [Fintype β] (s : Paging) (c : β → ℕ) (k : ℕ) :
    (sharing s c).count (slots β) k = ∑ b, slotCount s (c b) 768 k := by
  unfold Sharing.count slots slotCount
  rw [Finset.card_filter, Finset.sum_product]
  refine Finset.sum_congr rfl fun b _ => ?_
  rw [Finset.sum_product]
  refine Finset.sum_congr rfl fun q _ => Finset.sum_congr rfl fun j _ => ?_
  have hframe : (sharing s c).frameOf (b, q, j) =
      (PageTable.lookup s.mem (4096 * c b) q j).map (· / 4096) := by
    unfold Sharing.frameOf sharing
    rw [map_map]
    rfl
  rw [hframe]

section

variable (h : Cloning s w c d 768) (hs : Layout s fun _ : Unit => c)
include h hs

theorem Cloning.slotCount_eq (b : Bool)
    (k : ℕ) : slotCount w (spacesOf c d b) 768 k = slotCount s c 768 k := by
  refine Finset.sum_congr rfl fun q hq => Finset.sum_congr rfl fun j hj => ?_
  have hmap : ((PageTable.lookup s.mem (4096 * c) q j).map clearWritable).map (· / 4096) =
      (PageTable.lookup s.mem (4096 * c) q j).map (· / 4096) := by
    rw [map_map]
    exact congrArg (Option.map · _) (funext frame_clearWritable)
  rw [h.lookup hs b (Finset.mem_range.mp hq) (Finset.mem_range.mp hj), hmap]

/-- When no page counts fewer references than the two spaces have slots for it, the clone shares
safely. -/
theorem Cloning.inv (hrefs : ∀ k, s.IsMapped (fun _ : Unit => c) k →
      (s.references k + slotCount s c 768 k) % 65536 = 0 ∨
      2 * slotCount s c 768 k ≤ (s.references k + slotCount s c 768 k) % 65536) :
    Inv (slots Bool) (sharing w (spacesOf c d)) := by
  constructor
  · -- no slot is writable
    rintro ⟨b, q, j⟩ hi k hk
    obtain ⟨hq, hj⟩ := mem_slots.mp hi
    unfold sharing at hk
    dsimp only at hk
    rw [h.lookup hs b hq hj, map_map] at hk
    obtain ⟨e, -, he⟩ := map_eq_some_iff.mp hk
    simp at he
  · rintro ⟨b, q, j⟩ hi k hk
    obtain ⟨hq, hj⟩ := mem_slots.mp hi
    obtain ⟨e, he, rfl⟩ := frameOf_eq_some.mp hk
    rw [h.lookup hs b hq hj] at he
    obtain ⟨e', he', rfl⟩ := map_eq_some_iff.mp he
    rw [frame_clearWritable]
    have hmapped : s.IsMapped (fun _ : Unit => c) (e' / 4096) := ⟨(), q, hq, j, hj, e', he', rfl⟩
    have hdata := hs.mapped _ hmapped
    have hcount : (sharing w (spacesOf c d)).count (slots Bool) (e' / 4096) =
        2 * slotCount s c 768 (e' / 4096) := by
      rw [count_eq_sum, Fintype.sum_bool, h.slotCount_eq hs, h.slotCount_eq hs, two_mul]
    have hr : (sharing w (spacesOf c d)).refs (e' / 4096) =
        (s.references (e' / 4096) + slotCount s c 768 (e' / 4096)) % 65536 :=
      h.references _ hdata.lt hdata.used
    rw [hcount, hr]
    exact hrefs _ hmapped

end

end Clone

end UintOS.PageManager
