import UintOS.Memory.Paging.Layout

/-!
# User writes

A user program writes a byte: to the page its address maps when the page is
writable, through the page-fault handler when it is read-only. `userWrite_spec`
says that this is the abstract copy-on-write write of the slot.
-/

namespace UintOS.PageManager

open Function Machine PageTable CopyOnWrite

variable {β : Type*}

def storeByte (s : Paging) (a : ℕ) (v : UInt8) : Paging := { s with mem := fill s.mem a 1 v }

/-- A user program that runs with directory `dir` writes `v` to `va`. Bit 2 of the error code is
set for a fault in user mode. -/
def userWrite (s : Paging) (dir va : ℕ) (v : UInt8) : Paging :=
  let s₁ := switchAddressSpace s dir
  match walk s₁.mem dir va with
  | none => (pageFaultHandler s₁ va 6).1
  | some e =>
    if writable e then storeByte s₁ (frame e + va % 4096) v
    else
      match pageFaultHandler s₁ va 7 with
      | (s₂, false) => s₂
      | (s₂, true) =>
        match walk s₂.mem dir va with
        | none => s₂
        | some e' => storeByte s₂ (frame e' + va % 4096) v

def setByte (va : ℕ) (v : UInt8) (page : ℕ → UInt8) : ℕ → UInt8 :=
  fun o => if o % 4096 = va % 4096 then v else page o

section Congr

variable {s s' : Paging} {c : β → ℕ}

theorem sharing_congr (h : s'.mem = s.mem) (c : β → ℕ) : sharing s' c = sharing s c := by
  unfold sharing Paging.references
  rw [h]

/-- The sharing does not depend on the other fields of the state. -/
theorem sameTables_of_mem (h : s'.mem = s.mem) (htotal : s'.totalPages = s.totalPages) :
    SameTables s s' c := by
  refine sameTables_of_pages htotal ?_ ?_ ?_
  · rintro k ⟨hk, hfree⟩
    refine ⟨htotal ▸ hk, ?_⟩
    unfold Paging.pageState at *
    rwa [h] at hfree
  · exact fun b x _ => by rw [h]
  · exact fun k _ x _ => by rw [h]

end Congr

theorem storeByte_spec {s : Paging} {c : β → ℕ} {k : ℕ} (hk : s.IsData c k) (va : ℕ) (v : UInt8) :
    SameTables s (storeByte s (4096 * k + va % 4096) v) c ∧
    (∀ l < s.totalPages, (storeByte s (4096 * k + va % 4096) v).references l = s.references l) ∧
    (sharing (storeByte s (4096 * k + va % 4096) v) c).data =
      update (sharing s c).data k (setByte va v ((sharing s c).data k)) := by
  have hpage : OnlyPage k s (storeByte s (4096 * k + va % 4096) v) := by
    refine ⟨?_, rfl⟩
    intro x hx
    exact fill_of_out (by omega) v
  refine ⟨hpage.sameTables hk.info hk.dir hk.table, fun l hl => hpage.references hk.info hl, ?_⟩
  funext l o
  unfold sharing storeByte fill
  dsimp only
  by_cases hl : l = k
  · subst hl
    rw [update_self]
    unfold setByte
    split_ifs <;> first | rfl | omega
  · rw [update_of_ne hl, if_neg (by omega)]

section Write

variable {s s' : Paging} {c : β → ℕ} {b : β} {q j e : ℕ}

theorem sharing_map (h : lookup s.mem (4096 * c b) q j = some e) :
    (sharing s c).map (b, q, j) = some (e / 4096, writable e) := by
  simp [sharing, h]

variable [Fintype β] {p : ℕ}

theorem SameTables.agree (h : SameTables s s' c)
    (hrefs : ∀ k, s.IsMapped c k → s'.references k = s.references k)
    (hdata : ∀ k, s.IsMapped c k → SamePage s.mem s'.mem k) :
    Agree (slots β) (sharing s c) (sharing s' c) := by
  refine ⟨?_, ?_, ?_⟩
  · rintro ⟨b, q, j⟩ hi
    obtain ⟨hq, hj⟩ := mem_slots.mp hi
    simp [sharing, h.lookup b q hq j hj]
  · intro i hi k hk
    exact hrefs k (isMapped_iff.mpr ⟨i, hi, hk⟩)
  · intro i hi k hk
    funext o
    exact hdata k (isMapped_iff.mpr ⟨i, hi, hk⟩) _ (by omega)

theorem storeByte_agree (hs : Layout s c) (hq : q < 768) (hj : j < 1024)
    (he : lookup s.mem (4096 * c b) q j = some e) (va : ℕ) (v : UInt8) :
    Agree (slots β) { sharing s c with
        data := update (sharing s c).data (e / 4096)
          (setByte va v ((sharing s c).data (e / 4096))) }
      (sharing (storeByte s (4096 * (e / 4096) + va % 4096) v) c) := by
  have hmapped : ∀ i ∈ slots β, ∀ k, (sharing s c).frameOf i = some k → s.IsData c k :=
    fun i hi k hk => hs.mapped k (isMapped_iff.mpr ⟨i, hi, hk⟩)
  obtain ⟨htables, hrefs, hdata⟩ :=
    storeByte_spec (hs.mapped _ ⟨b, q, hq, j, hj, e, he, rfl⟩) va v
  refine ⟨?_, ?_, fun i hi k hk => by rw [hdata]⟩
  · rintro ⟨b, q, j⟩ hi
    obtain ⟨hq, hj⟩ := mem_slots.mp hi
    simp [sharing, htables.lookup b q hq j hj]
  · intro i hi k hk
    exact hrefs k (hmapped i hi k hk).lt

theorem Allocated.agree (h : Allocated s s' p) (hs : Layout s c) (hp : s.IsFree p) :
    Layout s' c ∧ Agree (slots β) (sharing s c) (sharing s' c) := by
  have htables := h.sameTables hs hp
  obtain ⟨hinfo, -, -, hunmapped⟩ := hs.free_spec hp
  have hne : ∀ k, s.IsMapped c k → k ≠ p := fun k hk heq => hunmapped (heq ▸ hk)
  refine ⟨htables.layout hs, htables.agree ?_ ?_⟩
  · intro k hk
    rw [h.references hinfo (hs.mapped k hk).lt, if_neg (hne k hk)]
  · intro k hk
    exact h.samePage hp.1 (hne k hk) (hs.mapped k hk).info

variable [DecidableEq β] {va : ℕ}

/-- A slot is mapped to the writable page `g`, and a byte is stored there. -/
theorem remapped_storeByte {g : ℕ} (h : Remapped s s' c b q j e) (hs' : Layout s' c)
    (hq : q < 768) (hj : j < 1024) (hw : writable e) (hg : e / 4096 = g) (va : ℕ) (v : UInt8) :
    Layout (storeByte s' (4096 * g + va % 4096) v) c ∧
    (∀ i ∈ slots β, (sharing (storeByte s' (4096 * g + va % 4096) v) c).map i =
      update (sharing s c).map (b, q, j) (some (g, true)) i) ∧
    (∀ k < s.totalPages, (storeByte s' (4096 * g + va % 4096) v).references k = s'.references k) ∧
    (sharing (storeByte s' (4096 * g + va % 4096) v) c).data =
      update (sharing s' c).data g (setByte va v ((sharing s' c).data g)) := by
  subst hg
  have hlookup : lookup s'.mem (4096 * c b) q j = some e := by
    rw [h.lookup b q hq j hj, if_pos ⟨rfl, rfl, rfl⟩]
  obtain ⟨htables, hrefs, hdata⟩ :=
    storeByte_spec (hs'.mapped _ ⟨b, q, hq, j, hj, e, hlookup, rfl⟩) va v
  refine ⟨htables.layout hs', ?_, fun k hk => hrefs k (h.totalPages ▸ hk), hdata⟩
  rintro ⟨b', q', j'⟩ hi
  obtain ⟨hq', hj'⟩ := mem_slots.mp hi
  have hmap : (sharing (storeByte s' (4096 * (e / 4096) + va % 4096) v) c).map
      (b', q', j') = (lookup s'.mem (4096 * c b') q' j').map fun e => (e / 4096, writable e) := by
    simp only [sharing, htables.lookup b' q' hq' j' hj']
  rw [hmap, h.lookup b' q' hq' j' hj']
  by_cases hslot : b' = b ∧ q' = q ∧ j' = j
  · obtain ⟨rfl, rfl, rfl⟩ := hslot
    simp [hw]
  · have hne : (b', q', j') ≠ (b, q, j) := by
      simpa using hslot
    rw [if_neg hslot, update_of_ne hne]
    rfl

/-- The last slot of a page becomes writable, and a byte is stored. -/
theorem own_agree (hs : Layout s c) (hq : q < 768) (hj : j < 1024)
    (he : lookup s.mem (4096 * c b) q j = some e)
    (h : Remapped s s' c b q j (setWritable e)) (hs' : Layout s' c)
    (hrefs : ∀ k < s.totalPages, s'.references k = s.references k)
    (hpages : ∀ k, s.IsMapped c k → SamePage s.mem s'.mem k) (va : ℕ) (v : UInt8) :
    Layout (storeByte s' (4096 * (e / 4096) + va % 4096) v) c ∧
    Agree (slots β) ((sharing s c).move (b, q, j) (e / 4096)
        (setByte va v ((sharing s c).data (e / 4096))))
      (sharing (storeByte s' (4096 * (e / 4096) + va % 4096) v) c) := by
  obtain ⟨hlayout, hmap, hrefs', hdata⟩ :=
    remapped_storeByte h hs' hq hj (writable_setWritable e) (frame_setWritable e) va v
  have hframe : (sharing s c).frameOf (b, q, j) = some (e / 4096) :=
    frameOf_eq_some.mpr ⟨e, he, rfl⟩
  have hmapped : ∀ i ∈ slots β, ∀ k, ((sharing s c).move (b, q, j) (e / 4096)
      (setByte va v ((sharing s c).data (e / 4096)))).frameOf i = some k → s.IsMapped c k := by
    intro i hi k hk
    rw [frameOf_move] at hk
    split_ifs at hk with hslot
    · exact isMapped_iff.mpr ⟨(b, q, j), mem_slots.mpr ⟨hq, hj⟩, hframe.trans hk⟩
    · exact isMapped_iff.mpr ⟨i, hi, hk⟩
  have hsame : ∀ k, s.IsMapped c k → (sharing s' c).data k = (sharing s c).data k := by
    intro k hk
    funext o
    exact hpages k hk _ (by omega)
  refine ⟨hlayout, hmap, ?_, ?_⟩
  · intro i hi k hk
    have hlt := (hs.mapped k (hmapped i hi k hk)).lt
    exact (hrefs' k hlt).trans (hrefs k hlt)
  · intro i hi k hk
    have hown : s.IsMapped c (e / 4096) := ⟨b, q, hq, j, hj, e, he, rfl⟩
    rw [hdata, hsame _ hown]
    show update (sharing s' c).data _ _ k = update (sharing s c).data _ _ k
    by_cases hke : k = e / 4096
    · rw [hke, update_self, update_self]
    · rw [update_of_ne hke, update_of_ne hke, hsame k (hmapped i hi k hk)]

/-- The slot moved to a copy of its page in the fresh page `p`. -/
structure Copied (s s' : Paging) (c : β → ℕ) (b : β) (q j e p : ℕ) : Prop where
  fresh : s.IsFree p
  remapped : Remapped s s' c b q j (4096 * p + setWritable (flags e))
  layout : Layout s' c
  references : ∀ k < s.totalPages, s'.references k =
    if k = p then 1 else if k = e / 4096 then s.references k - 1 else s.references k
  pages : ∀ k, s.IsMapped c k → SamePage s.mem s'.mem k
  copy : ∀ o < 4096, s'.mem (4096 * p + o) = s.mem (4096 * (e / 4096) + o)

theorem copy_agree (hs : Layout s c) (hq : q < 768) (hj : j < 1024)
    (h : Copied s s' c b q j e p) (va : ℕ) (v : UInt8) :
    Layout (storeByte s' (4096 * p + va % 4096) v) c ∧
    Agree (slots β) ((sharing s c).copyTo (b, q, j) (e / 4096) p
        (setByte va v ((sharing s c).data (e / 4096))))
      (sharing (storeByte s' (4096 * p + va % 4096) v) c) := by
  have hentry : writable (4096 * p + setWritable (flags e)) = true ∧
      (4096 * p + setWritable (flags e)) / 4096 = p := by
    have hw := writable_setWritable (flags e)
    have hf := frame_setWritable (flags e)
    unfold flags writable at *
    simp only [decide_eq_true_eq] at *
    omega
  obtain ⟨hlayout, hmap, hrefs', hdata⟩ :=
    remapped_storeByte h.remapped h.layout hq hj hentry.1 hentry.2 va v
  have hunmapped := (hs.free_spec h.fresh).2.2.2
  have hmapped : ∀ i ∈ slots β, ∀ k, ((sharing s c).copyTo (b, q, j) (e / 4096) p
      (setByte va v ((sharing s c).data (e / 4096)))).frameOf i = some k →
      k = p ∨ s.IsMapped c k := by
    intro i hi k hk
    rw [frameOf_copyTo] at hk
    split_ifs at hk with hslot
    · exact .inl (Option.some.inj hk).symm
    · exact .inr (isMapped_iff.mpr ⟨i, hi, hk⟩)
  refine ⟨hlayout, hmap, ?_, ?_⟩
  · intro i hi k hk
    have hlt : k < s.totalPages := by
      rcases hmapped i hi k hk with rfl | hold
      · exact h.fresh.1
      · exact (hs.mapped k hold).lt
    refine (hrefs' k hlt).trans ((h.references k hlt).trans ?_)
    show _ = update (update s.references _ _) p 1 k
    split_ifs with hkp hke
    · rw [hkp, update_self]
    · rw [update_of_ne hkp, hke, update_self]
      rfl
    · rw [update_of_ne hkp, update_of_ne hke]
  · intro i hi k hk
    rw [hdata]
    show _ = update (sharing s c).data _ _ k
    rcases hmapped i hi k hk with rfl | hold
    · rw [update_self, update_self]
      congr 1
      funext o
      exact h.copy (o % 4096) (by omega)
    · have hkp : k ≠ p := fun heq => hunmapped (heq ▸ hold)
      rw [update_of_ne hkp, update_of_ne hkp]
      funext o
      exact h.pages k hold _ (by omega)

omit [Fintype β] in
/-- The steps of the copy-on-write branch after the allocation of page `p`. -/
theorem copied_of_allocated {s₁ s₂ s₃ s₄ : Paging} (hs : Layout s c) (hq : q < 768)
    (hj : j < 1024) (he : lookup s.mem (4096 * c b) q j = some e)
    (hmany : 1 < s.references (e / 4096)) (hp : s.IsFree p) (h₁ : Allocated s s₁ p)
    (h₂ : s₂ = { s₁ with mem := Machine.copy s₁.mem (4096 * p) (frame e) pageSize })
    (h₃ : s₃ = s₂.setReferences (e / 4096) ((65535 + s₂.references (e / 4096)) % 65536))
    (h₄ : s₄ = s₃.writeEntry (frame (entry s.mem (4096 * c b) q)) j
      (4096 * p + setWritable (flags (entry s₃.mem (frame (entry s.mem (4096 * c b) q)) j)))) :
    Copied s s₄ c b q j e p := by
  obtain ⟨hinfo, hdir, htable, hunmapped⟩ := hs.free_spec hp
  obtain ⟨hpdir, hpe, -⟩ := lookup_eq_some.mp he
  have hf : s.IsMapped c (e / 4096) := ⟨b, q, hq, j, hj, e, he, rfl⟩
  have hfdata := hs.mapped _ hf
  have hfp : e / 4096 ≠ p := fun heq => hunmapped (heq ▸ hf)
  -- the allocation
  have ht₁ := h₁.sameTables hs hp
  have hdata₁ : s₁.IsData c p := by
    refine ⟨h₁.totalPages ▸ hp.1, ?_, fun h => hinfo (ht₁.infoPage.mp h), hdir,
      fun h => htable (ht₁.isTable.mp h)⟩
    exact fun h => ((h₁.isFree hinfo).mp h).2 rfl
  -- the copy
  have hpage₂ : OnlyPage p s₁ s₂ := by
    rw [h₂]
    refine ⟨?_, rfl⟩
    intro x hx
    unfold pageSize
    exact copy_of_out (by omega)
  have ht₂ := hpage₂.sameTables hdata₁.info hdata₁.dir hdata₁.table
  have hrefs₂ : ∀ k < s.totalPages, s₂.references k = if k = p then 1 else s.references k := by
    intro k hk
    rw [hpage₂.references hdata₁.info (h₁.totalPages ▸ hk), h₁.references hinfo hk]
  have hs₂ := (ht₁.trans ht₂).layout hs
  have htotal₂ := (ht₁.trans ht₂).totalPages
  -- the reference
  have hdec : (65535 + s₂.references (e / 4096)) % 65536 = s.references (e / 4096) - 1 := by
    rw [hrefs₂ _ hfdata.lt, if_neg hfp]
    have := read16_lt s.mem (pageInfo (e / 4096) + 2)
    unfold Paging.references at *
    omega
  have hrefs₃ : OnlyRefs (e / 4096) (s.references (e / 4096) - 1) s₂ s₃ := by
    rw [h₃, hdec]
    exact onlyRefs_setReferences s₂ (htotal₂ ▸ hfdata.lt) (hdec ▸ Nat.mod_lt _ (by decide))
  have ht₃ := (ht₁.trans ht₂).trans (hrefs₃.sameTables hs₂)
  have hs₃ := ht₃.layout hs
  have hdata₃ : s₃.IsData c p :=
    (ht₂.trans (hrefs₃.sameTables hs₂)).toSameDirs.isData hdata₁
  -- the entry
  have hentry : 4096 * p + setWritable (flags e) < 4294967296 ∧
      present (4096 * p + setWritable (flags e)) ∧
      (4096 * p + setWritable (flags e)) / 4096 = p := by
    have hlt : p < 1048576 := lt_of_lt_of_le hp.1 hs.total
    have hframe := frame_setWritable (flags e)
    have hpres := present_setWritable (flags e)
    unfold present at *
    unfold flags at *
    rw [decide_eq_decide] at hpres
    simp only [decide_eq_true_eq] at *
    omega
  have hdirEntry : entry s₃.mem (4096 * c b) q = entry s.mem (4096 * c b) q := ht₃.dir b q hq
  have hold : entry s₃.mem (frame (entry s₃.mem (4096 * c b) q)) j = e :=
    (lookup_eq_some.mp ((ht₃.lookup b q hq j hj).trans he)).2.2
  rw [← hdirEntry, hold] at h₄
  rw [← hdirEntry] at hpdir
  have hremap : Remapped s₃ s₄ c b q j (4096 * p + setWritable (flags e)) := by
    rw [h₄]
    exact remapped_writeEntry hs₃ hq hj hentry.1 hentry.2.1 hpdir
  have htableq : s₃.IsTable c (entry s₃.mem (4096 * c b) q / 4096) := ⟨b, q, hq, hpdir, rfl⟩
  have hpage₄ : OnlyPage (entry s₃.mem (4096 * c b) q / 4096) s₃ s₄ := by
    rw [h₄, frame_eq]
    exact onlyPage_writeEntry s₃ _ hj
  refine ⟨hp, ht₃.remapped hremap, hremap.layout hs₃ (by rwa [hentry.2.2]), ?_, ?_, ?_⟩
  · intro k hk
    rw [hpage₄.references (hs₃.table _ htableq).2.1 (ht₃.totalPages ▸ hk), hrefs₃.references,
      hrefs₂ k hk]
    split_ifs with hkf hkp <;> simp_all
  · intro k hk
    have hkdata := hs.mapped k hk
    have hkp : k ≠ p := fun heq => hunmapped (heq ▸ hk)
    have hkdata₃ : s₃.IsData c k := ht₃.toSameDirs.isData hkdata
    refine (h₁.samePage hp.1 hkp hkdata.info).trans ((hpage₂.samePage hkp).trans (SamePage.trans ?_
      (hpage₄.samePage fun heq => hkdata₃.table (heq ▸ htableq))))
    intro x hx
    exact hrefs₃.mem x fun h => hkdata.info ((ht₁.trans ht₂).infoPage.mp (hx ▸ h))
  · intro o ho
    have hx : (4096 * p + o) / 4096 = p := by omega
    rw [hpage₄.mem _ (by rw [hx]; exact fun heq => hdata₃.table (heq ▸ htableq)),
      hrefs₃.mem _ (by rw [hx, (ht₁.trans ht₂).infoPage]; exact hinfo), h₂]
    unfold Machine.copy pageSize
    dsimp only
    rw [if_pos (by omega), frame_eq,
      h₁.samePage hp.1 hfp hfdata.info _ (by omega), Nat.add_sub_cancel_left]

theorem copyShared_spec (hs : Layout s c) (hq : q < 768) (hj : j < 1024)
    (he : lookup s.mem (4096 * c b) q j = some e) (hmany : 1 < s.references (e / 4096)) :
    (∃ s', copyShared s (frame (entry s.mem (4096 * c b) q)) j e = (s', -1) ∧
      Layout s' c ∧ Agree (slots β) (sharing s c) (sharing s' c)) ∨
    ∃ s' p, copyShared s (frame (entry s.mem (4096 * c b) q)) j e = (s', 0) ∧
      Copied s s' c b q j e p := by
  unfold copyShared
  cases hfind : findFreePage s with
  | none =>
    rw [allocatePage_none hfind]
    exact .inl ⟨s, rfl, hs, fun _ _ => rfl, fun _ _ _ _ => rfl, fun _ _ _ _ => rfl⟩
  | some p =>
    have hp := findFreePage_eq_some hfind
    obtain ⟨s₁, halloc, h₁⟩ := allocatePage_some hfind
    rw [halloc]
    split
    · next heq =>
      obtain ⟨rfl, -⟩ := Prod.mk.inj heq
      exact .inl ⟨s₁, rfl, h₁.agree hs hp⟩
    · next heq =>
      obtain ⟨rfl, rfl⟩ := Prod.mk.inj heq
      have hk : frame e / pageSize = e / 4096 := by
        unfold frame pageSize
        omega
      rw [hk]
      exact .inr ⟨_, p, rfl, copied_of_allocated hs hq hj he hmany hp h₁ rfl rfl rfl⟩

omit [Fintype β] [DecidableEq β] in
/-- What `handle_page_fault` does about a write to a read-only page. -/
theorem handlePageFault_eq (hcur : s.currentPageDirectory = 4096 * c b)
    (he : lookup s.mem (4096 * c b) (dirIndex va) (tableIndex va) = some e)
    (hw : writable e = false) :
    handlePageFault s va true =
      if 1 < s.references (e / 4096) then
        copyShared s (frame (entry s.mem (4096 * c b) (dirIndex va))) (tableIndex va) e
      else if s.references (e / 4096) = 1 then
        (s.writeEntry (frame (entry s.mem (4096 * c b) (dirIndex va))) (tableIndex va)
          (setWritable e), 0)
      else (s, -1) := by
  obtain ⟨hpdir, hpe, hentry⟩ := lookup_eq_some.mp he
  have hk : frame e / pageSize = e / 4096 := by
    unfold frame pageSize
    omega
  unfold handlePageFault Paging.dirEntry
  dsimp only
  rw [hcur, if_pos hpdir, hentry, if_pos hpe, hk]
  simp only [hw, Bool.not_false, Bool.and_self, if_true]

theorem own_spec (hs : Layout s c) (hq : dirIndex va < 768)
    (he : lookup s.mem (4096 * c b) (dirIndex va) (tableIndex va) = some e) (v : UInt8) :
    ∃ s', s' = s.writeEntry (frame (entry s.mem (4096 * c b) (dirIndex va))) (tableIndex va)
        (setWritable e) ∧
      lookup s'.mem (4096 * c b) (dirIndex va) (tableIndex va) = some (setWritable e) ∧
      Layout (storeByte s' (4096 * (e / 4096) + va % 4096) v) c ∧
      Agree (slots β) ((sharing s c).move (b, dirIndex va, tableIndex va) (e / 4096)
          (setByte va v ((sharing s c).data (e / 4096))))
        (sharing (storeByte s' (4096 * (e / 4096) + va % 4096) v) c) := by
  have hj := tableIndex_lt va
  obtain ⟨hpdir, hpe, hentry⟩ := lookup_eq_some.mp he
  have hlt : setWritable e < 4294967296 := setWritable_lt (hentry ▸ entry_lt _ _ _)
  have hpw : present (setWritable e) := by rwa [present_setWritable]
  have hremap := remapped_writeEntry hs hq hj hlt hpw hpdir
  have htable : s.IsTable c (entry s.mem (4096 * c b) (dirIndex va) / 4096) :=
    ⟨b, _, hq, hpdir, rfl⟩
  have hpage : OnlyPage (entry s.mem (4096 * c b) (dirIndex va) / 4096) s
      (s.writeEntry (frame (entry s.mem (4096 * c b) (dirIndex va))) (tableIndex va)
        (setWritable e)) := by
    rw [frame_eq]
    exact onlyPage_writeEntry s _ hj
  generalize s.writeEntry (frame (entry s.mem (4096 * c b) (dirIndex va))) (tableIndex va)
    (setWritable e) = s' at *
  have hdata : s.IsData c (setWritable e / 4096) := by
    rw [frame_setWritable]
    exact hs.mapped _ ⟨b, _, hq, _, hj, e, he, rfl⟩
  refine ⟨s', rfl, ?_, own_agree hs hq hj he hremap (hremap.layout hs hdata) ?_ ?_ va v⟩
  · rw [hremap.lookup b _ hq _ hj, if_pos ⟨rfl, rfl, rfl⟩]
  · exact fun k hk => hpage.references (hs.table _ htable).2.1 hk
  · exact fun k hk => hpage.samePage fun heq => (hs.mapped k hk).table (heq ▸ htable)

end Write

/-- The page-fault handler on a write to a present page. -/
theorem pageFaultHandler_write (s : Paging) (va : ℕ) :
    ∃ s', s'.mem = s.mem ∧ s'.totalPages = s.totalPages ∧
      s'.currentPageDirectory = s.currentPageDirectory ∧
      ((∃ t u, handlePageFault s' va true = (t, 0) ∧ pageFaultHandler s va 7 = (u, true) ∧
          u.mem = t.mem ∧ u.totalPages = t.totalPages) ∨
        ∃ t, ∃ r ≠ (0 : ℤ), handlePageFault s' va true = (t, r) ∧
          pageFaultHandler s va 7 = (t, false)) := by
  refine ⟨{ s with stats := { s.stats with pageFaults := add32 s.stats.pageFaults 1 } }, rfl, rfl,
    rfl, ?_⟩
  unfold pageFaultHandler
  rw [if_pos ⟨rfl, rfl⟩]
  generalize handlePageFault _ va true = r
  obtain ⟨t, r⟩ := r
  by_cases hr : r = 0
  · subst hr
    exact .inl ⟨t, _, rfl, rfl, rfl, rfl⟩
  · refine .inr ⟨t, r, hr, rfl, ?_⟩
    split
    · next heq => exact absurd (Prod.mk.inj heq).2 hr
    · next heq => rw [(Prod.mk.inj heq).1]

section Spec

variable [Fintype β] [DecidableEq β] {s s' : Paging} {c : β → ℕ} {b : β} {va : ℕ}

/-- The state is that of the abstract write of `va` through space `b`. -/
def WritesThrough (s s' : Paging) (c : β → ℕ) (b : β) (va : ℕ) (v : UInt8) : Prop :=
  Layout s' c ∧ ∃ fresh, (∀ g, fresh = some g → ∀ i ∈ slots β, (sharing s c).frameOf i ≠ some g) ∧
    Agree (slots β) ((sharing s c).write (b, dirIndex va, tableIndex va) fresh (setByte va v))
      (sharing s' c)

theorem WritesThrough.congr {t t' : Paging} {v : UInt8} (h : WritesThrough s s' c b va v)
    (hmem : t.mem = s.mem) (hmem' : t'.mem = s'.mem) (htotal' : t'.totalPages = s'.totalPages) :
    WritesThrough t t' c b va v := by
  obtain ⟨hlayout, fresh, hfr, hagree⟩ := h
  rw [← sharing_congr hmem] at hfr hagree
  rw [← sharing_congr hmem'] at hagree
  exact ⟨(sameTables_of_mem hmem' htotal').layout hlayout, fresh, hfr, hagree⟩

theorem faultWrite_spec {e : ℕ} (hs : Layout s c) (hcur : s.currentPageDirectory = 4096 * c b)
    (hq : dirIndex va < 768)
    (he : lookup s.mem (4096 * c b) (dirIndex va) (tableIndex va) = some e)
    (hw : writable e = false) (v : UInt8) :
    (∃ t, ∃ r ≠ (0 : ℤ), handlePageFault s va true = (t, r) ∧ WritesThrough s t c b va v) ∨
    ∃ t e', handlePageFault s va true = (t, 0) ∧
      lookup t.mem (4096 * c b) (dirIndex va) (tableIndex va) = some e' ∧
      WritesThrough s (storeByte t (frame e' + va % 4096) v) c b va v := by
  have hj := tableIndex_lt va
  have hmap : (sharing s c).map (b, dirIndex va, tableIndex va) = some (e / 4096, false) := by
    rw [sharing_map he, hw]
  rw [handlePageFault_eq hcur he hw]
  by_cases hmany : 1 < s.references (e / 4096)
  · rw [if_pos hmany]
    have hmany' : 1 < (sharing s c).refs (e / 4096) := hmany
    rcases copyShared_spec hs hq hj he hmany with ⟨t, ht, hlayout, hagree⟩ | ⟨t, p, ht, hcopied⟩
    · refine .inl ⟨t, -1, by decide, ht, hlayout, none, by simp, ?_⟩
      unfold Sharing.write
      rw [hmap]
      simpa only [if_pos hmany'] using hagree
    · obtain ⟨hlayout, hagree⟩ := copy_agree hs hq hj hcopied va v
      have hlookup := hcopied.remapped.lookup b _ hq _ hj
      rw [if_pos ⟨rfl, rfl, rfl⟩] at hlookup
      have hframe : frame (4096 * p + setWritable (flags e)) = 4096 * p := by
        have := frame_setWritable (flags e)
        unfold frame
        unfold flags at *
        omega
      refine .inr ⟨t, _, ht, hlookup, ?_⟩
      rw [hframe]
      refine ⟨hlayout, some p, ?_, ?_⟩
      · rintro g ⟨⟩ i hi hi'
        exact (hs.free_spec hcopied.fresh).2.2.2 (isMapped_iff.mpr ⟨i, hi, hi'⟩)
      · unfold Sharing.write
        rw [hmap]
        simpa only [if_pos hmany'] using hagree
  · rw [if_neg hmany]
    have hmany' : ¬ 1 < (sharing s c).refs (e / 4096) := hmany
    split_ifs with hone
    · have hone' : (sharing s c).refs (e / 4096) = 1 := hone
      obtain ⟨t, ht, hlookup, hlayout, hagree⟩ := own_spec hs hq he v
      rw [← ht]
      refine .inr ⟨t, _, rfl, hlookup, ?_⟩
      rw [frame_eq, frame_setWritable]
      refine ⟨hlayout, none, by simp, ?_⟩
      unfold Sharing.write
      rw [hmap]
      simpa only [if_neg hmany', if_pos hone'] using hagree
    · have hone' : (sharing s c).refs (e / 4096) ≠ 1 := hone
      refine .inl ⟨s, -1, by decide, rfl, hs, none, by simp, ?_⟩
      unfold Sharing.write
      rw [hmap]
      simp only [if_neg hmany', if_neg hone']
      exact ⟨fun _ _ => rfl, fun _ _ _ _ => rfl, fun _ _ _ _ => rfl⟩

/-- A user write is the abstract copy-on-write write of its slot. -/
theorem userWrite_spec (hs : Layout s c) (hb : c b ≠ 0) (hva : va < 0xC0000000) (v : UInt8) :
    WritesThrough s (userWrite s (4096 * c b) va v) c b va v := by
  have hq : dirIndex va < 768 := by
    unfold dirIndex
    omega
  have hj := tableIndex_lt va
  obtain ⟨s₁, hs₁, hmem₁, htotal₁, hcur₁⟩ : ∃ s₁, switchAddressSpace s (4096 * c b) = s₁ ∧
      s₁.mem = s.mem ∧ s₁.totalPages = s.totalPages ∧ s₁.currentPageDirectory = 4096 * c b := by
    unfold switchAddressSpace
    rw [if_neg (by omega)]
    exact ⟨_, rfl, rfl, rfl, rfl⟩
  have hlayout₁ : Layout s₁ c := (sameTables_of_mem hmem₁ htotal₁).layout hs
  suffices h : WritesThrough s₁ (userWrite s (4096 * c b) va v) c b va v from
    h.congr hmem₁.symm rfl rfl
  unfold userWrite
  rw [hs₁]
  dsimp only
  rw [walk_eq_lookup]
  cases he : lookup s₁.mem (4096 * c b) (dirIndex va) (tableIndex va) with
  | none =>
    have hself : WritesThrough s₁ s₁ c b va v := by
      refine ⟨hlayout₁, none, by simp, ?_⟩
      have hmap : (sharing s₁ c).map (b, dirIndex va, tableIndex va) = none := by
        simp [sharing, he]
      unfold Sharing.write
      rw [hmap]
      exact ⟨fun _ _ => rfl, fun _ _ _ _ => rfl, fun _ _ _ _ => rfl⟩
    exact hself.congr rfl rfl rfl
  | some e =>
    dsimp only
    split_ifs with hw
    · rw [frame_eq]
      have hdata := hlayout₁.mapped _ ⟨b, _, hq, _, hj, e, he, rfl⟩
      refine ⟨(storeByte_spec hdata va v).1.layout hlayout₁, none, by simp, ?_⟩
      unfold Sharing.write
      rw [sharing_map he, hw]
      exact storeByte_agree hlayout₁ hq hj he va v
    · obtain ⟨s₂, hmem₂, htotal₂, hcur₂, hfault⟩ := pageFaultHandler_write s₁ va
      have hlayout₂ : Layout s₂ c := (sameTables_of_mem hmem₂ htotal₂).layout hlayout₁
      rw [← hmem₂] at he
      have hspec := faultWrite_spec hlayout₂ (hcur₂.trans hcur₁) hq he (by simpa using hw) v
      rcases hspec with ⟨t, r, hr, ht, hwrite⟩ | ⟨t, e', ht, hlookup, hwrite⟩
      · rcases hfault with ⟨t', u, ht', -⟩ | ⟨t', r', -, ht', hhandler⟩
        · exact absurd (Prod.mk.inj (ht.symm.trans ht')).2 hr
        · rw [hhandler, (Prod.mk.inj (ht'.symm.trans ht)).1]
          exact hwrite.congr hmem₂.symm rfl rfl
      · rcases hfault with ⟨t', u, ht', hhandler, hmem, htotal⟩ | ⟨t', r', hr', ht', -⟩
        · obtain rfl := (Prod.mk.inj (ht'.symm.trans ht)).1
          rw [hhandler]
          dsimp only
          rw [walk_eq_lookup, hmem, hlookup]
          refine hwrite.congr hmem₂.symm ?_ htotal
          unfold storeByte
          rw [hmem]
        · exact absurd (Prod.mk.inj (ht'.symm.trans ht)).2 hr'

end Spec

end UintOS.PageManager
