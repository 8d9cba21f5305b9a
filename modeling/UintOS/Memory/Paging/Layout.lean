import UintOS.Memory.Paging.Frames
import UintOS.Library.CopyOnWrite

/-!
# Address spaces as sharing

A family of page directories `c : β → ℕ` (page numbers) gives every user page of every space a slot:
a space, a directory index and a table index. `sharing` reads off physical memory what the slots
map, what the frames hold and count.

`Layout` says that the page-information array, the directories and their user tables are apart from
each other, from the mapped frames and from the free pages. Then the edits of the paging code act on
the sharing as they are meant to.
-/

namespace UintOS.PageManager

open Machine PageTable CopyOnWrite

variable {β : Type*} {k v q j e : ℕ} {b : β} {s : Paging}

/-- The user slots of the spaces, not to be enumerated by unfolding. -/
@[irreducible] def slots (β : Type*) [Fintype β] : Finset (β × ℕ × ℕ) :=
  Finset.univ ×ˢ Finset.range 768 ×ˢ Finset.range 1024

def sharing (s : Paging) (c : β → ℕ) : Sharing (β × ℕ × ℕ) ℕ (ℕ → UInt8) where
  map i := (lookup s.mem (4096 * c i.1) i.2.1 i.2.2).map fun e => (e / 4096, writable e)
  refs := s.references
  data k o := s.mem (4096 * k + o % 4096)

namespace Paging

variable (s : Paging) (c : β → ℕ)

def IsTable (k : ℕ) : Prop :=
  ∃ b, ∃ q < 768, present (entry s.mem (4096 * c b) q) ∧ entry s.mem (4096 * c b) q / 4096 = k

def IsMapped (k : ℕ) : Prop :=
  ∃ b, ∃ q < 768, ∃ j < 1024, ∃ e, lookup s.mem (4096 * c b) q j = some e ∧ e / 4096 = k

end Paging

structure Paging.IsData (s : Paging) (c : β → ℕ) (k : ℕ) : Prop where
  lt : k < s.totalPages
  used : ¬ s.IsFree k
  info : ¬ s.InfoPage k
  dir : ∀ b, k ≠ c b
  table : ¬ s.IsTable c k

structure Layout (s : Paging) (c : β → ℕ) : Prop where
  total : s.totalPages ≤ 1048576
  info : s.InfoHeld
  dir : ∀ b, ¬ s.IsFree (c b) ∧ ¬ s.InfoPage (c b)
  table : ∀ k, s.IsTable c k → ¬ s.IsFree k ∧ ¬ s.InfoPage k ∧ ∀ b, k ≠ c b
  tableInj : ∀ b b' q q', q < 768 → q' < 768 → present (entry s.mem (4096 * c b) q) →
    present (entry s.mem (4096 * c b') q') →
    entry s.mem (4096 * c b) q / 4096 = entry s.mem (4096 * c b') q' / 4096 → b = b' ∧ q = q'
  mapped : ∀ k, s.IsMapped c k → s.IsData c k

theorem mem_slots [Fintype β] : (b, q, j) ∈ slots β ↔ q < 768 ∧ j < 1024 := by
  simp [slots]

section Sharing

variable {s : Paging} {c : β → ℕ}

theorem frameOf_eq_some : (sharing s c).frameOf (b, q, j) = some k ↔
      ∃ e, lookup s.mem (4096 * c b) q j = some e ∧ e / 4096 = k := by
  simp [Sharing.frameOf, sharing, Option.map_eq_some_iff]

theorem isMapped_iff [Fintype β] :
    s.IsMapped c k ↔ ∃ i ∈ slots β, (sharing s c).frameOf i = some k := by
  constructor
  · rintro ⟨b, q, hq, j, hj, he⟩
    exact ⟨(b, q, j), mem_slots.mpr ⟨hq, hj⟩, frameOf_eq_some.mpr he⟩
  · rintro ⟨⟨b, q, j⟩, hi, he⟩
    obtain ⟨hq, hj⟩ := mem_slots.mp hi
    exact ⟨b, q, hq, j, hj, frameOf_eq_some.mp he⟩

theorem load_eq_view (s : Paging) (c : β → ℕ) (b : β) (va : ℕ) : load s.mem (4096 * c b) va =
      ((sharing s c).view (b, dirIndex va, tableIndex va)).map fun page => page va := by
  unfold load Sharing.view Sharing.frameOf sharing
  rw [walk_eq_lookup]
  dsimp only
  cases lookup s.mem (4096 * c b) (dirIndex va) (tableIndex va) with
  | none => rfl
  | some e => simp [frame_eq]

end Sharing

structure OnlyPage (p : ℕ) (s s' : Paging) : Prop where
  mem : ∀ x, x / 4096 ≠ p → s'.mem x = s.mem x
  totalPages : s'.totalPages = s.totalPages

theorem infoPage_of_lt {x : ℕ} (hk : k < s.totalPages) (hx : pageInfo k ≤ x)
    (hx' : x < pageInfo k + 12) : s.InfoPage (x / 4096) := by
  unfold Paging.InfoPage
  unfold pageInfo at *
  omega

section Records

variable {s s' : Paging} {p k : ℕ}

section

variable (h : OnlyPage p s s') (hp : ¬ s.InfoPage p)
include h hp

theorem OnlyPage.pageState (hk : k < s.totalPages) : s'.pageState k = s.pageState k :=
  h.mem _ fun heq => hp (heq ▸ infoPage_of_lt hk le_rfl (by omega))

theorem OnlyPage.references (hk : k < s.totalPages) : s'.references k = s.references k :=
  read16_congr fun x hx hx' =>
    h.mem x fun heq => hp (heq ▸ infoPage_of_lt hk (by omega) (by omega))

theorem OnlyPage.isFree : s'.IsFree k ↔ s.IsFree k := by
  unfold Paging.IsFree
  rw [h.totalPages]
  constructor
  · rintro ⟨hk, hfree⟩
    exact ⟨hk, h.pageState hp hk ▸ hfree⟩
  · rintro ⟨hk, hfree⟩
    exact ⟨hk, (h.pageState hp hk).trans hfree⟩

end

theorem OnlyPage.samePage (h : OnlyPage p s s') (hk : k ≠ p) : SamePage s.mem s'.mem k :=
  fun x hx => h.mem x (by omega)

theorem onlyPage_writeEntry (s : Paging) (p : ℕ) {i : ℕ} (hi : i < 1024) :
    OnlyPage p s (s.writeEntry (4096 * p) i e) :=
  ⟨fun x hx => write32_of_out (by omega), rfl⟩

structure OnlyRefs (k v : ℕ) (s s' : Paging) : Prop where
  mem : ∀ x, ¬ s.InfoPage (x / 4096) → s'.mem x = s.mem x
  state : ∀ l, s'.pageState l = s.pageState l
  references : ∀ l, s'.references l = if l = k then v else s.references l
  totalPages : s'.totalPages = s.totalPages

theorem onlyRefs_setReferences (s : Paging) (hk : k < s.totalPages) (hv : v < 65536) :
    OnlyRefs k v s (s.setReferences k v) := by
  refine ⟨?_, fun l => s.pageState_setReferences k l v,
    fun l => s.references_setReferences k l v hv, rfl⟩
  intro x hx
  refine write16_of_out ?_
  by_contra hin
  exact hx (infoPage_of_lt hk (by omega) (by omega))

theorem Allocated.samePage (h : Allocated s s' p) (hp : p < s.totalPages) (hk : k ≠ p)
    (hinfo : ¬ s.InfoPage k) : SamePage s.mem s'.mem k := by
  intro x hx
  refine h.mem (by omega) ?_
  by_contra hin
  exact hinfo (hx ▸ infoPage_of_lt hp (by omega) (by omega))

section

variable (h : Allocated s s' p) (hp : ¬ s.InfoPage p)
include h hp

theorem Allocated.pageState (hk : k < s.totalPages) :
    s'.pageState k = if k = p then pageUsed else s.pageState k := by
  rw [← claimPage_state]
  exact h.claimed _ fun heq => hp (heq ▸ infoPage_of_lt hk le_rfl (by omega))

theorem Allocated.references (hk : k < s.totalPages) :
    s'.references k = if k = p then 1 else s.references k := by
  rw [← claimPage_references]
  exact read16_congr fun x hx hx' =>
    h.claimed x fun heq => hp (heq ▸ infoPage_of_lt hk (by omega) (by omega))

theorem Allocated.isFree : s'.IsFree k ↔ s.IsFree k ∧ k ≠ p := by
  unfold Paging.IsFree
  rw [h.totalPages]
  by_cases hkp : k = p
  · subst hkp
    constructor
    · rintro ⟨hk, hfree⟩
      rw [h.pageState hp hk, if_pos rfl] at hfree
      exact absurd hfree (by decide)
    · exact fun hk => absurd rfl hk.2
  · constructor
    · rintro ⟨hk, hfree⟩
      rw [h.pageState hp hk, if_neg hkp] at hfree
      exact ⟨⟨hk, hfree⟩, hkp⟩
    · rintro ⟨⟨hk, hfree⟩, _⟩
      refine ⟨hk, ?_⟩
      rw [h.pageState hp hk, if_neg hkp, hfree]

end

end Records

structure SameDirs (s s' : Paging) (c : β → ℕ) : Prop where
  totalPages : s'.totalPages = s.totalPages
  free : ∀ k, s'.IsFree k → s.IsFree k
  dir : ∀ b, ∀ q < 768, entry s'.mem (4096 * c b) q = entry s.mem (4096 * c b) q

/-- Directories and tables are as before and no page became free. -/
structure SameTables (s s' : Paging) (c : β → ℕ) : Prop extends SameDirs s s' c where
  lookup : ∀ b, ∀ q < 768, ∀ j < 1024,
    lookup s'.mem (4096 * c b) q j = lookup s.mem (4096 * c b) q j

/-- One slot is mapped anew; directories and tables are otherwise as before. -/
structure Remapped [DecidableEq β] (s s' : Paging) (c : β → ℕ) (b : β) (q j e : ℕ) : Prop
    extends SameDirs s s' c where
  lookup : ∀ b', ∀ q' < 768, ∀ j' < 1024, lookup s'.mem (4096 * c b') q' j' =
    if b' = b ∧ q' = q ∧ j' = j then some e else lookup s.mem (4096 * c b') q' j'

section Layout

variable {s s' s'' : Paging} {c : β → ℕ}

section

variable (h : SameDirs s s' c)
include h

theorem SameDirs.infoPage : s'.InfoPage k ↔ s.InfoPage k :=
  infoPage_congr h.totalPages k

theorem SameDirs.isTable : s'.IsTable c k ↔ s.IsTable c k := by
  refine exists_congr fun b => exists_congr fun q => and_congr_right fun hq => ?_
  rw [h.dir b q hq]

theorem SameDirs.isData (hk : s.IsData c k) : s'.IsData c k where
  lt := h.totalPages ▸ hk.lt
  used hfree := hk.used (h.free k hfree)
  info hinfo := hk.info (h.infoPage.mp hinfo)
  dir := hk.dir
  table htable := hk.table (h.isTable.mp htable)

/-- As long as the directories stay, only the mapped pages matter. -/
theorem SameDirs.layout (hs : Layout s c)
    (hmapped : ∀ k, s'.IsMapped c k → s.IsData c k) : Layout s' c := by
  constructor
  · rw [h.totalPages]
    exact hs.total
  · intro k hk hfree
    exact hs.info k (h.infoPage.mp hk) (h.free k hfree)
  · intro b
    rw [h.infoPage]
    exact ⟨fun hfree => (hs.dir b).1 (h.free _ hfree), (hs.dir b).2⟩
  · intro k hk
    obtain ⟨hfree, hinfo, hdir⟩ := hs.table k (h.isTable.mp hk)
    rw [h.infoPage]
    exact ⟨fun hf => hfree (h.free k hf), hinfo, hdir⟩
  · intro b b' q q' hq hq'
    rw [h.dir b q hq, h.dir b' q' hq']
    exact hs.tableInj b b' q q' hq hq'
  · exact fun k hk => h.isData (hmapped k hk)

end

theorem SameTables.layout (h : SameTables s s' c) (hs : Layout s c) : Layout s' c := by
  refine h.toSameDirs.layout hs ?_
  rintro k ⟨b, q, hq, j, hj, e, he, rfl⟩
  rw [h.lookup b q hq j hj] at he
  exact hs.mapped _ ⟨b, q, hq, j, hj, e, he, rfl⟩

theorem Remapped.layout [DecidableEq β] (h : Remapped s s' c b q j e) (hs : Layout s c)
    (he : s.IsData c (e / 4096)) : Layout s' c := by
  refine h.toSameDirs.layout hs ?_
  rintro k ⟨b', q', hq', j', hj', e', he', rfl⟩
  rw [h.lookup b' q' hq' j' hj'] at he'
  split_ifs at he' with hslot
  · cases he'
    exact he
  · exact hs.mapped _ ⟨b', q', hq', j', hj', e', he', rfl⟩

theorem SameTables.trans (h : SameTables s s' c) (h' : SameTables s' s'' c) :
    SameTables s s'' c where
  totalPages := h'.totalPages.trans h.totalPages
  free k hk := h.free k (h'.free k hk)
  dir b q hq := (h'.dir b q hq).trans (h.dir b q hq)
  lookup b q hq j hj := (h'.lookup b q hq j hj).trans (h.lookup b q hq j hj)

theorem SameTables.remapped [DecidableEq β]
    (h : SameTables s s' c) (h' : Remapped s' s'' c b q j e) : Remapped s s'' c b q j e where
  totalPages := h'.totalPages.trans h.totalPages
  free k hk := h.free k (h'.free k hk)
  dir b q hq := (h'.dir b q hq).trans (h.dir b q hq)
  lookup b q hq j hj := by rw [h'.lookup b q hq j hj, h.lookup b q hq j hj]

theorem sameTables_of_pages (htotal : s'.totalPages = s.totalPages)
    (hfree : ∀ k, s'.IsFree k → s.IsFree k) (hdir : ∀ b, SamePage s.mem s'.mem (c b))
    (htable : ∀ k, s.IsTable c k → SamePage s.mem s'.mem k) : SameTables s s' c := by
  have hentry : ∀ b, ∀ q < 768, entry s'.mem (4096 * c b) q = entry s.mem (4096 * c b) q :=
    fun b q hq => (hdir b).entry (by omega)
  refine ⟨⟨htotal, hfree, hentry⟩, ?_⟩
  intro b q hq j hj
  unfold PageTable.lookup
  rw [hentry b q hq]
  by_cases hp : present (entry s.mem (4096 * c b) q)
  · have hsame := htable _ ⟨b, q, hq, hp, rfl⟩
    rw [if_pos hp, if_pos hp, frame_eq, hsame.entry hj]
  · rw [if_neg hp, if_neg hp]

end Layout

section Edits

variable {s s' : Paging} {c : β → ℕ} {p : ℕ}

theorem OnlyPage.sameTables (h : OnlyPage p s s') (hinfo : ¬ s.InfoPage p) (hdir : ∀ b, p ≠ c b)
    (htable : ¬ s.IsTable c p) : SameTables s s' c := by
  refine sameTables_of_pages h.totalPages (fun k hk => (h.isFree hinfo).mp hk) ?_ ?_
  · exact fun b => h.samePage (hdir b).symm
  · exact fun k hk => h.samePage fun heq => htable (heq ▸ hk)

theorem OnlyRefs.sameTables (h : OnlyRefs k v s s') (hs : Layout s c) : SameTables s s' c := by
  refine sameTables_of_pages h.totalPages ?_ ?_ ?_
  · exact fun l hl => ⟨h.totalPages ▸ hl.1, (h.state l).symm.trans hl.2⟩
  · exact fun b x hx => h.mem x (hx ▸ (hs.dir b).2)
  · exact fun l hl x hx => h.mem x (hx ▸ (hs.table l hl).2.1)

/-- A page that can be handed out has no structure and is not mapped. -/
theorem Layout.free_spec (hs : Layout s c) (hp : s.IsFree p) :
    ¬ s.InfoPage p ∧ (∀ b, p ≠ c b) ∧ ¬ s.IsTable c p ∧ ¬ s.IsMapped c p := by
  refine ⟨fun h => hs.info p h hp, ?_, fun h => (hs.table p h).1 hp,
    fun h => (hs.mapped p h).used hp⟩
  rintro b rfl
  exact (hs.dir b).1 hp

theorem Allocated.sameTables (h : Allocated s s' p) (hs : Layout s c) (hp : s.IsFree p) :
    SameTables s s' c := by
  obtain ⟨hinfo, hdir, htable, -⟩ := hs.free_spec hp
  refine sameTables_of_pages h.totalPages (fun k hk => ((h.isFree hinfo).mp hk).1) ?_ ?_
  · intro b
    exact h.samePage hp.1 (hdir b).symm (hs.dir b).2
  · intro k hk
    exact h.samePage hp.1 (fun heq => htable (heq ▸ hk)) (hs.table k hk).2.1

end Edits

theorem remapped_writeEntry [DecidableEq β] {c : β → ℕ} (hs : Layout s c)
    (hq : q < 768) (hj : j < 1024) (he : e < 4294967296) (hpe : present e)
    (hp : present (entry s.mem (4096 * c b) q)) :
    Remapped s (s.writeEntry (frame (entry s.mem (4096 * c b) q)) j e) c b q j e := by
  have htable : s.IsTable c (entry s.mem (4096 * c b) q / 4096) := ⟨b, q, hq, hp, rfl⟩
  obtain ⟨-, hinfo, hdir⟩ := hs.table _ htable
  rw [frame_eq]
  have hpage := onlyPage_writeEntry s (entry s.mem (4096 * c b) q / 4096) (e := e) hj
  have hdirs : ∀ b', ∀ q' < 768, entry (s.writeEntry (4096 * (entry s.mem (4096 * c b) q / 4096)) j
      e).mem (4096 * c b') q' = entry s.mem (4096 * c b') q' := fun b' q' hq' =>
    (hpage.samePage (hdir b').symm).entry (by omega)
  refine ⟨⟨rfl, fun k hk => (hpage.isFree hinfo).mp hk, hdirs⟩, ?_⟩
  intro b' q' hq' j' hj'
  unfold PageTable.lookup
  rw [hdirs b' q' hq']
  by_cases hsame : b' = b ∧ q' = q
  · obtain ⟨rfl, rfl⟩ := hsame
    rw [frame_eq, if_pos hp, if_pos hp]
    by_cases hjj : j' = j
    · subst hjj
      have hnew : entry (s.writeEntry (4096 * (entry s.mem (4096 * c b') q' / 4096)) j' e).mem
          (4096 * (entry s.mem (4096 * c b') q' / 4096)) j' = e := entry_setEntry he
      simp [hnew, hpe]
    · have hne : ¬ (b' = b' ∧ q' = q' ∧ j' = j) := fun h => hjj h.2.2
      rw [if_neg hne]
      have hold : entry (s.writeEntry (4096 * (entry s.mem (4096 * c b') q' / 4096)) j e).mem
          (4096 * (entry s.mem (4096 * c b') q' / 4096)) j' =
          entry s.mem (4096 * (entry s.mem (4096 * c b') q' / 4096)) j' := entry_setEntry_ne hjj
      rw [hold]
  · have hne : ¬ (b' = b ∧ q' = q ∧ j' = j) := fun h => hsame ⟨h.1, h.2.1⟩
    rw [if_neg hne]
    by_cases hp' : present (entry s.mem (4096 * c b') q')
    · have hother : entry s.mem (4096 * c b') q' / 4096 ≠ entry s.mem (4096 * c b) q / 4096 :=
        fun heq => hsame (hs.tableInj b' b q' q hq' hq hp' hp heq)
      rw [if_pos hp', if_pos hp', frame_eq, (hpage.samePage hother).entry hj']
    · rw [if_neg hp', if_neg hp']

/-! ## Translation -/

section Mapping

variable {s : Paging} {physical virt flags : ℕ} (hphysical : physical < 4294967296)
  (hflags : present flags) (hvirt : virt < 4294967296) (hdir : s.currentPageDirectory % 4096 = 0)
include hphysical hflags hvirt hdir

/-- The entry is found again, as the write leaves the directory alone. -/
theorem getPhysicalAddress_mapEntry (hpresent : present (s.dirEntry (dirIndex virt)))
    (hne : s.currentPageDirectory / 4096 ≠ s.dirEntry (dirIndex virt) / 4096) :
    getPhysicalAddress (mapEntry s physical virt flags).1 virt = frame physical + virt % 4096 := by
  have hindex : dirIndex virt < 1024 := Nat.div_lt_of_lt_mul hvirt
  obtain ⟨d, hd⟩ : ∃ d, s.currentPageDirectory = 4096 * d := Nat.dvd_of_mod_eq_zero hdir
  set e := frame physical + flags % 4096 with he
  have hentry : present e ∧ e < 4294967296 ∧ frame e = frame physical := by
    have hodd : flags % 2 = 1 := by simpa [present] using hflags
    refine ⟨decide_eq_true ?_, ?_, ?_⟩ <;> unfold frame at * <;> omega
  have hkept : (mapEntry s physical virt flags).1.dirEntry (dirIndex virt) =
      s.dirEntry (dirIndex virt) := by
    change entry (setEntry s.mem _ _ _) s.currentPageDirectory _ = entry _ s.currentPageDirectory _
    rw [hd, frame_eq]
    exact ((onlyPage_writeEntry s _ (tableIndex_lt virt)).samePage (by omega)).entry hindex
  have hwalk : walk (mapEntry s physical virt flags).1.mem
      (mapEntry s physical virt flags).1.currentPageDirectory virt = some e := by
    rw [walk_eq_lookup, lookup_eq_some, ← Paging.dirEntry, hkept]
    exact ⟨hpresent, hentry.1, entry_setEntry hentry.2.1⟩
  rw [getPhysicalAddress, hwalk]
  exact congrArg (· + virt % 4096) hentry.2.2

/-- After `paging_map_page` has succeeded, with a new table or without, the address is translated to
the page. -/
theorem mapped_page_translated (htotal : s.totalPages ≤ 1048576)
    (hused : ¬ s.IsFree (s.currentPageDirectory / 4096))
    (htable : present (s.dirEntry (dirIndex virt)) →
      s.currentPageDirectory / 4096 ≠ s.dirEntry (dirIndex virt) / 4096)
    (hok : (mapPage s physical virt flags).2 = 0) :
    getPhysicalAddress (mapPage s physical virt flags).1 virt = frame physical + virt % 4096 := by
  rcases mapPage_cases s physical virt flags with
    hmap | ⟨hpresent, hmap⟩ | ⟨-, i, t, hfind, halloc, hmap | ⟨-, hmap⟩⟩ <;> rw [hmap] at hok ⊢
  · cases hok
  · exact getPhysicalAddress_mapEntry hphysical hflags hvirt hdir hpresent (htable hpresent)
  · cases hok
  · have hfree := findFreePage_eq_some hfind
    obtain ⟨hlt, hpage, hpresent⟩ := tableEntry_facts flags (hfree.1.trans_le htotal)
    apply getPhysicalAddress_mapEntry hphysical hflags hvirt (halloc.directory ▸ hdir)
    · exact (congrArg _ (entry_setEntry hlt)).trans hpresent
    -- the new table was free, so it is not the page of the directory
    · intro heq
      have hi : t.currentPageDirectory / 4096 = i :=
        heq.trans ((congrArg (· / 4096) (entry_setEntry hlt)).trans hpage)
      exact hused (by rwa [← halloc.directory, hi])

end Mapping

/-- A machine of 600 pages, those below 302 in use: page 300 is the current directory, its table 0
is page 301, whose entry 0 maps page 184 writable, with `r` references. -/
def sample (r : ℕ) : Paging where
  mem := write16 (write32 (write32
    (fun x => if 0x100000 ≤ x ∧ x < 0x100000 + 12 * 302 ∧ (x - 0x100000) % 12 = 0 then 1 else 0)
    (4096 * 300) 0x12D007) (4096 * 301) 0xB8007) (pageInfo 184 + 2) r
  currentPageDirectory := 4096 * 300
  shadowPageDirectory := fun _ => 0
  totalPages := 600
  freePages := 298
  protectedRegions := []
  currentProcessId := 0
  stats := ⟨0, 0, 0, 0, 0, 0⟩

theorem second_page_translated :
    getPhysicalAddress (mapPage (sample 0) 0x5000 0x1000 3).1 0x1000 = 0x5000 :=
  mapped_page_translated (by decide) rfl (by decide) (by decide) (by decide)
    (fun h => absurd h.2 (by decide +kernel)) (fun _ => by decide +kernel) (by decide +kernel)

end UintOS.PageManager
