import UintOS.Filesystem.Ext2.Lookup

/-!
# What is read back after a write

`ext2_write_file` writes from the first block on, whatever the flags, and writes the inode
back only if it has written data. So the file holds what the flags ask for as long as some
data is written, and nothing is appended to data or left behind it.
-/

namespace UintOS.Ext2.OnDisk

open Function List Ownership Runs
open Vfs (Text slash dot maxPath)

variable {log : Fin 3} {d e : Disk} {path : Text} {inode : Inode} {n : ℕ} {flags : Flags}

/-! ## Well-formed disks -/

def Live (log : Fin 3) (d : Disk) (slot : ℕ × ℕ) : Prop :=
  slot.1 ∉ d.freeInodes ∧ (d.inode slot.1).kind = .regular ∧ slot.2 < blockLimit log ∧
    (d.inode slot.1).block slot.2 ≠ 0

def blockOf (d : Disk) (slot : ℕ × ℕ) : ℕ := (d.inode slot.1).block slot.2

/-- No inode in use references a freed block. -/
def NoDangling (log : Fin 3) (d : Disk) : Prop :=
  ∀ n ∉ d.freeInodes, (d.inode n).kind = .regular → ∀ i < blockLimit log,
    (d.inode n).block i ≠ 0 → (d.inode n).block i ∉ d.freeBlocks

/-- A disk with a root directory, whose names are those of inodes in use and whose files
have their blocks for themselves. -/
structure WellFormed (log : Fin 3) (d : Disk) : Prop where
  rootKind : (d.inode root).kind = .directory
  rootUsed : root ∉ d.freeInodes
  rootDot : d.entry root [dot] = root
  entryUsed : ∀ dir name, d.entry dir name ∉ d.freeInodes
  inodesNodup : d.freeInodes.Nodup
  zeroInode : 0 ∉ d.freeInodes
  zeroBlock : 0 ∉ d.freeBlocks
  owned : Owned (Live log d) (blockOf d) d.freeBlocks
  bounded : ∀ n ∉ d.freeInodes, (d.inode n).kind = .regular →
    (d.inode n).size ≤ blockLimit log * blockSize log

theorem WellFormed.noDangling (h : WellFormed log d) : NoDangling log d :=
  fun n hn hkind i hi hblock => h.owned.notFree (n, i) ⟨hn, hkind, hi, hblock⟩

theorem WellFormed.pathUsed (h : WellFormed log d) (path : Text) :
    pathToInode d path ∉ d.freeInodes := by
  unfold pathToInode
  split_ifs
  · exact h.rootUsed
  · exact walk_used h.entryUsed h.zeroInode h.rootUsed
  · exact walk_used h.entryUsed h.zeroInode h.rootUsed

theorem WellFormed.change (h : WellFormed log d) (hentry : e.entry = d.entry)
    (hfree : e.freeInodes = d.freeInodes) (hkind : ∀ m, (e.inode m).kind = (d.inode m).kind)
    (hzero : 0 ∉ e.freeBlocks) (howned : Owned (Live log e) (blockOf e) e.freeBlocks)
    (hbounded : ∀ m ∉ d.freeInodes, (d.inode m).kind = .regular →
      (e.inode m).size ≤ blockLimit log * blockSize log) : WellFormed log e := by
  refine ⟨?_, ?_, ?_, ?_, ?_, ?_, hzero, howned, ?_⟩
  · rw [hkind]
    exact h.rootKind
  · rw [hfree]
    exact h.rootUsed
  · rw [hentry]
    exact h.rootDot
  · rw [hentry, hfree]
    exact h.entryUsed
  · rw [hfree]
    exact h.inodesNodup
  · rw [hfree]
    exact h.zeroInode
  · rw [hfree]
    intro m hm hm'
    exact hbounded m hm (by rwa [hkind] at hm')

def Disk.setInode (d : Disk) (n : ℕ) (inode : Inode) : Disk :=
  { d with inode := update d.inode n inode }

theorem setInode_self (d : Disk) (n : ℕ) (inode : Inode) :
    (d.setInode n inode).inode n = inode := by
  simp [Disk.setInode]

theorem setInode_of_ne (d : Disk) {m : ℕ} (h : m ≠ n) (inode : Inode) :
    (d.setInode n inode).inode m = d.inode m := by
  simp [Disk.setInode, h]

theorem live_of_blank (hblank : ∀ i, inode.block i = 0)
    {slot : ℕ × ℕ} (h : Live log (d.setInode n inode) slot) : slot.1 ≠ n ∧ Live log d slot := by
  obtain ⟨hused, hkind, hi, hblock⟩ := h
  have hne : slot.1 ≠ n := by
    intro heq
    rw [heq, setInode_self] at hblock
    exact hblock (hblank slot.2)
  rw [setInode_of_ne _ hne] at hkind hblock
  exact ⟨hne, hused, hkind, hi, hblock⟩

theorem WellFormed.resize (h : WellFormed log d) (n size : ℕ)
    (hsize : n ∉ d.freeInodes → (d.inode n).kind = .regular →
      size ≤ blockLimit log * blockSize log) :
    WellFormed log (d.setInode n { d.inode n with size }) := by
  have hinode : ∀ m, ((d.setInode n { d.inode n with size }).inode m).kind = (d.inode m).kind ∧
      ((d.setInode n { d.inode n with size }).inode m).block = (d.inode m).block := by
    intro m
    by_cases hm : m = n
    · rw [hm, setInode_self]
      exact ⟨rfl, rfl⟩
    · rw [setInode_of_ne _ hm]
      exact ⟨rfl, rfl⟩
  refine h.change rfl rfl (fun m => (hinode m).1) h.zeroBlock (h.owned.mono ?_ ?_) ?_
  · rintro ⟨m, i⟩ ⟨hused, hreg, hi, hlive⟩
    rw [(hinode m).1] at hreg
    rw [(hinode m).2] at hlive
    exact ⟨hused, hreg, hi, hlive⟩
  · rintro ⟨m, i⟩ -
    exact congrFun (hinode m).2 i
  · intro m hm hreg
    by_cases hmn : m = n
    · subst hmn
      rw [setInode_self]
      exact hsize hm hreg
    · rw [setInode_of_ne _ hmn]
      exact h.bounded m hm hreg

theorem WellFormed.take {b : ℕ} {rest : List ℕ} (h : WellFormed log d) (n index : ℕ)
    (hfree : d.freeBlocks = b :: rest) (he : e = Disk.setInode { d with freeBlocks := rest } n
      { d.inode n with block := update (d.inode n).block index b }) : WellFormed log e := by
  have howned := h.owned
  rw [hfree] at howned
  have hself : e.inode n = { d.inode n with block := update (d.inode n).block index b } :=
    he ▸ setInode_self _ _ _
  have hinode : ∀ m, (e.inode m).kind = (d.inode m).kind ∧ (e.inode m).size = (d.inode m).size ∧
      ∀ i, (m, i) ≠ (n, index) → (e.inode m).block i = (d.inode m).block i := by
    intro m
    by_cases hm : m = n
    · rw [hm, hself]
      exact ⟨rfl, rfl, fun i hi => update_of_ne (fun heq => hi (by rw [heq])) _ _⟩
    · rw [he, setInode_of_ne _ hm]
      exact ⟨rfl, rfl, fun _ _ => rfl⟩
  subst he
  refine h.change rfl rfl (fun m => (hinode m).1) ?_ (howned.take (k := (n, index)) ?_ ?_ ?_) ?_
  · exact fun hmem => h.zeroBlock (hfree ▸ mem_cons_of_mem b hmem)
  · unfold blockOf
    rw [hself]
    exact update_self _ _ _
  · rintro ⟨m, i⟩ ⟨hused, hreg, hi, hblock⟩ hne
    rw [(hinode m).1] at hreg
    rw [(hinode m).2.2 i hne] at hblock
    exact ⟨hused, hreg, hi, hblock⟩
  · exact fun slot hne => (hinode slot.1).2.2 slot.2 hne
  · intro m hm hreg
    rw [(hinode m).2.1]
    exact h.bounded m hm hreg

/-! ## Opening -/

/-- What the first half of `ext2_write_file` can do. -/
inductive Opened (log : Fin 3) (d : Disk) (path : Text) (flags : Flags) : ℕ → Inode → Disk → Prop
  | created {dir n : ℕ} {rest : List ℕ} (missing : pathToInode d path = 0) (flag : flags.create)
      (found : pathToInode d (parsePath path).1 = dir) (nonzero : dir ≠ 0)
      (kind : (d.inode dir).kind = .directory) (free : d.freeInodes = n :: rest) :
      Opened log d path flags n ⟨.regular, 0, fun _ => 0⟩
        { d with
          freeInodes := rest
          entry := update d.entry dir
            (update (d.entry dir) (parsePath path).2 n) }
  | truncated {n : ℕ} (found : pathToInode d path = n) (nonzero : n ≠ 0)
      (kind : (d.inode n).kind = .regular) (flag : flags.truncate) :
      Opened log d path flags n { d.inode n with size := 0, block := fun _ => 0 }
        { d with freeBlocks := fileBlocks log (d.inode n) ++ d.freeBlocks }
  | kept {n : ℕ} (found : pathToInode d path = n) (nonzero : n ≠ 0)
      (kind : (d.inode n).kind = .regular) (flag : ¬ flags.truncate) :
      Opened log d path flags n (d.inode n) d

theorem opened_of_eq {d' : Disk}
    (h : openInode log d path flags = .ok (n, inode, d')) : Opened log d path flags n inode d' := by
  unfold openInode at h
  dsimp only at h
  split_ifs at h with h1 h2 h3 h4 h5 h6
  · split at h
    · cases h
    · next free =>
      cases h
      exact .created h1 h2 rfl h3 (not_not.mp h4) free
  · cases h
    exact .truncated rfl h1 (not_not.mp h5) h6
  · cases h
    exact .kept rfl h1 (not_not.mp h5) h6

section

variable {d d' : Disk} {path : Text} {flags : Flags} {n : ℕ} {inode : Inode}

theorem WellFormed.name_free (h : WellFormed log d) (hpath : Creatable path)
    (hmissing : pathToInode d path = 0) (hdir : pathToInode d (parsePath path).1 ≠ 0)
    (hkind : (d.inode (pathToInode d (parsePath path).1)).kind = .directory) :
    d.entry (pathToInode d (parsePath path).1) (parsePath path).2 = 0 := by
  have hfind := pathToInode_eq_find h.rootKind h.rootDot hpath
  rw [hmissing, if_neg hdir, Disk.find, if_pos hkind] at hfind
  exact hfind.symm

theorem entry_create {dir : ℕ} {name : Text} (hzero : d.entry dir name = 0) {a : ℕ} {b : Text}
    (hab : d.entry a b ≠ 0) (n : ℕ) :
    update d.entry dir (update (d.entry dir) name n) a b = d.entry a b := by
  by_cases ha : a = dir
  · subst ha
    have hb : b ≠ name := by
      rintro rfl
      exact hab hzero
    simp [hb]
  · simp [ha]

theorem WellFormed.freed (h : WellFormed log d) (hn : n ∉ d.freeInodes)
    (hkind : (d.inode n).kind = .regular) :
    (fileBlocks log (d.inode n)).Nodup ∧
      ∀ b ∈ fileBlocks log (d.inode n), b ≠ 0 ∧ ∃ i, Live log d (n, i) ∧ blockOf d (n, i) = b := by
  have hmem : ∀ b ∈ fileBlocks log (d.inode n),
      b ≠ 0 ∧ ∃ i, Live log d (n, i) ∧ blockOf d (n, i) = b := by
    intro b hb
    obtain ⟨hb, hne⟩ := mem_filter.mp hb
    obtain ⟨i, hi, rfl⟩ := mem_map.mp hb
    have hne : (d.inode n).block i ≠ 0 := by simpa using hne
    exact ⟨hne, i, ⟨hn, hkind, mem_range.mp hi, hne⟩, rfl⟩
  refine ⟨?_, hmem⟩
  unfold fileBlocks
  rw [filter_map]
  apply Nodup.map_on ?_ (nodup_range.filter _)
  intro i hi j hj hij
  simp only [mem_filter, mem_range, comp_apply, decide_eq_true_eq] at hi hj
  have heq := h.owned.unshared (n, i) (n, j) ⟨hn, hkind, hi.1, hi.2⟩ ⟨hn, hkind, hj.1, hj.2⟩ hij
  exact congrArg Prod.snd heq

section

variable (h : WellFormed log d) (hopened : Opened log d path flags n inode d')
  (hpath : pathToInode d path = 0 → Creatable path)
include h hopened hpath

theorem WellFormed.opened :
    WellFormed log (d'.setInode n inode) ∧ n ∉ d'.freeInodes ∧ n ≠ 0 ∧ inode.kind = .regular := by
  cases hopened with
  | @created dir n rest missing flag found nonzero kind free =>
    subst found
    have hzero := h.name_free (hpath missing) missing nonzero kind
    have hn : n ∈ d.freeInodes := by simp [free]
    have hnodup := h.inodesNodup
    rw [free, nodup_cons] at hnodup
    have hsub : ∀ m, m ∉ d.freeInodes → m ∉ rest := fun m hm hrest => hm (by simp [free, hrest])
    have hroot : root ≠ n := fun heq => h.rootUsed (heq ▸ hn)
    have hlive : ∀ slot, Live log ({ d with
        freeInodes := rest
        entry := update d.entry (pathToInode d (parsePath path).1)
          (update (d.entry (pathToInode d (parsePath path).1)) (parsePath path).2 n) :
          Disk}.setInode n ⟨.regular, 0, fun _ => 0⟩) slot → slot.1 ≠ n ∧ Live log d slot := by
      intro slot hslot
      obtain ⟨hne, hused, hlive⟩ := live_of_blank (fun _ => rfl) hslot
      refine ⟨hne, ?_, hlive⟩
      intro hfree
      rw [free, mem_cons] at hfree
      exact hfree.elim hne hused
    refine ⟨⟨?_, hsub root h.rootUsed, ?_, ?_, hnodup.2, hsub 0 h.zeroInode, h.zeroBlock, ?_, ?_⟩,
      hnodup.1, ?_, rfl⟩
    · rw [setInode_of_ne _ hroot]
      exact h.rootKind
    · have hdot : d.entry root [dot] ≠ 0 := by
        rw [h.rootDot]
        decide
      exact (entry_create hzero hdot n).trans h.rootDot
    · intro a b
      change update d.entry _ (update (d.entry _) _ n) a b ∉ rest
      rw [update_apply]
      split_ifs with ha
      · rw [update_apply]
        split_ifs
        · exact hnodup.1
        · exact hsub _ (h.entryUsed _ _)
      · exact hsub _ (h.entryUsed _ _)
    · apply h.owned.mono fun slot hslot => (hlive slot hslot).2
      intro slot hslot
      unfold blockOf
      rw [setInode_of_ne _ (hlive slot hslot).1]
    · intro m hm hkind
      by_cases hmn : m = n
      · rw [hmn, setInode_self]
        exact Nat.zero_le _
      · rw [setInode_of_ne _ hmn] at hkind ⊢
        apply h.bounded m ?_ hkind
        rw [free, mem_cons]
        exact fun hor => hor.elim hmn hm
    · exact fun heq => h.zeroInode (heq ▸ hn)
  | truncated found nonzero kind flag =>
    have hn : n ∉ d.freeInodes := found ▸ h.pathUsed path
    have hroot : root ≠ n := by
      rintro rfl
      rw [h.rootKind] at kind
      cases kind
    obtain ⟨hnodup, hblks⟩ := h.freed hn kind
    have hlive : ∀ slot, Live log (Disk.setInode
        { d with freeBlocks := fileBlocks log (d.inode n) ++ d.freeBlocks } n
        { d.inode n with size := 0, block := fun _ => 0 }) slot → slot.1 ≠ n ∧ Live log d slot :=
      fun slot hslot => live_of_blank (fun _ => rfl) hslot
    refine ⟨⟨?_, h.rootUsed, h.rootDot, h.entryUsed, h.inodesNodup, h.zeroInode, ?_, ?_, ?_⟩,
      hn, nonzero, kind⟩
    · rw [setInode_of_ne _ hroot]
      exact h.rootKind
    · intro hmem
      rcases mem_append.mp hmem with hmem | hmem
      · exact (hblks 0 hmem).1 rfl
      · exact h.zeroBlock hmem
    · refine h.owned.release hnodup ?_ (fun slot hslot => (hlive slot hslot).2) ?_
      · intro b hb
        obtain ⟨-, i, hi, heq⟩ := hblks b hb
        exact ⟨(n, i), hi, fun hslot => (hlive _ hslot).1 rfl, heq⟩
      · intro slot hslot
        unfold blockOf
        rw [setInode_of_ne _ (hlive slot hslot).1]
    · intro m hm hkind
      by_cases hmn : m = n
      · rw [hmn, setInode_self]
        exact Nat.zero_le _
      · rw [setInode_of_ne _ hmn] at hkind ⊢
        exact h.bounded m hm hkind
  | kept found nonzero kind flag =>
    have hn : n ∉ d.freeInodes := found ▸ h.pathUsed path
    have hself : d.setInode n (d.inode n) = d := by simp [Disk.setInode]
    rw [hself]
    exact ⟨h, hn, nonzero, kind⟩

/-- After a call the path leads to the inode it worked on. -/
theorem WellFormed.pathToInode_opened (hentry : e.entry = d'.entry)
    (hself : (e.inode n).kind = .regular) (hkind : ∀ m ≠ n, (e.inode m).kind = (d.inode m).kind) :
    pathToInode e path = n := by
  have hsame : (d.inode n).kind = .regular → ∀ m, (e.inode m).kind = (d.inode m).kind := by
    intro hn m
    by_cases hm : m = n
    · rw [hm, hself, hn]
    · exact hkind m hm
  cases hopened with
  | @created dir n rest missing flag found nonzero kind free =>
    subst found
    have hzero := h.name_free (hpath missing) missing nonzero kind
    have hn : n ∈ d.freeInodes := by simp [free]
    have hkind' : ∀ m ∉ d.freeInodes, (e.inode m).kind = (d.inode m).kind := by
      intro m hm
      apply hkind
      rintro rfl
      exact hm hn
    have hgrow : ∀ a b, d.entry a b ≠ 0 → e.entry a b = d.entry a b := by
      intro a b hab
      rw [hentry]
      exact entry_create hzero hab n
    have hdirPath : pathToInode e (parsePath path).1 = pathToInode d (parsePath path).1 := by
      unfold pathToInode at nonzero ⊢
      split_ifs at nonzero ⊢
      · rfl
      · exact walk_grow hgrow h.entryUsed hkind' h.rootUsed nonzero
      · exact walk_grow hgrow h.entryUsed hkind' h.rootUsed nonzero
    have hrootKind : (e.inode root).kind = .directory := by
      rw [hkind' root h.rootUsed]
      exact h.rootKind
    have hrootDot : e.entry root [dot] = root := by
      rw [hgrow root [dot] (by rw [h.rootDot]; decide), h.rootDot]
    rw [pathToInode_eq_find hrootKind hrootDot (hpath missing), hdirPath, if_neg nonzero, Disk.find,
      hkind' _ (h.pathUsed _), if_pos kind, hentry]
    simp
  | truncated found nonzero kind flag =>
    exact (pathToInode_congr (d := d) hentry (hsame kind) path).trans found
  | kept found nonzero kind flag =>
    exact (pathToInode_congr hentry (hsame kind) path).trans found

end

end

/-! ## The loop -/

def blocksFor (log : Fin 3) (length : ℕ) : ℕ := (length + blockSize log - 1) / blockSize log

theorem lt_blocksFor {index length : ℕ} (h : index * blockSize log < length) :
    index < blocksFor log length := by
  have hpos := blockSize_pos log
  apply (Nat.le_div_iff_mul_le hpos).mpr
  rw [Nat.succ_mul]
  omega

theorem le_blocksFor_mul (length : ℕ) : length ≤ blocksFor log length * blockSize log := by
  by_contra h
  exact lt_irrefl _ (lt_blocksFor (not_le.mp h))

def view (d : Disk) (n : ℕ) (w : Writing) : Disk :=
  Disk.setInode { d with data := w.data, freeBlocks := w.freeBlocks } n w.inode

/-- The state of the loop before block `index`: everything before it has been written, and
there are blocks for the rest. -/
structure Progress (log : Fin 3) (d : Disk) (n size : ℕ) (buffer : List UInt8) (index : ℕ)
    (w : Writing) : Prop where
  wellFormed : WellFormed log (view d n w)
  kind : w.inode.kind = .regular
  size : w.inode.size = size
  written : w.written = min (index * blockSize log) buffer.length
  data : ∀ k < w.written, byteAt log w.data w.inode k = buffer.getD k 0
  room : blocksFor log buffer.length ≤ index + w.freeBlocks.length

section

variable {d : Disk} {n size : ℕ} {buffer : List UInt8} {index : ℕ} {w : Writing}

theorem getOrAllocateBlock_spec (hwf : WellFormed log (view d n w))
    (hkind : w.inode.kind = .regular) (hindex : index < blockLimit log)
    (hroom : w.freeBlocks ≠ []) :
    ∃ b inode freeBlocks, getOrAllocateBlock log w.inode w.freeBlocks index =
        (b, inode, freeBlocks) ∧ b ≠ 0 ∧ inode.kind = .regular ∧ inode.size = w.inode.size ∧
      inode.block index = b ∧ (∀ i, i ≠ index → inode.block i = w.inode.block i) ∧
      w.freeBlocks.length ≤ freeBlocks.length + 1 ∧
      WellFormed log (view d n { w with inode, freeBlocks }) := by
  unfold getOrAllocateBlock
  rw [if_pos hindex]
  by_cases hblock : w.inode.block index = 0
  · rw [if_neg (by simpa using hblock)]
    obtain ⟨b, rest, hfree⟩ := exists_cons_of_ne_nil hroom
    have hb : b ≠ 0 := by
      rintro rfl
      exact hwf.zeroBlock (by simp [view, Disk.setInode, hfree])
    rw [hfree]
    refine ⟨b, _, rest, rfl, hb, hkind, rfl, by simp, ?_, by simp, ?_⟩
    · intro i hi
      simp [hi]
    · exact hwf.take n index hfree (by simp [view, Disk.setInode])
  · rw [if_pos hblock]
    exact ⟨_, _, _, rfl, hblock, hkind, rfl, rfl, fun _ _ => rfl, by omega, hwf⟩

theorem byteAt_update (hn : n ∉ d.freeInodes) (hwf : WellFormed log (view d n w))
    (hkind : w.inode.kind = .regular) (hindex : index < blockLimit log)
    (hblock : w.inode.block index ≠ 0) (block : ℕ → UInt8) {k : ℕ}
    (hk : k < index * blockSize log) :
    byteAt log (update w.data (w.inode.block index) block) w.inode k =
      byteAt log w.data w.inode k := by
  have hdiv : k / blockSize log < index := (Nat.div_lt_iff_lt_mul (blockSize_pos log)).mpr hk
  have hself : (view d n w).inode n = w.inode := setInode_self _ _ _
  unfold byteAt
  by_cases hzero : w.inode.block (k / blockSize log) = 0
  · rw [if_pos hzero, if_pos hzero]
  · rw [if_neg hzero, if_neg hzero]
    have hne : w.inode.block (k / blockSize log) ≠ w.inode.block index := by
      intro heq
      have hlive : ∀ i < blockLimit log, w.inode.block i ≠ 0 → Live log (view d n w) (n, i) := by
        intro i hi hi'
        refine ⟨hn, ?_, hi, ?_⟩ <;> dsimp only <;> rw [hself]
        · exact hkind
        · exact hi'
      have hslot := hwf.owned.unshared (n, k / blockSize log) (n, index)
        (hlive _ (by omega) hzero) (hlive _ hindex hblock)
        (by unfold blockOf; dsimp only; rw [hself]; exact heq)
      have := congrArg Prod.snd hslot
      omega
    rw [update_of_ne hne]

section

variable (h : Progress log d n size buffer index w) (hn : n ∉ d.freeInodes)
  (hlimit : blocksFor log buffer.length ≤ blockLimit log)
include h hn hlimit

theorem Progress.round (hmore : w.written < buffer.length) (rounds : ℕ) :
    ∃ w', Progress log d n size buffer (index + 1) w' ∧ w.written < w'.written ∧
      writeLoop log buffer (rounds + 1) index w = writeLoop log buffer rounds (index + 1) w' := by
  have hpos := blockSize_pos log
  have hwritten := h.written
  have hstart : w.written = index * blockSize log := by omega
  have hneeded : index < blocksFor log buffer.length := lt_blocksFor (by omega)
  have hroom : w.freeBlocks ≠ [] := by
    intro hnil
    have := h.room
    rw [hnil, length_nil] at this
    omega
  obtain ⟨b, inode, freeBlocks, halloc, hb, hkind, hsize, hblock, hother, hlen, hwf⟩ :=
    getOrAllocateBlock_spec h.wellFormed h.kind (by omega : index < blockLimit log) hroom
  have hoffset : w.written % blockSize log = 0 := by rw [hstart, Nat.mul_mod_left]
  rw [writeLoop, if_pos hmore, halloc]
  dsimp only
  rw [if_neg hb, hoffset, Nat.sub_zero]
  generalize hcount : min (blockSize log) (buffer.length - w.written) = count
  refine ⟨_, ⟨?_, hkind, hsize.trans h.size, ?_, ?_, ?_⟩, ?_, rfl⟩
  · exact hwf.change rfl rfl (fun _ => rfl) hwf.zeroBlock hwf.owned hwf.bounded
  · dsimp only
    rw [Nat.succ_mul]
    omega
  · intro k hk
    dsimp only at hk ⊢
    by_cases hbef : k < index * blockSize log
    · have hsame : byteAt log w.data inode k = byteAt log w.data w.inode k := by
        have hdiv : k / blockSize log ≠ index :=
          ((Nat.div_lt_iff_lt_mul hpos).mpr hbef).ne
        unfold byteAt
        rw [hother _ hdiv]
      have hkeep := byteAt_update hn hwf hkind (by omega : index < blockLimit log)
        (by dsimp only; rw [hblock]; exact hb)
        (patchBlock (w.data b) 0 count fun i => buffer.getD (w.written + i) 0) hbef
      rw [hblock] at hkeep
      rw [hkeep, hsame]
      exact h.data k (by omega)
    · obtain ⟨o, rfl⟩ := Nat.exists_eq_add_of_le (not_lt.mp hbef)
      rw [byteAt_block _ _ _ (by omega), hblock, if_neg hb, update_self, patchBlock,
        if_pos (by omega), hstart]
      rfl
  · have := h.room
    dsimp only
    omega
  · dsimp only
    omega

theorem Progress.run {rounds : ℕ} (hrounds : buffer.length ≤ w.written + rounds) :
    ∃ i, Progress log d n size buffer i (writeLoop log buffer rounds index w) ∧
      (writeLoop log buffer rounds index w).written = buffer.length := by
  induction rounds generalizing index w with
  | zero =>
    have := h.written
    exact ⟨index, h, by rw [writeLoop]; omega⟩
  | succ rounds ih =>
    by_cases hmore : w.written < buffer.length
    · obtain ⟨w', hw', hlt, heq⟩ := h.round hn hlimit hmore rounds
      rw [heq]
      exact ih hw' (by omega)
    · have := h.written
      rw [writeLoop, if_neg hmore]
      exact ⟨index, h, by omega⟩

end

theorem Progress.close (h : Progress log d n size buffer index w)
    (hwritten : w.written = buffer.length) (hne : buffer ≠ []) (hbound : buffer.length < 2 ^ 31)
    (hlimit : blocksFor log buffer.length ≤ blockLimit log) (happend : flags.append → size = 0) :
    WellFormed log (closeInode d n flags w) ∧ (closeInode d n flags w).entry = d.entry ∧
      (closeInode d n flags w).inode n = { w.inode with size := max buffer.length size } ∧
      (∀ m ≠ n, (closeInode d n flags w).inode m = d.inode m) ∧
      (closeInode d n flags w).data = w.data := by
  have hlen := length_pos_iff.mpr hne
  have hsize : (if flags.append then (w.inode.size + w.written) % 2 ^ 32 else w.written) =
      buffer.length := by
    split_ifs with hflag
    · rw [h.size, happend hflag, hwritten, Nat.zero_add]
      exact Nat.mod_eq_of_lt (by omega)
    · exact hwritten
  have hclose : closeInode d n flags w =
      (view d n w).setInode n { w.inode with size := max buffer.length size } := by
    unfold closeInode
    rw [if_pos (by omega), hsize, h.size]
    simp [view, Disk.setInode]
  have hview : (view d n w).inode n = w.inode := setInode_self _ _ _
  have hwf := h.wellFormed.resize n (max buffer.length size) (by
    intro hused hreg
    have hold := h.wellFormed.bounded n hused hreg
    have hmul := Nat.mul_le_mul_right (blockSize log) hlimit
    have := @le_blocksFor_mul log buffer.length
    rw [hview, h.size] at hold
    omega)
  rw [hview] at hwf
  rw [hclose]
  refine ⟨hwf, rfl, setInode_self _ _ _, ?_, rfl⟩
  intro m hm
  rw [setInode_of_ne _ hm, view, setInode_of_ne _ hm]

theorem bytes_eq_buffer {data : ℕ → ℕ → UInt8}
    (h : ∀ k < buffer.length, byteAt log data inode k = buffer.getD k 0) :
    bytes log data inode buffer.length = buffer := by
  unfold bytes
  apply ext_getElem
  · simp
  · intro k hk hk'
    rw [getElem_map, getElem_range, h k hk']
    simp [hk']

end

/-! ## Runs -/

/-- A call of `ext2_write_file`, whose size is an `int`. -/
structure Request where
  path : Text
  buffer : List UInt8
  bound : buffer.length < 2 ^ 31
  flags : Flags

/-- What a file holds, as `ext2_read_file` returns it. -/
def fileContent (log : Fin 3) (d : Disk) (path : Text) : List UInt8 :=
  match ext2ReadFile log d path (d.inode (pathToInode d path)).size with
  | .error _ => []
  | .ok content => content

/-- What a file should hold after a call, where the flags say so. -/
def specified (flags : Flags) (old buffer : List UInt8) : Option (List UInt8) :=
  if flags.append then some ((if flags.truncate then [] else old) ++ buffer)
  else if flags.create ∨ flags.truncate then some buffer
  else none

/-- A disk, and the path and content the last call should have left. -/
structure Session where
  disk : Disk
  last : Option (Text × List UInt8)

def step (log : Fin 3) (s : Session) (r : Request) : Option Session :=
  let (result, disk) := ext2WriteFile log s.disk r.path r.buffer r.flags
  some ⟨disk,
    match result with
    | .error _ => none
    | .ok _ => (specified r.flags (fileContent log s.disk r.path) r.buffer).map (r.path, ·)⟩

/-- The last call has left what it should, as far as a large enough buffer shows. -/
def ReadsBack (log : Fin 3) (s : Session) : Prop :=
  ∀ path content, s.last = some (path, content) → ∀ size, content.length ≤ size →
    size < 2 ^ 31 → ext2ReadFile log s.disk path size = .ok content

/-- There are blocks for a buffer, and pointers that reach them. -/
def Room (log : Fin 3) (d : Disk) (length : ℕ) : Prop :=
  blocksFor log length ≤ blockLimit log ∧ blocksFor log length ≤ d.freeBlocks.length

def Blank (log : Fin 3) (inode : Inode) : Prop :=
  inode.size = 0 ∧ ∀ i < blockLimit log, inode.block i = 0

/-- A call that writes data neither to be appended to other data nor shorter than what it replaces,
or that writes nothing and has nothing to change. -/
def RequestOk (log : Fin 3) (s : Session) (r : Request) : Prop :=
  let n := pathToInode s.disk r.path
  let inode := s.disk.inode n
  if n = 0 then
    r.flags.create → Creatable r.path ∧ r.buffer ≠ [] ∧ Room log s.disk r.buffer.length
  else
    inode.kind = .regular →
      if r.buffer = [] then
        (r.flags.truncate → Blank log inode) ∧ (r.flags.create ∧ ¬ r.flags.append → inode.size = 0)
      else
        Room log s.disk r.buffer.length ∧ (¬ r.flags.truncate → (r.flags.append → inode.size = 0) ∧
            (r.flags.create → inode.size ≤ r.buffer.length))

theorem fileContent_missing (h : pathToInode d path = 0) : fileContent log d path = [] := by
  unfold fileContent ext2ReadFile
  rw [if_pos h]

section

variable (hwf : WellFormed log d) (hpath : pathToInode d path = n) (hn : n ≠ 0)
include hwf hpath hn

theorem fileContent_eq (hkind : (d.inode n).kind = .regular) :
    fileContent log d path = bytes log d.data (d.inode n) (d.inode n).size := by
  have hused : n ∉ d.freeInodes := hpath ▸ hwf.pathUsed path
  unfold fileContent
  rw [ext2ReadFile_eq hpath hn hkind (hwf.bounded n hused hkind), hpath, Nat.min_self]

theorem reads_fileContent {size : ℕ} (hkind : (d.inode n).kind = .regular)
    (hsize : (fileContent log d path).length ≤ size) :
    ext2ReadFile log d path size = .ok (fileContent log d path) := by
  have hused : n ∉ d.freeInodes := hpath ▸ hwf.pathUsed path
  rw [fileContent_eq hwf hpath hn hkind, length_bytes] at hsize
  rw [ext2ReadFile_eq hpath hn hkind (hwf.bounded n hused hkind),
    fileContent_eq hwf hpath hn hkind, Nat.min_eq_left hsize]

end

section

variable {s : Session} {r : Request} {n : ℕ} {inode : Inode} {d' : Disk}

/-- A call that writes nothing changes nothing, and nothing is asked of it. -/
theorem empty_write (hwf : WellFormed log s.disk) (hok : RequestOk log s r) (hempty : r.buffer = [])
    (hopened : Opened log s.disk r.path r.flags n inode d') :
    d' = s.disk ∧ pathToInode s.disk r.path = n ∧ n ≠ 0 ∧ (s.disk.inode n).kind = .regular ∧
      ∀ content, specified r.flags (fileContent log s.disk r.path) r.buffer = some content →
        content = fileContent log s.disk r.path := by
  have hnil : ∀ m, pathToInode s.disk r.path = m → m ≠ 0 → (s.disk.inode m).kind = .regular →
      (s.disk.inode m).size = 0 → fileContent log s.disk r.path = [] := by
    intro m hm hm0 hkind hsize
    rw [fileContent_eq hwf hm hm0 hkind, hsize]
    rfl
  unfold RequestOk at hok
  cases hopened with
  | created missing flag found nonzero kind free =>
    rw [if_pos missing] at hok
    exact absurd hempty (hok flag).2.1
  | truncated found nonzero kind flag =>
    rw [found, if_neg nonzero, if_pos hempty] at hok
    obtain ⟨hsize, hblks⟩ := (hok kind).1 flag
    have hfileBlocks : fileBlocks log (s.disk.inode n) = [] := by
      unfold fileBlocks
      rw [filter_eq_nil_iff]
      intro b hb
      obtain ⟨i, hi, rfl⟩ := mem_map.mp hb
      simp [hblks i (mem_range.mp hi)]
    refine ⟨by rw [hfileBlocks]; rfl, found, nonzero, kind, ?_⟩
    intro content hcont
    rw [hnil n found nonzero kind hsize]
    rw [hempty, specified, if_pos flag] at hcont
    simpa [flag] using hcont.symm
  | kept found nonzero kind flag =>
    rw [found, if_neg nonzero, if_pos hempty] at hok
    refine ⟨rfl, found, nonzero, kind, ?_⟩
    intro content hcont
    rw [hempty, specified, if_neg flag] at hcont
    split_ifs at hcont with happend hcreate
    · simpa using hcont.symm
    · have hcreate : r.flags.create := hcreate.resolve_right flag
      rw [hnil n found nonzero kind ((hok kind).2 ⟨hcreate, happend⟩)]
      simpa using hcont.symm

theorem data_write_ready (hok : RequestOk log s r) (hne : r.buffer ≠ [])
    (hopened : Opened log s.disk r.path r.flags n inode d') :
    (pathToInode s.disk r.path = 0 → Creatable r.path) ∧
      blocksFor log r.buffer.length ≤ blockLimit log ∧
      blocksFor log r.buffer.length ≤ d'.freeBlocks.length ∧
      (r.flags.append → inode.size = 0) ∧
      (r.flags.create ∨ r.flags.truncate → inode.size ≤ r.buffer.length) := by
  unfold RequestOk at hok
  cases hopened with
  | created missing flag found nonzero kind free =>
    rw [if_pos missing] at hok
    obtain ⟨hpath, -, hlimit, hroom⟩ := hok flag
    exact ⟨fun _ => hpath, hlimit, hroom, fun _ => rfl, fun _ => Nat.zero_le _⟩
  | truncated found nonzero kind flag =>
    rw [found, if_neg nonzero, if_neg hne] at hok
    obtain ⟨⟨hlimit, hroom⟩, -⟩ := hok kind
    refine ⟨fun h => absurd (found.symm.trans h) nonzero, hlimit, ?_, fun _ => rfl,
      fun _ => Nat.zero_le _⟩
    exact hroom.trans (by simp)
  | kept found nonzero kind flag =>
    rw [found, if_neg nonzero, if_neg hne] at hok
    obtain ⟨⟨hlimit, hroom⟩, hflags⟩ := hok kind
    refine ⟨fun h => absurd (found.symm.trans h) nonzero, hlimit, hroom, (hflags flag).1, ?_⟩
    exact fun h => (hflags flag).2 (h.resolve_right flag)

/-- Where the flags say what a file should hold after data was written, it is the data. -/
theorem specified_data (hok : RequestOk log s r) (hwf : WellFormed log s.disk) (hne : r.buffer ≠ [])
    (hopened : Opened log s.disk r.path r.flags n inode d') {content : List UInt8}
    (h : specified r.flags (fileContent log s.disk r.path) r.buffer = some content) :
    content = r.buffer ∧ inode.size ≤ r.buffer.length := by
  obtain ⟨-, -, -, happend, hcreate⟩ := data_write_ready hok hne hopened
  unfold specified at h
  split_ifs at h with hflag htruncate hflags
  · cases h
    exact ⟨rfl, (happend hflag).trans_le (Nat.zero_le _)⟩
  · cases h
    have hold : fileContent log s.disk r.path = [] := by
      cases hopened with
      | created missing flag found nonzero kind free => exact fileContent_missing missing
      | truncated found nonzero kind flag => exact absurd flag htruncate
      | kept found nonzero kind flag =>
        rw [fileContent_eq hwf found nonzero kind, happend hflag]
        rfl
    exact ⟨by rw [hold, nil_append], (happend hflag).trans_le (Nat.zero_le _)⟩
  · cases h
    exact ⟨rfl, hcreate hflags⟩

section

variable (hwf : WellFormed log s.disk) (hok : RequestOk log s r)
include hwf hok

theorem data_write (hne : r.buffer ≠ []) (hopened : Opened log s.disk r.path r.flags n inode d')
    (he : e = closeInode d' n r.flags
      (writeLoop log r.buffer r.buffer.length 0 ⟨inode, d'.data, d'.freeBlocks, 0⟩)) :
    WellFormed log e ∧
      ∀ content, specified r.flags (fileContent log s.disk r.path) r.buffer = some content →
        ∀ size, content.length ≤ size → ext2ReadFile log e r.path size = .ok content := by
  obtain ⟨hpath, hlimit, hroom, happend, -⟩ := data_write_ready hok hne hopened
  obtain ⟨hready, hused, hn0, hkind⟩ := hwf.opened hopened hpath
  have hstart : Progress log d' n inode.size r.buffer 0 ⟨inode, d'.data, d'.freeBlocks, 0⟩ :=
    ⟨hready, hkind, rfl, by simp, by simp, by simpa using hroom⟩
  obtain ⟨i, hend, hwritten⟩ := hstart.run hused hlimit (by simp : _ ≤ 0 + r.buffer.length)
  obtain ⟨hwf', hentry, hself, hother, hdata⟩ :=
    hend.close hwritten hne r.bound hlimit happend
  rw [← he] at hwf' hentry hself hother hdata
  refine ⟨hwf', ?_⟩
  intro content hcont size hsize
  obtain ⟨rfl, hle⟩ := specified_data hok hwf hne hopened hcont
  have hsizes : (e.inode n).size = r.buffer.length := by
    rw [hself]
    exact Nat.max_eq_left hle
  have hreg : (e.inode n).kind = .regular := by
    rw [hself]
    exact hend.kind
  have hmeta : ∀ m ≠ n, (e.inode m).kind = (s.disk.inode m).kind := by
    intro m hm
    rw [hother m hm]
    cases hopened <;> rfl
  have hinode : pathToInode e r.path = n :=
    hwf.pathToInode_opened hopened hpath hentry hreg hmeta
  have hbounded : (e.inode n).size ≤ blockLimit log * blockSize log := by
    rw [hsizes]
    exact (le_blocksFor_mul _).trans (Nat.mul_le_mul_right _ hlimit)
  rw [ext2ReadFile_eq hinode hn0 hreg hbounded, hsizes, Nat.min_eq_left hsize]
  congr 1
  apply bytes_eq_buffer
  intro k hk
  rw [hdata, hself]
  exact hend.data k (by omega)

/-- Every call that meets the condition leaves the disk well formed and can be read back. -/
theorem step_ok {t : Session}
    (hstep : step log s r = some t) : WellFormed log t.disk ∧ ReadsBack log t := by
  unfold step ext2WriteFile at hstep
  cases hopen : openInode log s.disk r.path r.flags with
  | error e =>
    rw [hopen] at hstep
    cases hstep
    refine ⟨hwf, ?_⟩
    rintro path content ⟨⟩
  | ok opened =>
    obtain ⟨n, inode, d'⟩ := opened
    have hopened := opened_of_eq hopen
    rw [hopen] at hstep
    cases hstep
    by_cases hne : r.buffer = []
    · obtain ⟨rfl, hpath, hn, hkind, hcont⟩ := empty_write hwf hok hne hopened
      have hclose : closeInode s.disk n r.flags (writeLoop log r.buffer r.buffer.length 0
          ⟨inode, s.disk.data, s.disk.freeBlocks, 0⟩) = s.disk := by
        rw [hne]
        rfl
      rw [hclose]
      refine ⟨hwf, ?_⟩
      intro path content hlast size hsize _
      obtain ⟨c, hc, heq⟩ := Option.map_eq_some_iff.mp hlast
      cases heq
      rw [hcont content hc] at hsize ⊢
      exact reads_fileContent hwf hpath hn hkind hsize
    · obtain ⟨hwf', hread⟩ := data_write hwf hok hne hopened rfl
      refine ⟨hwf', ?_⟩
      intro path content hlast size hsize _
      obtain ⟨c, hc, heq⟩ := Option.map_eq_some_iff.mp hlast
      cases heq
      exact hread content hc size hsize

end

end

def emptyDisk : Disk where
  inode n := if n = root then ⟨.directory, 1024, fun _ => 0⟩ else ⟨.other, 0, fun _ => 0⟩
  entry dir name := if dir = root ∧ name = [dot] then root else 0
  data _ _ := 0
  freeInodes := [11, 12]
  freeBlocks := [100, 101]

theorem emptyDisk_wellFormed (log : Fin 3) : WellFormed log emptyDisk := by
  have hkind : ∀ n, (emptyDisk.inode n).kind ≠ .regular := by
    intro n
    unfold emptyDisk
    dsimp only
    split_ifs <;> decide
  refine ⟨rfl, by decide, rfl, ?_, by decide, by decide, by decide, ⟨by decide, ?_, ?_⟩, ?_⟩
  · intro dir name
    unfold emptyDisk
    dsimp only
    split_ifs <;> decide
  · exact fun slot hslot => absurd hslot.2.1 (hkind slot.1)
  · exact fun slot _ hslot => absurd hslot.2.1 (hkind slot.1)
  · exact fun n _ hn => absurd hn (hkind n)

/-- On a well-formed disk, every run of calls that meet the condition leaves after each call what
the flags ask for, and no inode with a freed block. -/
theorem write_file_keeps_metadata (log : Fin 3) (d : Disk) (hd : WellFormed log d)
    (requests : List Request) (h : Meets (step log) (RequestOk log) ⟨d, none⟩ requests) :
    Throughout (step log) (fun s => ReadsBack log s ∧ NoDangling log s.disk)
      ⟨d, none⟩ requests := by
  have hinit : WellFormed log (⟨d, none⟩ : Session).disk ∧ ReadsBack log ⟨d, none⟩ := by
    refine ⟨hd, ?_⟩
    rintro path content ⟨⟩
  have hrun : Throughout (step log) (fun s => WellFormed log s.disk ∧ ReadsBack log s)
      ⟨d, none⟩ requests := by
    refine throughout_of_meets (step log) (I := fun s => WellFormed log s.disk ∧ ReadsBack log s)
      ?_ hinit h
    intro s r t hs hok ht
    exact step_ok hs.1 hok ht
  exact hrun.imp (step log) fun s hs => ⟨hs.2, hs.1.noDangling⟩

/-- A file is created with three bytes. -/
theorem created_file_keeps_metadata :
    Throughout (step 0) (fun s => ReadsBack 0 s ∧ NoDangling 0 s.disk) ⟨emptyDisk, none⟩
      [⟨[slash, 97], [1, 2, 3], by decide, ⟨true, false, false⟩⟩] := by
  apply write_file_keeps_metadata 0 emptyDisk (emptyDisk_wellFormed 0)
  refine meets_cons _ ?_ rfl trivial
  unfold RequestOk
  rw [if_pos (by decide)]
  intro _
  exact ⟨⟨by decide, by decide, by decide⟩, by decide, by unfold Room; decide⟩

/-- A file created without data has no inode on the disk. -/
theorem empty_file_is_not_read_back : WellFormed 0 emptyDisk ∧ ∃ t, exec (step 0) ⟨emptyDisk, none⟩
          [⟨[slash, 97], [], by decide, ⟨true, false, false⟩⟩] = some t ∧
        t.last = some ([slash, 97], []) ∧
        ext2ReadFile 0 t.disk [slash, 97] 1024 = .error .invalidArg :=
  ⟨emptyDisk_wellFormed 0, _, rfl, rfl, rfl⟩

end UintOS.Ext2.OnDisk
