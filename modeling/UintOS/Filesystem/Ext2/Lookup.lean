import UintOS.Filesystem.Ext2.Disk

/-!
# Reading files and following paths

`ext2_read_file` returns the bytes of a file, and `path_to_inode` goes through the directory
that `parse_path` gives for a path.
-/

namespace UintOS.Ext2.OnDisk

open List

open Vfs (Text slash dot maxPath)

variable {log : Fin 3}

theorem blockSize_pos (log : Fin 3) : 0 < blockSize log := by
  unfold blockSize
  positivity

/-! ## Reading -/

def byteAt (log : Fin 3) (data : ℕ → ℕ → UInt8) (inode : Inode) (k : ℕ) : UInt8 :=
  if inode.block (k / blockSize log) = 0 then 0
  else data (inode.block (k / blockSize log)) (k % blockSize log)

def bytes (log : Fin 3) (data : ℕ → ℕ → UInt8) (inode : Inode) (n : ℕ) : List UInt8 :=
  (List.range n).map (byteAt log data inode)

theorem length_bytes (data : ℕ → ℕ → UInt8) (inode : Inode) (n : ℕ) :
    (bytes log data inode n).length = n := by
  simp [bytes]

variable {n index : ℕ} {d : Disk} {inode : Inode} {path : Text}

theorem bytes_add {data : ℕ → ℕ → UInt8} (hn : n ≤ blockSize log) {block : ℕ → UInt8}
    (hblock : ∀ i < blockSize log, byteAt log data inode (index * blockSize log + i) = block i) :
    bytes log data inode (index * blockSize log) ++ (List.range n).map block =
      bytes log data inode (index * blockSize log + n) := by
  unfold bytes
  rw [range_add, map_append, map_map]
  congr 1
  apply map_congr_left
  intro i hi
  exact (hblock i (by rw [mem_range] at hi; omega)).symm

theorem byteAt_block (data : ℕ → ℕ → UInt8) (inode : Inode) (index : ℕ) {i : ℕ}
    (hi : i < blockSize log) :
    byteAt log data inode (index * blockSize log + i) =
      if inode.block index = 0 then 0 else data (inode.block index) i := by
  have hpos := blockSize_pos log
  have hdiv : (index * blockSize log + i) / blockSize log = index := by
    rw [Nat.mul_comm, Nat.mul_add_div hpos, Nat.div_eq_of_lt hi, Nat.add_zero]
  have hmod : (index * blockSize log + i) % blockSize log = i := by
    rw [Nat.mul_comm, Nat.mul_add_mod, Nat.mod_eq_of_lt hi]
  unfold byteAt
  rw [hdiv, hmod]

theorem readLoop_eq (hlimit : n ≤ blockLimit log * blockSize log)
    {blocks : ℕ} (hcount : index + blocks = (n + blockSize log - 1) / blockSize log) :
    readLoop log d inode n blocks index (bytes log d.data inode (min (index * blockSize log) n)) =
      .ok (bytes log d.data inode n) := by
  have hpos := blockSize_pos log
  induction blocks generalizing index with
  | zero =>
    have hle : n ≤ index * blockSize log := by
      have hdiv := Nat.div_add_mod (n + blockSize log - 1) (blockSize log)
      have hmod := Nat.mod_lt (n + blockSize log - 1) hpos
      rw [← hcount, Nat.add_zero, Nat.mul_comm] at hdiv
      omega
    rw [readLoop, Nat.min_eq_right hle]
  | succ blocks ih =>
    have hlt : index * blockSize log < n := by
      have hdiv : (index + 1) * blockSize log ≤ n + blockSize log - 1 := by
        apply (Nat.le_div_iff_mul_le hpos).mp
        omega
      rw [Nat.add_mul, Nat.one_mul] at hdiv
      omega
    have hindex : index < blockLimit log := by
      by_contra hge
      have := Nat.mul_le_mul_right (blockSize log) (not_lt.mp hge)
      omega
    have hread : readFileBlock log d inode index =
        .ok fun i => if inode.block index = 0 then 0 else d.data (inode.block index) i := by
      unfold readFileBlock
      split_ifs <;> rfl
    rw [readLoop, hread, Nat.min_eq_left hlt.le]
    dsimp only
    rw [length_bytes]
    generalize hm : (if n < index * blockSize log + blockSize log then n - index * blockSize log
      else blockSize log) = m
    have hle : m ≤ blockSize log := by
      rw [← hm]
      split_ifs <;> omega
    rw [bytes_add hle fun i hi => byteAt_block d.data inode index hi]
    have hnext : index * blockSize log + m = min ((index + 1) * blockSize log) n := by
      rw [Nat.add_mul, Nat.one_mul, ← hm]
      split_ifs <;> omega
    rw [hnext]
    exact ih (by omega)

/-- A regular file within the reach of its pointers is read as its bytes. -/
theorem ext2ReadFile_eq {size : ℕ} (hpath : pathToInode d path = n)
    (hn : n ≠ 0) (hkind : (d.inode n).kind = .regular)
    (hlimit : (d.inode n).size ≤ blockLimit log * blockSize log) :
    ext2ReadFile log d path size =
      .ok (bytes log d.data (d.inode n) (min (d.inode n).size size)) := by
  unfold ext2ReadFile
  rw [hpath, if_neg hn, if_neg (by simp [hkind])]
  generalize hm : min (d.inode n).size size = m
  have hloop : readLoop log d (d.inode n) m ((m + blockSize log - 1) / blockSize log) 0
      (bytes log d.data (d.inode n) (min (0 * blockSize log) m)) = _ :=
    readLoop_eq (by omega) (Nat.zero_add _)
  simpa [bytes] using hloop

/-! ## Paths -/

section

variable {d d' : Disk}

theorem pathToInode_congr (hentry : d'.entry = d.entry)
    (hkind : ∀ n, (d'.inode n).kind = (d.inode n).kind) (path : Text) :
    pathToInode d' path = pathToInode d path := by
  have hfind : ∀ dir component, d'.find dir component = d.find dir component := by
    intro dir component
    simp [Disk.find, hentry, hkind]
  have hwalk : ∀ path current component,
      d'.walk current component path = d.walk current component path := by
    intro path
    induction path with
    | nil =>
      intro current component
      simp [Disk.walk, hfind]
    | cons c path ih =>
      intro current component
      simp [Disk.walk, hfind, ih]
  simp [pathToInode, hwalk]

theorem walk_slash (d : Disk) (current : ℕ) (component path : Text) :
    d.walk current component (slash :: path) =
      if d.find current component = 0 then 0 else d.walk (d.find current component) [] path := by
  rw [Disk.walk, if_pos rfl]

variable {current : ℕ} {component path : Text} {c : UInt8}

theorem walk_copy (d : Disk) (hc : c ≠ slash) (hlen : component.length < 255) :
    d.walk current component (c :: path) = d.walk current (component ++ [c]) path := by
  rw [Disk.walk, if_neg hc, if_pos hlen]

theorem walk_full (d : Disk) (hc : c ≠ slash) (hlen : ¬ component.length < 255) :
    d.walk current component (c :: path) =
      if d.find current component = 0 then 0 else d.walk (d.find current component) [c] path := by
  rw [Disk.walk, if_neg hc, if_neg hlen]

/-- What is found stays so when names are added for a free inode. -/
theorem walk_grow (hentry : ∀ dir name, d.entry dir name ≠ 0 → d'.entry dir name = d.entry dir name)
    (hused : ∀ dir name, d.entry dir name ∉ d.freeInodes)
    (hkind : ∀ n ∉ d.freeInodes, (d'.inode n).kind = (d.inode n).kind)
    (hcur : current ∉ d.freeInodes) (h : d.walk current component path ≠ 0) :
    d'.walk current component path = d.walk current component path := by
  have hfind : ∀ dir name, dir ∉ d.freeInodes → d.find dir name ≠ 0 →
      d'.find dir name = d.find dir name ∧ d.find dir name ∉ d.freeInodes := by
    intro dir name hdir hne
    unfold Disk.find at *
    rw [hkind dir hdir]
    split_ifs at * with hk
    · exact ⟨hentry dir name hne, hused dir name⟩
    · exact absurd rfl hne
  induction path generalizing current component with
  | nil =>
    unfold Disk.walk at *
    split_ifs at * with hc
    · rfl
    · exact (hfind current component hcur h).1
  | cons c path ih =>
    have hstep : ∀ rest, (if d.find current component = 0 then 0
        else d.walk (d.find current component) rest path) ≠ 0 →
        (if d'.find current component = 0 then 0
          else d'.walk (d'.find current component) rest path) =
        if d.find current component = 0 then 0
          else d.walk (d.find current component) rest path := by
      intro rest hrest
      by_cases hzero : d.find current component = 0
      · rw [if_pos hzero] at hrest
        exact absurd rfl hrest
      · obtain ⟨heq, hnext⟩ := hfind current component hcur hzero
        rw [if_neg hzero] at hrest
        rw [heq, if_neg hzero, if_neg hzero]
        exact ih hnext hrest
    by_cases hc : c = slash
    · subst hc
      exact hstep [] h
    · by_cases hlen : component.length < 255
      · rw [walk_copy d hc hlen] at h
        rw [walk_copy d hc hlen, walk_copy d' hc hlen]
        exact ih hcur h
      · rw [walk_full d hc hlen] at h
        rw [walk_full d hc hlen, walk_full d' hc hlen]
        exact hstep [c] h

theorem walk_used (hused : ∀ dir name, d.entry dir name ∉ d.freeInodes) (hzero : 0 ∉ d.freeInodes)
    (hcur : current ∉ d.freeInodes) : d.walk current component path ∉ d.freeInodes := by
  have hfind : ∀ dir name, d.find dir name ∉ d.freeInodes := by
    intro dir name
    unfold Disk.find
    split_ifs
    · exact hused dir name
    · exact hzero
  induction path generalizing current component with
  | nil =>
    unfold Disk.walk
    split_ifs
    · exact hcur
    · exact hfind current component
  | cons c path ih =>
    have hstep : ∀ rest, (if d.find current component = 0 then 0
        else d.walk (d.find current component) rest path) ∉ d.freeInodes := by
      intro rest
      split_ifs
      · exact hzero
      · exact ih (hfind current component)
    by_cases hc : c = slash
    · subst hc
      exact hstep []
    · by_cases hlen : component.length < 255
      · rw [walk_copy d hc hlen]
        exact ih hcur
      · rw [walk_full d hc hlen]
        exact hstep [c]

theorem walk_append {p : Text} (hne : component ≠ [] ∨ p ≠ []) (hlast : p.getLast? ≠ some slash)
    (hlen : component.length + p.length ≤ 255) (q : Text) :
    d.walk current component (p ++ slash :: q) =
      if d.walk current component p = 0 then 0
      else d.walk (d.walk current component p) [] q := by
  induction p generalizing current component with
  | nil =>
    have hcomponent : component ≠ [] := hne.resolve_right (by simp)
    rw [nil_append, walk_slash, Disk.walk, if_neg hcomponent]
  | cons c p ih =>
    rw [length_cons] at hlen
    rw [cons_append]
    by_cases hc : c = slash
    · subst hc
      have hp : p ≠ [] := by
        rintro rfl
        exact hlast rfl
      have hlast' : p.getLast? ≠ some slash := by
        rwa [getLast?_cons_of_ne_nil hp] at hlast
      rw [walk_slash, walk_slash]
      by_cases hzero : d.find current component = 0
      · rw [if_pos hzero, if_pos hzero, if_pos rfl]
      · rw [if_neg hzero, if_neg hzero]
        exact ih (.inr hp) hlast' (by simp; omega)
    · rw [walk_copy d hc (by omega), walk_copy d hc (by omega)]
      apply ih (.inl (by simp))
      · by_cases hp : p = []
        · simp [hp]
        · rwa [getLast?_cons_of_ne_nil hp] at hlast
      · simp
        omega

theorem walk_name {name : Text} (hne : component ++ name ≠ []) (hslash : slash ∉ name)
    (hlen : component.length + name.length ≤ 255) :
    d.walk current component name = d.find current (component ++ name) := by
  induction name generalizing component with
  | nil =>
    rw [append_nil] at hne ⊢
    rw [Disk.walk, if_neg hne]
  | cons c name ih =>
    rw [length_cons] at hlen
    have hc : c ≠ slash := by
      rintro rfl
      simp at hslash
    have hrest : component ++ c :: name = component ++ [c] ++ name := by simp
    rw [walk_copy d hc (by omega), hrest]
    apply ih (by simp)
    · exact fun h => hslash (mem_cons_of_mem c h)
    · simp
      omega

end

theorem parsePath_cases (path : Text) : (slash ∉ path ∧ parsePath path = ([dot], path)) ∨
      (∃ name, slash ∉ name ∧ path = slash :: name ∧ parsePath path = ([slash], name)) ∨
      ∃ dirPath name, dirPath ≠ [] ∧ slash ∉ name ∧ path = dirPath ++ slash :: name ∧
        parsePath path = (dirPath, name) := by
  have hpath : path = (path.reverse.dropWhile (· ≠ slash)).reverse ++
      (path.reverse.takeWhile (· ≠ slash)).reverse := by
    rw [← reverse_append, takeWhile_append_dropWhile, reverse_reverse]
  have hname : slash ∉ (path.reverse.takeWhile (· ≠ slash)).reverse := by
    intro h
    have := all_takeWhile (p := (· ≠ slash)) (l := path.reverse)
    rw [all_eq_true] at this
    simpa using this slash (mem_reverse.mp h)
  have hhead : ∀ c ∈ (path.reverse.dropWhile (· ≠ slash)).head?, c = slash := by
    intro c hc
    have := head?_dropWhile_not (· ≠ slash) path.reverse
    rw [hc] at this
    simpa using this
  unfold parsePath
  generalize (path.reverse.takeWhile (· ≠ slash)).reverse = name at *
  generalize path.reverse.dropWhile (· ≠ slash) = rest at *
  match rest with
  | [] =>
    left
    exact ⟨hpath ▸ hname, rfl⟩
  | [c] =>
    obtain rfl : c = slash := hhead c rfl
    exact .inr (.inl ⟨name, hname, hpath, rfl⟩)
  | c :: e :: dirPath =>
    obtain rfl : c = slash := hhead c rfl
    refine .inr (.inr ⟨(e :: dirPath).reverse, name, by simp, hname, ?_, rfl⟩)
    rw [hpath]
    simp

/-- A path under which a file can be created: it has a name at its end, with at most one
slash before it, and fits into the buffers. -/
def Creatable (path : Text) : Prop :=
  path.length < maxPath ∧ (parsePath path).2 ≠ [] ∧
    ¬ ([slash, slash] ++ (parsePath path).2) <:+ path

theorem pathToInode_cons_slash (d : Disk) (path : Text) :
    pathToInode d (slash :: path) = d.walk root [] path := by
  unfold pathToInode
  split_ifs with h
  · obtain rfl : path = [] := by simpa using h
    rfl
  · rw [tail_cons]
  · simp at *

theorem pathToInode_of_head (d : Disk) (h : path.head? ≠ some slash) :
    pathToInode d path = d.walk root [] path := by
  have hne : path ≠ [slash] := by
    rintro rfl
    exact h rfl
  unfold pathToInode
  rw [if_neg hne, if_neg h]

theorem pathToInode_eq_find (hroot : (d.inode root).kind = .directory)
    (hdot : d.entry root [dot] = root) (hpath : Creatable path) :
    pathToInode d path =
      if pathToInode d (parsePath path).1 = 0 then 0
      else d.find (pathToInode d (parsePath path).1) (parsePath path).2 := by
  obtain ⟨hlen, hname, hslashes⟩ := hpath
  unfold maxPath at hlen
  have hroot0 : root ≠ 0 := by decide
  rcases parsePath_cases path with ⟨hslash, hparse⟩ | ⟨name, hslash, rfl, hparse⟩ |
    ⟨dirPath, name, hdir, hslash, rfl, hparse⟩
  · rw [hparse] at hname hslashes ⊢
    have hhere : pathToInode d [dot] = root := by
      have hfind : d.find root [dot] = root := by rw [Disk.find, if_pos hroot, hdot]
      exact hfind
    have hhead : path.head? ≠ some slash := fun h => hslash (mem_of_head? h)
    rw [hhere, if_neg hroot0, pathToInode_of_head d hhead,
      walk_name (by simpa using hname) hslash (by simp; omega), nil_append]
  · rw [hparse] at hname ⊢
    have hslashroot : pathToInode d [slash] = root := pathToInode_cons_slash d []
    rw [hslashroot, if_neg hroot0, pathToInode_cons_slash,
      walk_name (by simpa using hname) hslash (by simp at hlen ⊢; omega), nil_append]
  · rw [hparse] at hname hslashes ⊢
    have hlast : dirPath.getLast? ≠ some slash := by
      intro h
      obtain ⟨ys, rfl⟩ := getLast?_eq_some_iff.mp h
      exact hslashes ⟨ys, by simp⟩
    rw [length_append, length_cons] at hlen
    have hroute : ∀ p, p ≠ [] → p.getLast? ≠ some slash → p.length ≤ 255 →
        d.walk root [] (p ++ slash :: name) =
          if d.walk root [] p = 0 then 0 else d.find (d.walk root [] p) name := by
      intro p hp hp' hplen
      rw [walk_append (.inr hp) hp' (by simpa using hplen),
        walk_name (by simpa using hname) hslash (by simp; omega), nil_append]
    obtain ⟨c, p, rfl⟩ := exists_cons_of_ne_nil hdir
    rw [length_cons] at hlen
    by_cases hc : c = slash
    · subst hc
      have hp : p ≠ [] := by
        rintro rfl
        exact hlast rfl
      have hlast' : p.getLast? ≠ some slash := by
        rwa [getLast?_cons_of_ne_nil hp] at hlast
      rw [cons_append, pathToInode_cons_slash, pathToInode_cons_slash]
      exact hroute p hp hlast' (by omega)
    · rw [pathToInode_of_head d (by simpa using hc), pathToInode_of_head d (by simpa using hc)]
      exact hroute (c :: p) (by simp) hlast (by rw [length_cons]; omega)

end UintOS.Ext2.OnDisk
