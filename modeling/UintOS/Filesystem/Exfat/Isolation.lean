import UintOS.Filesystem.Exfat.Entries
import Mathlib.Data.List.TakeWhile

/-!
# Files and directories in the root

The calls keep files apart as long as a file fits into its cluster, the root has room for a
further entry, and what is written is not a directory.
-/

namespace UintOS.Exfat

open ByteImage List Runs
open Vfs (Text slash)

/-! ## Paths -/

structure RootPath where
  lead : Bool
  name : Text
  plain : slash ∉ name
  cstring : 0 ∉ name

def RootPath.text (p : RootPath) : Text := if p.lead then slash :: p.name else p.name

def nestedPath (dir name : Text) : Text := slash :: dir ++ slash :: name

theorem plain_reverse {name : Text} (h : slash ∉ name) :
    ∀ c ∈ name.reverse, decide (c ≠ slash) := by
  intro c hc
  have hne : c ≠ slash := by
    rintro rfl
    exact h (mem_reverse.mp hc)
  simpa using hne

theorem takeWhile_reverse {name : Text} (h : slash ∉ name) (rest : Text) :
    (name.reverse ++ slash :: rest).takeWhile (· ≠ slash) = name.reverse ∧
      (name.reverse ++ slash :: rest).dropWhile (· ≠ slash) = slash :: rest := by
  have hall := plain_reverse h
  rw [takeWhile_append_of_pos hall, dropWhile_append_of_pos hall]
  simp

theorem parsePath_root (p : RootPath) : parsePath p.text = .ok ([slash], p.name.take 255) := by
  unfold RootPath.text parsePath
  by_cases hlead : p.lead
  · have hparts := takeWhile_reverse p.plain []
    rw [if_pos hlead, reverse_cons]
    rw [hparts.1, hparts.2, reverse_reverse]
    rfl
  · have hall := plain_reverse p.plain
    have htake : p.name.reverse.takeWhile (· ≠ slash) = p.name.reverse :=
      takeWhile_eq_self_iff.mpr hall
    have hdrop : p.name.reverse.dropWhile (· ≠ slash) = [] := dropWhile_eq_nil_iff.mpr hall
    rw [if_neg hlead]
    rw [htake, hdrop, reverse_reverse]

theorem parsePath_nested {dir name : Text} (hname : slash ∉ name) :
    parsePath (nestedPath dir name) =
      if 255 ≤ dir.length + 1 then .error .invalidArg else .ok (slash :: dir, name.take 255) := by
  have hrev : (nestedPath dir name).reverse =
    name.reverse ++ slash :: (dir.reverse ++ [slash]) := by
    simp [nestedPath]
  have hparts := takeWhile_reverse hname (dir.reverse ++ [slash])
  unfold parsePath
  rw [hrev]
  rw [hparts.1, hparts.2]
  simp

variable (v : Volume)

theorem openDirectory_root (p : RootPath) : openDirectory v p.text =
      .ok (rootDirCluster, p.name.take 255, (clusterEntries v rootDirCluster).take 20) := by
  unfold openDirectory exfatListDirectory dirCluster
  rw [parsePath_root]
  simp

/-! ## Clusters -/

theorem entriesPerCluster_mul_le : entriesPerCluster * entrySize ≤ clusterSize := by decide

theorem address_of_lt {c : ℕ} (h : c < totalClusters) : address c = c * clusterSize := by
  have htotal : totalClusters = 4096 := by decide
  unfold address clusterSize
  omega

def SameCluster (v w : Volume) (c : ℕ) : Prop :=
  ∀ a, c * clusterSize ≤ a → a < (c + 1) * clusterSize → w.image a = v.image a

/-- The bytes of all clusters but the root and `k` are the same. -/
def OnlyCluster (v w : Volume) (k : ℕ) : Prop :=
  ∀ c, c < totalClusters → c ≠ rootDirCluster → c ≠ k → SameCluster v w c

section

variable {v w : Volume} {c : ℕ}

theorem clusterEntries_congr (hc : c < totalClusters) (h : SameCluster v w c) :
    clusterEntries w c = clusterEntries v c := by
  unfold clusterEntries
  rw [address_of_lt hc]
  apply records_congr
  · intro a ha ha'
    have := entriesPerCluster_mul_le
    exact h a ha (by rw [Nat.succ_mul]; omega)
  · decide

theorem readEntry_congr {e : Entry} (hsmall : entryFileSize e ≤ clusterSize)
    (hc : entryCluster e < totalClusters) (h : SameCluster v w (entryCluster e)) (size : ℕ) :
    readEntry w e size = readEntry v e size := by
  have hload : load w.image (address (entryCluster e)) (entryFileSize e) =
      load v.image (address (entryCluster e)) (entryFileSize e) := by
    rw [address_of_lt hc]
    apply load_congr
    intro a ha ha'
    exact h a ha (by rw [Nat.succ_mul]; omega)
  unfold readEntry
  rw [hload]

end

/-! ## The root directory -/

def lookup (name : Text) : Option Entry :=
  (clusterEntries v rootDirCluster).find? (entryName · = name)

/-- The root directory holds the entries `es`: they have names and clusters of their own, which were
handed out, and the files fit into them. Directories hold only files in other clusters, among the
first eight. -/
structure Files (v : Volume) (es : List Entry) : Prop where
  table : Table v.image (address rootDirCluster) entrySize entriesPerCluster es
  names : (es.map entryName).Nodup
  clusters : (es.map entryCluster).Nodup
  inUse : ∀ e ∈ es, 3 ≤ entryCluster e ∧ entryCluster e < v.nextFree
  small : ∀ e ∈ es, entryFileSize e ≤ clusterSize
  nested : ∀ e ∈ es, isDirectory e → ∀ f ∈ clusterEntries v (entryCluster e),
    3 ≤ entryCluster f ∧ entryCluster f < 8 ∧ entryFileSize f ≤ clusterSize ∧
      entryCluster f ∉ es.map entryCluster
  reserved : 8 ≤ v.nextFree
  bounded : v.nextFree ≤ totalClusters

section

variable {v w : Volume} {es es' : List Entry}

section

variable (h : Files v es)
include h

theorem Files.entries_eq : clusterEntries v rootDirCluster = es :=
  h.table.records_eq (by decide)

theorem Files.take_eq : (clusterEntries v rootDirCluster).take 20 = es := by
  rw [h.entries_eq]
  apply take_of_length_le
  have hle : entriesPerCluster ≤ 20 := by decide
  exact h.table.short.trans hle

theorem Files.lookup_eq (name : Text) : lookup v name = es.find? (entryName · = name) := by
  rw [lookup, h.entries_eq]

theorem Files.of_lookup {name : Text} {e : Entry} (he : lookup v name = some e) :
    e ∈ es ∧ entryName e = name ∧ name ≠ [] := by
  rw [h.lookup_eq] at he
  have hmem := mem_of_find?_eq_some he
  have hname : entryName e = name := by simpa using find?_some he
  exact ⟨hmem, hname, hname ▸ entryName_ne_nil (h.table.sized e hmem) (h.table.named e hmem)⟩

theorem Files.lt_total {e : Entry} (he : e ∈ es) :
    entryCluster e < totalClusters := (h.inUse e he).2.trans_le h.bounded

theorem Files.ne_root {e : Entry} (he : e ∈ es) : entryCluster e ≠ rootDirCluster := by
  have := (h.inUse e he).1
  unfold rootDirCluster
  omega

theorem Files.cluster_inj {e f : Entry} (he : e ∈ es) (hf : f ∈ es)
    (heq : entryCluster e = entryCluster f) : e = f :=
  inj_on_of_nodup_map h.clusters he hf heq

theorem Files.update {k : ℕ} (honly : OnlyCluster v w k)
    (htable : Table w.image (address rootDirCluster) entrySize entriesPerCluster es')
    (hnames : (es'.map entryName).Nodup) (hclusters : (es'.map entryCluster).Nodup)
    (hnext : v.nextFree ≤ w.nextFree) (hbounded : w.nextFree ≤ totalClusters)
    (hsmall : ∀ e ∈ es', entryFileSize e ≤ clusterSize)
    (hinUse : ∀ e ∈ es', entryCluster e ∈ es.map entryCluster ∨
      8 ≤ entryCluster e ∧ entryCluster e < w.nextFree)
    (hdirs : ∀ e ∈ es', isDirectory e → clusterEntries w (entryCluster e) = [] ∨
      entryCluster e ≠ k ∧ ∃ f ∈ es, isDirectory f ∧ entryCluster f = entryCluster e) :
    Files w es' := by
  have hused : ∀ e ∈ es', 3 ≤ entryCluster e ∧ entryCluster e < w.nextFree := by
    intro e he
    rcases hinUse e he with hmem | ⟨hge, hlt⟩
    · obtain ⟨f, hf, heq⟩ := mem_map.mp hmem
      have := h.inUse f hf
      omega
    · exact ⟨by omega, hlt⟩
  refine ⟨htable, hnames, hclusters, hused, hsmall, ?_, h.reserved.trans hnext, hbounded⟩
  intro e he hdir g hg
  rcases hdirs e he hdir with hnil | ⟨hk, f, hf, hfdir, heq⟩
  · rw [hnil] at hg
    cases hg
  · have hsame := honly (entryCluster f) (h.lt_total hf) (h.ne_root hf) (heq ▸ hk)
    rw [← heq, clusterEntries_congr (h.lt_total hf) hsame] at hg
    obtain ⟨h1, h2, h3, h4⟩ := h.nested f hf hfdir g hg
    refine ⟨h1, h2, h3, fun hmem => ?_⟩
    obtain ⟨e', he', heq'⟩ := mem_map.mp hmem
    rcases hinUse e' he' with hold | ⟨hge, -⟩
    · exact h4 (heq' ▸ hold)
    · omega

theorem Files.read (p : RootPath) (size : ℕ) : exfatReadFile v p.text size =
      match es.find? (entryName · = p.name.take 255) with
      | none => .error .notFound
      | some e => readEntry v e size := by
  unfold exfatReadFile
  rw [openDirectory_root]
  cases hfind : es.find? (entryName · = p.name.take 255) with
  | none => simp only [h.take_eq, hfind]
  | some e => simp only [h.take_eq, hfind]

end

theorem walk_append (v : Volume) (current : ℕ) (component : Text) {name : Text}
    (hslash : slash ∉ name) (hlen : component.length < 255) (path : Text) :
    walk v current component (name ++ path) =
      if 255 ≤ (component ++ name).length then .error .invalidArg
      else walk v current (component ++ name) path := by
  induction name generalizing component with
  | nil => rw [append_nil, nil_append, if_neg (by omega)]
  | cons c name ih =>
    obtain ⟨hc, hname⟩ := not_or.1 (mt mem_cons.2 hslash)
    have hassoc : component ++ c :: name = component ++ [c] ++ name := by simp
    rw [cons_append, walk, if_neg (Ne.symm hc)]
    by_cases hfull : 255 ≤ component.length + 1
    · rw [if_pos hfull, if_pos (by simp; omega)]
    · rw [if_neg hfull, hassoc]
      exact ih _ hname (by simp; omega)

/-- The last component. -/
theorem walk_name (v : Volume) (current : ℕ) {name : Text} (hslash : slash ∉ name)
    (hne : name ≠ []) :
    walk v current [] name =
      if 255 ≤ name.length then .error .invalidArg
      else
        match lookup v name with
        | none => .error .notFound
        | some e => .ok (entryCluster e) := by
  have happend := walk_append v current [] hslash (by decide) []
  rw [append_nil, nil_append, walk, if_neg hne] at happend
  exact happend

theorem Files.dirCluster_eq (h : Files v es) {dir : Text} (hslash : slash ∉ dir) (hne : dir ≠ []) :
    dirCluster v (slash :: dir) =
      if 255 ≤ dir.length then none
      else (es.find? (entryName · = dir)).map entryCluster := by
  unfold dirCluster exfatPathToCluster
  rw [if_neg (by simpa using hne), if_neg (by simpa using hne), head?_cons, if_pos rfl,
    tail_cons, walk_name v _ hslash hne, h.lookup_eq]
  by_cases hlen : 255 ≤ dir.length
  · rw [if_pos hlen, if_pos hlen]
  · rw [if_neg hlen, if_neg hlen]
    cases hfind : es.find? (entryName · = dir) with
    | none => rfl
    | some e =>
      have he := mem_of_find?_eq_some hfind
      have hlt := h.lt_total he
      have hge := (h.inUse e he).1
      have htotal : totalClusters = 4096 := by decide
      dsimp only
      rw [if_pos (by omega)]
      rfl

end

/-! ## Paths -/

/-- A call with paths in the root, and the uninitialised bytes of the entry it may make. -/
inductive Request
  | write (path : RootPath) (buffer : List UInt8) (flags : Flags) (garbage : ℕ → UInt8)
  | mkdir (path : RootPath) (garbage : ℕ → UInt8)
  | remove (path : RootPath)
  | rename (oldPath newPath : RootPath)

def serve : Request → Option (Except Error ℕ × Volume)
  | .write path buffer flags garbage => exfatWriteFile v path.text buffer flags garbage
  | .mkdir path garbage => exfatMkdir v path.text garbage
  | .remove path => exfatRemove v path.text
  | .rename oldPath newPath => exfatRename v oldPath.text newPath.text

def Request.names : Request → List Text
  | .write path _ _ _ => [path.name]
  | .mkdir path _ => [path.name]
  | .remove path => [path.name]
  | .rename oldPath newPath => [oldPath.name, newPath.name]

/-- A directory whose files a call gives another path. -/
def Request.Moves (dir : Text) : Request → Prop
  | .rename oldPath _ => oldPath.name = dir
  | _ => False

def IsDir (dir : Text) : Prop := ∃ e, lookup v dir = some e ∧ isDirectory e

/-- A call has changed only what it names, and a file that it has written is read as written. -/
structure Isolated (before : Volume) (request : Request) (after : Volume) : Prop where
  entry : ∀ name ∉ request.names, lookup after name = lookup before name
  content : ∀ p : RootPath, p.name ∉ request.names → ∀ size,
    exfatReadFile after p.text size = exfatReadFile before p.text size
  listing : ∀ dir ∉ request.names, slash ∉ dir → IsDir before dir → ∀ n,
    exfatListDirectory after (slash :: dir) n = exfatListDirectory before (slash :: dir) n
  nested : ∀ dir name, slash ∉ dir → slash ∉ name → IsDir before dir → ¬ request.Moves dir →
    ∀ size bytes, exfatReadFile before (nestedPath dir name) size = .ok bytes →
      exfatReadFile after (nestedPath dir name) size = .ok bytes
  readBack : ∀ path buffer flags garbage, request = .write path buffer flags garbage →
    ∀ size, buffer.length ≤ size → exfatReadFile after path.text size = .ok buffer

/-- Names are neither empty nor too long for the buffers, a file fits into its cluster and is not
empty, the root and the disk have room for it, and no directory is written to. -/
def RequestOk : Request → Prop
  | .write path buffer flags _ =>
    path.name ≠ [] ∧ path.name.length < 255 ∧ 0 < buffer.length ∧ buffer.length ≤ clusterSize ∧
      match lookup v path.name with
      | none => flags.create → v.nextFree < totalClusters ∧
          (clusterEntries v rootDirCluster).length < entriesPerCluster
      | some e => ¬ isDirectory e ∧ (flags.truncate → v.nextFree < totalClusters)
  | .mkdir path _ =>
    path.name.length < 255 ∧ (lookup v path.name = none →
      (clusterEntries v rootDirCluster).length < entriesPerCluster)
  | .remove path => path.name.length < 255
  | .rename oldPath newPath => oldPath.name.length < 255 ∧ newPath.name.length < 255

section

variable {v w : Volume} {es es' : List Entry}

theorem frame (hv : Files v es) (hw : Files w es') {k : ℕ} (honly : OnlyCluster v w k)
    {names : List Text} (hshort : ∀ n ∈ names, n.length < 255)
    (hfind : ∀ name ∉ names, es'.find? (entryName · = name) = es.find? (entryName · = name))
    (hkept : ∀ e ∈ es, entryName e ∉ names → entryCluster e ≠ k)
    (hinner : ∀ e ∈ es, isDirectory e → ∀ f ∈ clusterEntries v (entryCluster e),
      entryCluster f ≠ k) :
    (∀ name ∉ names, lookup w name = lookup v name) ∧ (∀ p : RootPath, p.name ∉ names → ∀ size,
        exfatReadFile w p.text size = exfatReadFile v p.text size) ∧
      (∀ dir ∉ names, slash ∉ dir → IsDir v dir → ∀ n,
        exfatListDirectory w (slash :: dir) n = exfatListDirectory v (slash :: dir) n) ∧
      ∀ dir ∉ names, ∀ name, slash ∉ dir → slash ∉ name → IsDir v dir → ∀ size,
        exfatReadFile w (nestedPath dir name) size =
          exfatReadFile v (nestedPath dir name) size := by
  have hlookup : ∀ name ∉ names, lookup w name = lookup v name := by
    intro name hname
    rw [hw.lookup_eq, hv.lookup_eq, hfind name hname]
  have hdir : ∀ dir ∉ names, slash ∉ dir → IsDir v dir → ∀ n,
      exfatListDirectory w (slash :: dir) n = exfatListDirectory v (slash :: dir) n := by
    rintro dir hname hslash ⟨e, he, -⟩ n
    obtain ⟨hmem, hdirname, hne⟩ := hv.of_lookup he
    rw [hv.lookup_eq] at he
    unfold exfatListDirectory
    rw [hv.dirCluster_eq hslash hne, hw.dirCluster_eq hslash hne, hfind dir hname, he]
    by_cases hlen : 255 ≤ dir.length
    · rw [if_pos hlen]
    · rw [if_neg hlen]
      dsimp only [Option.map_some]
      rw [clusterEntries_congr (hv.lt_total hmem) (honly _ (hv.lt_total hmem) (hv.ne_root hmem)
        (hkept e hmem (hdirname ▸ hname)))]
  refine ⟨hlookup, ?_, hdir, ?_⟩
  · intro p hp size
    have hname : p.name.take 255 ∉ names := by
      intro hmem
      have hlen := hshort _ hmem
      rw [take_of_length_le (by simp at hlen; omega)] at hmem
      exact hp hmem
    rw [hv.read, hw.read, hfind _ hname]
    cases hfound : es.find? (entryName · = p.name.take 255) with
    | none => rfl
    | some e =>
      have hmem := mem_of_find?_eq_some hfound
      have hename : entryName e = p.name.take 255 := by simpa using find?_some hfound
      exact readEntry_congr (hv.small e hmem) (hv.lt_total hmem) (honly _ (hv.lt_total hmem)
        (hv.ne_root hmem) (hkept e hmem (hename ▸ hname))) size
  · rintro dir hname name hslash hslash' hisdir size
    obtain ⟨e, he, hdirectory⟩ := hisdir
    have hlist := hdir dir hname hslash ⟨e, he, hdirectory⟩ 20
    obtain ⟨hmem, -, hne⟩ := hv.of_lookup he
    rw [hv.lookup_eq] at he
    have hcluster : dirCluster w (slash :: dir) = dirCluster v (slash :: dir) := by
      rw [hv.dirCluster_eq hslash hne, hw.dirCluster_eq hslash hne, hfind dir hname]
    have hopen : openDirectory w (nestedPath dir name) = openDirectory v (nestedPath dir name) := by
      unfold openDirectory
      rw [parsePath_nested hslash']
      split_ifs
      · rfl
      · dsimp only
        rw [hcluster, hlist]
    unfold exfatReadFile
    rw [hopen]
    unfold openDirectory
    rw [parsePath_nested hslash']
    split_ifs
    · rfl
    · dsimp only
      unfold exfatListDirectory
      rw [hv.dirCluster_eq hslash hne, he]
      split_ifs
      · rfl
      · dsimp only [Option.map_some]
        cases hfound : ((clusterEntries v (entryCluster e)).take 20).find?
            (entryName · = name.take 255) with
        | none => rfl
        | some f =>
          have hf := mem_of_mem_take (mem_of_find?_eq_some hfound)
          obtain ⟨h3, h8, hsmall, -⟩ := hv.nested e hmem hdirectory f hf
          have hlt : entryCluster f < totalClusters := by
            have := hv.reserved
            have := hv.bounded
            omega
          apply readEntry_congr hsmall hlt
          apply honly _ hlt ?_ (hinner e hmem hdirectory f hf)
          unfold rootDirCluster
          omega

end

end UintOS.Exfat
