import UintOS.Filesystem.Exfat.Isolation

/-!
# The calls one by one

Each call that meets the condition keeps the root directory in order and is isolated. Over
every run the calls return, and what they leave alone stays as it is.
-/

namespace UintOS.Exfat

open ByteImage List Runs
open Vfs (Text slash)

/-! ## Changing one entry of a list -/

section

variable {α β : Type*} {p : α → Bool} {g : α → α} {f : α → β}

variable {l : List α} {i : ℕ}

theorem getElem?_of_findIdx? {P : α → Prop} [DecidablePred P] (h : l.findIdx? (P ·) = some i) :
    ∃ a ∈ l, P a ∧ l[i]? = some a ∧ l.find? (P ·) = some a := by
  obtain ⟨hi, hp, hbef⟩ := findIdx?_eq_some_iff_getElem.mp h
  refine ⟨l[i], getElem_mem hi, of_decide_eq_true hp, getElem?_eq_getElem hi, ?_⟩
  exact find?_eq_some_iff_getElem.mpr ⟨hp, i, hi, rfl, by simpa using hbef⟩

theorem modify_eq_set_of_getElem? {a : α} (hi : l[i]? = some a) : l.modify i g = l.set i (g a) := by
  rw [modify_eq_set_getElem?, hi]
  rfl

theorem find?_modify {a : α} (hi : l[i]? = some a) (ha : ¬ p a) (hga : ¬ p (g a)) :
    (l.modify i g).find? p = l.find? p := by
  induction l generalizing i with
  | nil => simp
  | cons b l ih =>
    cases i with
    | zero =>
      cases hi
      rw [modify_zero_cons, find?_cons_of_neg hga, find?_cons_of_neg ha]
    | succ i => rw [modify_succ_cons, find?_cons, find?_cons, ih hi]

theorem find?_modify_self (hi : l.findIdx? p = some i) {a : α} (ha : l[i]? = some a)
    (hga : p (g a)) : (l.modify i g).find? p = some (g a) := by
  induction l generalizing i with
  | nil => simp at hi
  | cons b l ih =>
    rw [findIdx?_cons] at hi
    split_ifs at hi with hb
    · cases hi
      cases ha
      rw [modify_zero_cons, find?_cons_of_pos hga]
    · obtain ⟨j, hj, rfl⟩ := Option.map_eq_some_iff.mp hi
      rw [modify_succ_cons, find?_cons_of_neg hb]
      exact ih hj ha

theorem find?_eraseIdx {a : α} (hi : l[i]? = some a) (ha : ¬ p a) :
    (l.eraseIdx i).find? p = l.find? p := by
  induction l generalizing i with
  | nil => simp
  | cons b l ih =>
    cases i with
    | zero =>
      cases hi
      rw [eraseIdx_cons_zero, find?_cons_of_neg ha]
    | succ i => rw [eraseIdx_cons_succ, find?_cons, find?_cons, ih hi]

theorem nodup_map_modify {a : α} (hi : l[i]? = some a) (h : (l.map f).Nodup)
    (hf : f (g a) = f a ∨ f (g a) ∉ l.map f) : ((l.modify i g).map f).Nodup := by
  rw [modify_eq_set_of_getElem? hi, map_set]
  rcases hf with hf | hf
  · obtain ⟨hlt, rfl⟩ := List.getElem?_eq_some_iff.mp hi
    rwa [hf, ← List.map_set, List.set_getElem_self]
  · exact h.set hf

end

/-! ## Storing -/

section

variable {v w : Volume} {es es' : List Entry} {k offset : ℕ} {bytes : List UInt8}

theorem storeDisk_cluster (hk : k < totalClusters) (h : bytes.length ≤ clusterSize) :
    storeDisk v (address k) bytes = some { v with image := store v.image (address k) bytes } := by
  have htotal : totalClusters = 4096 := by decide
  have hdisk : diskSize = 16777216 := by decide
  have hins : address k + bytes.length ≤ diskSize := by
    rw [address_of_lt hk]
    unfold clusterSize at *
    omega
  unfold storeDisk
  rw [if_pos hins]

theorem storeDisk_root (h : offset + bytes.length ≤ clusterSize) :
    storeDisk v (address rootDirCluster + offset) bytes =
      some { v with image := store v.image (address rootDirCluster + offset) bytes } := by
  have hroot : address rootDirCluster = 8192 := by decide
  have hdisk : diskSize = 16777216 := by decide
  have hcluster : clusterSize = 4096 := rfl
  unfold storeDisk
  rw [if_pos (by omega)]

theorem storeDisk_start (h : 0 + bytes.length ≤ clusterSize) :
    storeDisk v (address rootDirCluster) bytes =
      some { v with image := store v.image (address rootDirCluster + 0) bytes } :=
  storeDisk_root h

theorem sameCluster_store {c : ℕ} (hk : k < totalClusters) (hc : c ≠ k)
    (h : offset + bytes.length ≤ clusterSize) (n : ℕ) :
    SameCluster v ⟨store v.image (address k + offset) bytes, n⟩ c := by
  intro a ha ha'
  rw [address_of_lt hk]
  apply store_outside
  unfold clusterSize at *
  omega

theorem root_lt_total : rootDirCluster < totalClusters := by decide

/-- A volume in which a cluster and a part of the root were stored. -/
def stored (v : Volume) (k : ℕ) (content : List UInt8) (offset : ℕ) (bytes : List UInt8)
    (nextFree : ℕ) : Volume :=
  ⟨store (store v.image (address k) content) (address rootDirCluster + offset) bytes, nextFree⟩

variable {content bytes : List UInt8} {offset n : ℕ}

theorem onlyCluster_stored (hk : k < totalClusters) (hcont : content.length ≤ clusterSize)
    (hbytes : offset + bytes.length ≤ clusterSize) (n : ℕ) :
    OnlyCluster v (stored v k content offset bytes n) k := by
  intro c _ hroot hc
  have hinner : SameCluster v ⟨store v.image (address k + 0) content, n⟩ c :=
    sameCluster_store hk hc (by omega) n
  have houter : SameCluster ⟨store v.image (address k) content, n⟩
      (stored v k content offset bytes n) c :=
    sameCluster_store (v := ⟨store v.image (address k) content, n⟩) root_lt_total hroot hbytes n
  intro a ha ha'
  exact (houter a ha ha').trans (hinner a ha ha')

theorem stored_nil (bytes : List UInt8) : stored v 0 [] 0 bytes v.nextFree =
      { v with image := store v.image (address rootDirCluster + 0) bytes } := by
  have hstore : store v.image (address 0) [] = v.image := by
    funext a
    exact store_outside (by simp; omega)
  unfold stored
  rw [hstore]

theorem Files.table_store (h : Files v es) (hk : k < totalClusters) (hroot : k ≠ rootDirCluster)
    (hcont : content.length ≤ clusterSize) :
    Table (store v.image (address k) content) (address rootDirCluster) entrySize entriesPerCluster
      es := by
  apply h.table.congr ?_ (by decide)
  intro a ha ha'
  have hsame : SameCluster v ⟨store v.image (address k + 0) content, 0⟩ rootDirCluster :=
    sameCluster_store hk hroot.symm (by omega) 0
  have hle := entriesPerCluster_mul_le
  rw [address_of_lt root_lt_total] at ha ha'
  exact hsame a ha (by rw [Nat.succ_mul]; omega)

theorem load_stored (hk : k < totalClusters) (hroot : k ≠ rootDirCluster)
    (hcont : content.length ≤ clusterSize) (hbytes : offset + bytes.length ≤ clusterSize)
    (n : ℕ) :
    load (stored v k content offset bytes n).image (address k) content.length = content := by
  have hne : address k + content.length ≤ address rootDirCluster + offset ∨
      address rootDirCluster + offset + bytes.length ≤ address k := by
    rw [address_of_lt hk, address_of_lt root_lt_total]
    unfold clusterSize at *
    omega
  unfold stored
  rw [load_store_outside hne, load_store]

theorem zeroes_le : (List.replicate clusterSize (0 : UInt8)).length ≤ clusterSize := by
  rw [length_replicate]

theorem clusterEntries_cleared (hk : k < totalClusters) (hroot : k ≠ rootDirCluster)
    (hbytes : offset + bytes.length ≤ clusterSize) (n : ℕ) :
    clusterEntries (stored v k (List.replicate clusterSize 0) offset bytes n) k = [] := by
  have hload := load_stored (v := v) hk hroot zeroes_le hbytes n
  have hfirst :
      (stored v k (List.replicate clusterSize 0) offset bytes n).image (address k) = 0 := by
    have hne : List.replicate clusterSize (0 : UInt8) ≠ [] := by
      decide
    have hhead := load_head (length_pos_of_ne_nil hne) (hload.trans (append_nil _).symm) hne
    exact (Option.some.inj hhead).symm
  unfold clusterEntries
  rw [show entriesPerCluster = 13 + 1 by decide, records, if_pos hfirst]

/-! ## Root directories after a call -/

theorem Files.openDirectory_eq (h : Files v es) (p : RootPath) (hlen : p.name.length < 255) :
    openDirectory v p.text = .ok (rootDirCluster, p.name, es) := by
  rw [openDirectory_root, h.take_eq, take_of_length_le (by omega)]

theorem Files.length_le (h : Files v es) : es.length * entrySize ≤ clusterSize :=
  (Nat.mul_le_mul_right entrySize h.table.short).trans entriesPerCluster_mul_le

theorem slot_le (h : n < entriesPerCluster) : n * entrySize + entrySize ≤ clusterSize := by
  rw [← Nat.succ_mul]
  exact (Nat.mul_le_mul_right entrySize h).trans entriesPerCluster_mul_le

theorem Files.next_ne_root (h : Files v es) : v.nextFree ≠ rootDirCluster := by
  have := h.reserved
  unfold rootDirCluster
  omega

theorem Files.flatten_le (h : Files v es) (hsized : ∀ f ∈ es', f.length = entrySize)
    (hlength : es'.length = es.length) : 0 + es'.flatten.length ≤ clusterSize := by
  rw [length_flatten_of_sized hsized, hlength, Nat.zero_add]
  exact h.length_le

variable {i : ℕ} {e : Entry} {g : Entry → Entry}

theorem Files.sized_modify (h : Files v es)
    (hg : ∀ e ∈ es, (g e).length = entrySize) : ∀ f ∈ es.modify i g, f.length = entrySize := by
  intro f hf
  obtain ⟨j, hj, rfl⟩ := getElem_of_mem hf
  rw [getElem_modify]
  split_ifs
  · exact hg _ (getElem_mem _)
  · exact h.table.sized _ (getElem_mem _)

theorem Files.sized_erase (h : Files v es) (i : ℕ) :
    ∀ f ∈ es.eraseIdx i ++ [List.replicate entrySize 0], f.length = entrySize := by
  intro f hf
  rcases mem_append.mp hf with hf | hf
  · exact h.table.sized f (mem_of_mem_eraseIdx hf)
  · cases mem_singleton.mp hf
    exact length_replicate

theorem length_erase_append (hi : i < es.length) :
    (es.eraseIdx i ++ [List.replicate entrySize 0]).length = es.length := by
  rw [length_append, length_singleton, length_eraseIdx_of_lt hi]
  omega

section

variable (h : Files v es)
include h

theorem Files.inner_ne (hk : k < 3 ∨ 8 ≤ k ∨ k ∈ es.map entryCluster) :
    ∀ e ∈ es, isDirectory e → ∀ f ∈ clusterEntries v (entryCluster e), entryCluster f ≠ k := by
  rintro e he hdir f hf rfl
  obtain ⟨h3, h8, -, hnot⟩ := h.nested e he hdir f hf
  rcases hk with hk | hk | hk
  · omega
  · omega
  · exact hnot hk

theorem Files.push (hnext : v.nextFree < totalClusters)
    (hroom : es.length < entriesPerCluster) (hcont : content.length ≤ clusterSize)
    (hlen : e.length = entrySize) (hhead : e.head? ≠ some 0)
    (hname : entryName e ∉ es.map entryName) (hcluster : entryCluster e = v.nextFree)
    (hsmall : entryFileSize e ≤ clusterSize)
    (hdir : isDirectory e → content = List.replicate clusterSize 0) :
    Files (stored v v.nextFree content (es.length * entrySize) e (v.nextFree + 1)) (es ++ [e]) ∧
      OnlyCluster v (stored v v.nextFree content (es.length * entrySize) e (v.nextFree + 1))
        v.nextFree := by
  have hbytes : es.length * entrySize + e.length ≤ clusterSize := hlen ▸ slot_le hroom
  have honly := onlyCluster_stored (v := v) hnext hcont hbytes (v.nextFree + 1)
  have hfr : entryCluster e ∉ es.map entryCluster := by
    intro hmem
    obtain ⟨f, hf, heq⟩ := mem_map.mp hmem
    have := (h.inUse f hf).2
    omega
  refine ⟨h.update honly ?_ ?_ ?_ (Nat.le_succ _) hnext ?_ ?_ ?_, honly⟩
  · exact (h.table_store hnext h.next_ne_root hcont).push hroom hlen hhead
  · rw [map_append, map_singleton, ← concat_eq_append]
    exact h.names.concat hname
  · rw [map_append, map_singleton, ← concat_eq_append]
    exact h.clusters.concat hfr
  · intro f hf
    rcases mem_append.mp hf with hf | hf
    · exact h.small f hf
    · cases mem_singleton.mp hf
      exact hsmall
  · intro f hf
    rcases mem_append.mp hf with hf | hf
    · exact .inl (mem_map_of_mem hf)
    · cases mem_singleton.mp hf
      have := h.reserved
      exact .inr ⟨by omega, by rw [hcluster]; exact Nat.lt_succ_self _⟩
  · intro f hf hfdir
    rcases mem_append.mp hf with hf | hf
    · have := (h.inUse f hf).2
      exact .inr ⟨by omega, f, hf, hfdir, rfl⟩
    · cases mem_singleton.mp hf
      left
      rw [hcluster, hdir hfdir]
      exact clusterEntries_cleared hnext h.next_ne_root hbytes _

theorem Files.modify (hi : es[i]? = some e)
    (hk : k < totalClusters) (hkroot : k ≠ rootDirCluster) (hcont : content.length ≤ clusterSize)
      (hnext : v.nextFree ≤ n) (hbounded : n ≤ totalClusters)
    (hlen : (g e).length = entrySize) (hhead : (g e).head? ≠ some 0)
    (hsmall : entryFileSize (g e) ≤ clusterSize)
    (hname : entryName (g e) = entryName e ∨ entryName (g e) ∉ es.map entryName)
    (hcluster : entryCluster (g e) = entryCluster e ∨
      v.nextFree ≤ entryCluster (g e) ∧ entryCluster (g e) < n)
    (hkept : ∀ f ∈ es, isDirectory f → entryCluster f ≠ k)
    (hdir : isDirectory (g e) → isDirectory e ∧ entryCluster (g e) = entryCluster e) :
    Files (stored v k content 0 (es.modify i g).flatten n) (es.modify i g) ∧
      OnlyCluster v (stored v k content 0 (es.modify i g).flatten n) k := by
  have he : e ∈ es := mem_of_getElem? hi
  have hmem : ∀ f ∈ es.modify i g, f ∈ es ∨ f = g e := by
    intro f hf
    rw [modify_eq_set_of_getElem? hi] at hf
    exact mem_or_eq_of_mem_set hf
  have hsized : ∀ f ∈ es.modify i g, f.length = entrySize := by
    intro f hf
    rcases hmem f hf with hf | rfl
    · exact h.table.sized f hf
    · exact hlen
  have hbytes := h.flatten_le hsized (length_modify ..)
  have honly := onlyCluster_stored (v := v) hk hcont hbytes n
  refine ⟨h.update honly ?_ ?_ ?_ hnext hbounded ?_ ?_ ?_, honly⟩
  · apply (h.table_store hk hkroot hcont).rewrite (length_modify ..) hsized
    intro f hf
    rcases hmem f hf with hf | rfl
    · exact h.table.named f hf
    · exact hhead
  · exact nodup_map_modify hi h.names hname
  · apply nodup_map_modify hi h.clusters
    refine hcluster.imp_right fun hfr hin => ?_
    obtain ⟨f, hf, heq⟩ := mem_map.mp hin
    have := (h.inUse f hf).2
    omega
  · intro f hf
    rcases hmem f hf with hf | rfl
    · exact h.small f hf
    · exact hsmall
  · intro f hf
    rcases hmem f hf with hf | rfl
    · exact .inl (mem_map_of_mem hf)
    · rcases hcluster with hcluster | ⟨hge, hlt⟩
      · rw [hcluster]
        exact .inl (mem_map_of_mem he)
      · exact .inr ⟨h.reserved.trans hge, hlt⟩
  · intro f hf hfdir
    rcases hmem f hf with hf | rfl
    · exact .inr ⟨hkept f hf hfdir, f, hf, hfdir, rfl⟩
    · obtain ⟨hedir, heq⟩ := hdir hfdir
      exact .inr ⟨heq ▸ hkept e he hedir, e, he, hedir, heq.symm⟩

theorem Files.erase (hi : es[i]? = some e) :
    Files (stored v (entryCluster e) (List.replicate clusterSize 0) 0
        (es.eraseIdx i ++ [List.replicate entrySize 0]).flatten v.nextFree) (es.eraseIdx i) ∧
      OnlyCluster v (stored v (entryCluster e) (List.replicate clusterSize 0) 0
        (es.eraseIdx i ++ [List.replicate entrySize 0]).flatten v.nextFree) (entryCluster e) := by
  have he : e ∈ es := List.mem_of_getElem? hi
  have hlt : i < es.length := (List.getElem?_eq_some_iff.mp hi).1
  have hlength : (es.eraseIdx i).length + 1 = es.length := by
    rw [length_eraseIdx_of_lt hlt]
    omega
  have hbytes := h.flatten_le (h.sized_erase i) (length_erase_append hlt)
  have honly := onlyCluster_stored (v := v) (h.lt_total he) zeroes_le hbytes v.nextFree
  have hsub := eraseIdx_sublist es i
  have hnotin : ∀ f ∈ es.eraseIdx i, entryCluster f ≠ entryCluster e := by
    intro f hf heq
    cases h.cluster_inj (mem_of_mem_eraseIdx hf) he heq
    obtain ⟨j, hj, hne, hje⟩ := List.mem_eraseIdx_iff_getElem.mp hf
    have hie := (List.getElem?_eq_some_iff.mp hi).2
    exact hne ((h.names.of_map _).getElem_inj_iff.mp (hje.trans hie.symm))
  refine ⟨h.update honly ?_ ?_ ?_ le_rfl h.bounded ?_ ?_ ?_, honly⟩
  · apply (h.table_store (h.lt_total he) (h.ne_root he) zeroes_le).shrink (by decide) hlength
    · intro f hf
      exact h.table.sized f (mem_of_mem_eraseIdx hf)
    · intro f hf
      exact h.table.named f (mem_of_mem_eraseIdx hf)
  · exact h.names.sublist (hsub.map entryName)
  · exact h.clusters.sublist (hsub.map entryCluster)
  · intro f hf
    exact h.small f (mem_of_mem_eraseIdx hf)
  · intro f hf
    exact .inl (mem_map_of_mem (mem_of_mem_eraseIdx hf))
  · intro f hf hfdir
    exact .inr ⟨hnotin f hf, f, mem_of_mem_eraseIdx hf, hfdir, rfl⟩

end

end

/-! ## The calls -/

theorem exfatAllocateCluster_of_lt {v : Volume} (h : v.nextFree < totalClusters) :
    exfatAllocateCluster v = ((v.nextFree : ℤ), { v with nextFree := v.nextFree + 1 }) := by
  unfold exfatAllocateCluster
  rw [if_neg (by omega)]

/-- A call returns, keeps the root in order, and is isolated if it succeeds. -/
def Served (v : Volume) (request : Request) : Prop :=
  ∃ result w es, serve v request = some (result, w) ∧ Files w es ∧
    ∀ n, result = .ok n → Isolated v request w

section

variable {v w : Volume} {es es' : List Entry}

variable {request : Request} {p : RootPath} {buffer : List UInt8} {flags : Flags} {e : Entry}
  {garbage : ℕ → UInt8}

section

variable {i : ℕ} (hv : Files v es)
include hv

theorem served_error {e : Error} (h : serve v request = some (.error e, v)) : Served v request :=
  ⟨.error e, v, es, h, hv, fun _ hn => by cases hn⟩

theorem Isolated.of_only (hw : Files w es') {k : ℕ} (honly : OnlyCluster v w k)
    (hshort : ∀ n ∈ request.names, n.length < 255) (hfind : ∀ name ∉ request.names,
      es'.find? (entryName · = name) = es.find? (entryName · = name))
    (hkept : ∀ e ∈ es, entryName e ∉ request.names → entryCluster e ≠ k)
    (hk : k < 3 ∨ 8 ≤ k ∨ k ∈ es.map entryCluster)
    (hown : ∀ dir ∈ request.names, slash ∉ dir → IsDir v dir → ¬ request.Moves dir →
      ∀ name, slash ∉ name → ∀ size bytes, exfatReadFile v (nestedPath dir name) size ≠ .ok bytes)
    (hread : ∀ path buffer flags garbage, request = .write path buffer flags garbage →
      ∀ size, buffer.length ≤ size → exfatReadFile w path.text size = .ok buffer) :
    Isolated v request w := by
  obtain ⟨hentry, hcont, hlisting, hnested⟩ :=
    frame hv hw honly hshort hfind hkept (hv.inner_ne hk)
  refine ⟨hentry, hcont, hlisting, ?_, hread⟩
  intro dir name hdir hname hisdir hmoves size bytes hbef
  by_cases hmem : dir ∈ request.names
  · exact absurd hbef (hown dir hmem hdir hisdir hmoves name hname size bytes)
  · rw [hnested dir hmem name hdir hname hisdir size]
    exact hbef

theorem Isolated.of_push (hw : Files w (es ++ [e])) (honly : OnlyCluster v w v.nextFree)
    (hnames : request.names = [p.name]) (hlen : p.name.length < 255) (hname : entryName e = p.name)
    (hnone : es.find? (entryName · = p.name) = none)
    (hread : ∀ path buffer flags garbage, request = .write path buffer flags garbage →
      ∀ size, buffer.length ≤ size → exfatReadFile w path.text size = .ok buffer) :
    Isolated v request w := by
  apply Isolated.of_only hv hw honly
  · simpa [hnames] using hlen
  · intro name hmem
    have hother : entryName e ≠ name := by simpa [hnames, hname, eq_comm] using hmem
    rw [find?_append, find?_cons_of_neg (by simpa using hother)]
    simp
  · intro f hf _
    have := (hv.inUse f hf).2
    omega
  · exact .inr (.inl hv.reserved)
  · rintro dir hmem - ⟨f, hf, -⟩
    rw [hnames] at hmem
    cases mem_singleton.mp hmem
    rw [hv.lookup_eq, hnone] at hf
    cases hf
  · exact hread

theorem write_new (garbage : ℕ → UInt8) (hne : p.name ≠ [])
    (hlen : p.name.length < 255) (hpos : 0 < buffer.length) (hsize : buffer.length ≤ clusterSize)
    (hcreate : flags.create) (hnext : v.nextFree < totalClusters)
    (hroom : es.length < entriesPerCluster) (hnone : es.find? (entryName · = p.name) = none) :
    Served v (.write p buffer flags garbage) := by
  have htotal : totalClusters = 4096 := by decide
  have hreserved := hv.reserved
  have hbig : buffer.length < 2 ^ 32 := by
    unfold clusterSize at hsize
    omega
  have hidx : es.findIdx? (entryName · = p.name) = none := by
    simpa using hnone
  have hcluster : ((v.nextFree : ℤ) % 2 ^ 32).toNat = v.nextFree := by omega
  have hname := entryName_makeEntry garbage buffer.length attrArchive v.nextFree hlen.le p.cstring
  have hentry := length_makeEntry garbage buffer.length attrArchive v.nextFree hlen.le
  have hfile := entryFileSize_makeEntry garbage buffer.length attrArchive v.nextFree hlen.le hbig
  have hat := entryCluster_makeEntry garbage buffer.length attrArchive v.nextFree hlen.le
    (show v.nextFree < 2 ^ 32 by omega)
  obtain ⟨hw, honly⟩ := hv.push hnext hroom hsize hentry
    (head?_makeEntry garbage buffer.length attrArchive v.nextFree hne p.cstring)
    (by rw [hname]; simpa using hnone) hat (hfile.trans_le hsize) (by
      intro hdir
      rw [isDirectory, entryAttributes_makeEntry garbage buffer.length attrArchive v.nextFree
        hlen.le] at hdir
      exact absurd hdir (by decide))
  have hserve : serve v (.write p buffer flags garbage) =
      some (.ok buffer.length, stored v v.nextFree buffer (es.length * entrySize)
        (makeEntry garbage p.name buffer.length attrArchive v.nextFree) (v.nextFree + 1)) := by
    rw [serve]
    unfold exfatWriteFile
    rw [hv.openDirectory_eq p hlen]
    dsimp only
    rw [hidx]
    simp only [hcreate, not_true_eq_false, and_false, if_false, true_or, if_true, true_and]
    rw [exfatAllocateCluster_of_lt hnext]
    rw [hcluster, if_neg (by omega), storeDisk_cluster hnext hsize]
    dsimp only
    rw [storeDisk_root (hentry ▸ slot_le hroom)]
    rfl
  refine ⟨_, _, _, hserve, hw, ?_⟩
  intro _ _
  apply Isolated.of_push hv hw honly rfl hlen hname hnone
  rintro path buffer flags garbage ⟨⟩ size hbuffer
  rw [hw.read, take_of_length_le hlen.le, find?_append, hnone, Option.none_or,
    find?_cons_of_pos (by simpa using hname)]
  dsimp only
  unfold readEntry
  rw [hfile, hat, if_neg (by omega), if_neg (by omega),
    load_stored hnext hv.next_ne_root hsize (hentry ▸ slot_le hroom)]

theorem serve_write_old (garbage : ℕ → UInt8) (hlen : p.name.length < 255)
    (hsize : buffer.length ≤ clusterSize)
    (hidx : es.findIdx? (entryName · = p.name) = some i) (hi : es[i]? = some e)
    (hroom : flags.truncate → v.nextFree < totalClusters) :
    ∃ k n, (k = entryCluster e ∧ n = v.nextFree ∨
        k = v.nextFree ∧ n = v.nextFree + 1 ∧ v.nextFree < totalClusters) ∧
      serve v (.write p buffer flags garbage) = some (.ok buffer.length,
        stored v k buffer 0 (es.modify i (updateEntry · buffer.length k)).flatten n) := by
  have htotal : totalClusters = 4096 := by decide
  have hreserved := hv.reserved
  have he : e ∈ es := mem_of_getElem? hi
  have hbytes : ∀ k, 0 + (es.modify i (updateEntry · buffer.length k)).flatten.length ≤
      clusterSize := by
    intro k
    apply hv.flatten_le ?_ (length_modify ..)
    apply hv.sized_modify
    intro f hf
    exact length_updateEntry (hv.table.sized f hf) buffer.length k
  rw [serve]
  unfold exfatWriteFile
  rw [hv.openDirectory_eq p hlen]
  dsimp only
  rw [hidx]
  by_cases htruncate : flags.truncate
  · have hnext := hroom htruncate
    have hcluster : ((v.nextFree : ℤ) % 2 ^ 32).toNat = v.nextFree := by omega
    refine ⟨v.nextFree, v.nextFree + 1, .inr ⟨rfl, rfl, hnext⟩, ?_⟩
    simp only [htruncate, reduceCtorEq, false_and, if_false, or_true, if_true, true_and]
    rw [exfatAllocateCluster_of_lt hnext]
    rw [hcluster, if_neg (by omega), storeDisk_cluster hnext hsize]
    dsimp only
    rw [storeDisk_start (hbytes v.nextFree)]
    rfl
  · have hget : es.getD i [] = e := by
      rw [getD_eq_getElem?_getD, hi, Option.getD_some]
    refine ⟨entryCluster e, v.nextFree, .inl ⟨rfl, rfl⟩, ?_⟩
    simp only [htruncate, reduceCtorEq, false_and, if_false, or_self, Bool.false_eq_true,
      Option.getD_some]
    rw [hget, storeDisk_cluster (hv.lt_total he) hsize]
    dsimp only
    rw [storeDisk_start (hbytes (entryCluster e))]
    rfl

theorem write_old (garbage : ℕ → UInt8) (hlen : p.name.length < 255)
    (hpos : 0 < buffer.length) (hsize : buffer.length ≤ clusterSize)
    (hidx : es.findIdx? (entryName · = p.name) = some i) (he : e ∈ es)
    (hename : entryName e = p.name) (hi : es[i]? = some e)
    (hfind : es.find? (entryName · = p.name) = some e) (hdir : ¬ isDirectory e)
    (hroom : flags.truncate → v.nextFree < totalClusters) :
    Served v (.write p buffer flags garbage) := by
  have htotal : totalClusters = 4096 := by decide
  have hreserved := hv.reserved
  have hbounded := hv.bounded
  have hused := hv.inUse e he
  have hsized := hv.table.sized e he
  have hbig : buffer.length < 2 ^ 32 := by
    unfold clusterSize at hsize
    omega
  obtain ⟨k, n, hk, hserve⟩ := serve_write_old hv garbage hlen hsize hidx hi hroom
  have hklt : k < totalClusters := by omega
  have hkroot : k ≠ rootDirCluster := by
    unfold rootDirCluster
    omega
  have hname := entryName_updateEntry hsized buffer.length k
  have hfile := entryFileSize_updateEntry hsized buffer.length k hbig
  have hat := entryCluster_updateEntry hsized buffer.length k (show k < 2 ^ 32 by omega)
  have hattr := entryAttributes_updateEntry hsized buffer.length k
  have hown : ∀ f ∈ es, entryCluster f = k → f = e := by
    intro f hf heq
    rcases hk with ⟨rfl, -⟩ | ⟨rfl, -⟩
    · exact hv.cluster_inj hf he heq
    · have := (hv.inUse f hf).2
      omega
  obtain ⟨hw, honly⟩ := hv.modify (g := (updateEntry · buffer.length k)) hi hklt hkroot hsize
    (show v.nextFree ≤ n by omega) (by omega) (length_updateEntry hsized buffer.length k)
    (by rw [head?_updateEntry hsized]; exact hv.table.named e he) (hfile.trans_le hsize)
    (.inl hname) (by omega)
    (by
      intro f hf hfdir heq
      cases hown f hf heq
      exact hdir hfdir)
    (by
      intro hedir
      rw [isDirectory, hattr] at hedir
      exact absurd hedir hdir)
  refine ⟨_, _, _, hserve, hw, ?_⟩
  intro _ _
  apply Isolated.of_only hv hw honly
  · intro m hm
    cases mem_singleton.mp hm
    exact hlen
  · intro name hmem
    have hother : p.name ≠ name := fun h => hmem (mem_singleton.mpr h.symm)
    exact find?_modify hi (by simpa [hename] using hother) (by simpa [hname, hename] using hother)
  · intro f hf hfname heq
    cases hown f hf heq
    exact hfname (mem_singleton.mpr hename)
  · rcases hk with ⟨rfl, -⟩ | ⟨rfl, -⟩
    · exact .inr (.inr (mem_map_of_mem he))
    · exact .inr (.inl hreserved)
  · rintro dir hmem - ⟨f, hf, hfdir⟩
    cases mem_singleton.mp hmem
    rw [hv.lookup_eq, hfind] at hf
    cases hf
    exact absurd hfdir hdir
  · rintro path buffer flags garbage ⟨⟩ size hbuffer
    rw [hw.read, take_of_length_le hlen.le,
      find?_modify_self hidx hi (by simpa [hname] using hename)]
    dsimp only
    unfold readEntry
    rw [hfile, hat, if_neg (by omega), if_neg (by omega), load_stored hklt hkroot hsize]
    exact hv.flatten_le hw.table.sized (length_modify ..)

theorem served_write (hok : RequestOk v (.write p buffer flags garbage)) :
    Served v (.write p buffer flags garbage) := by
  obtain ⟨hne, hlen, hpos, hsize, hfound⟩ := hok
  rw [hv.lookup_eq] at hfound
  cases hidx : es.findIdx? (entryName · = p.name) with
  | none =>
    have hnone : es.find? (entryName · = p.name) = none := by
      simpa using hidx
    rw [hnone, hv.entries_eq] at hfound
    by_cases hcreate : flags.create
    · obtain ⟨hnext, hroom⟩ := hfound hcreate
      exact write_new hv garbage hne hlen hpos hsize hcreate hnext hroom hnone
    · apply served_error hv (e := .notFound)
      rw [serve]
      unfold exfatWriteFile
      rw [hv.openDirectory_eq p hlen]
      dsimp only
      rw [hidx, if_pos ⟨rfl, hcreate⟩]
  | some i =>
    obtain ⟨e, he, hename, hi, hfind⟩ := getElem?_of_findIdx? hidx
    rw [hfind] at hfound
    exact write_old hv garbage hlen hpos hsize hidx he hename hi hfind hfound.1 hfound.2

end

theorem text_eq_root_iff (p : RootPath) : p.text = [slash] ∨ p.text = [] ↔ p.name = [] := by
  unfold RootPath.text
  split_ifs with hlead
  · simp
  · constructor
    · rintro (h | h)
      · exact absurd (h ▸ mem_singleton_self slash) p.plain
      · exact h
    · exact .inr

section

variable {q : RootPath} (hv : Files v es)
include hv

theorem exfatFileExists_eq_false (hlen : p.name.length < 255)
    (h : ¬ exfatFileExists v p.text) : p.name ≠ [] ∧ es.find? (entryName · = p.name) = none := by
  unfold exfatFileExists at h
  split_ifs at h with hroot
  · exact absurd rfl h
  · rw [hv.openDirectory_eq p hlen] at h
    refine ⟨fun hnil => hroot ((text_eq_root_iff p).mpr hnil), ?_⟩
    simpa using h

theorem served_mkdir (hok : RequestOk v (.mkdir p garbage)) : Served v (.mkdir p garbage) := by
  obtain ⟨hlen, hroom⟩ := hok
  rw [hv.lookup_eq, hv.entries_eq] at hroom
  have htotal : totalClusters = 4096 := by decide
  have hreserved := hv.reserved
  by_cases hexists : exfatFileExists v p.text
  · apply served_error hv (e := .exists_)
    rw [serve, exfatMkdir, if_pos hexists]
  obtain ⟨hne, hnone⟩ := exfatFileExists_eq_false hv hlen hexists
  have hroom := hroom hnone
  have hparse : parsePath p.text = .ok ([slash], p.name) := by
    rw [parsePath_root, take_of_length_le hlen.le]
  have hrootcluster : dirCluster v [slash] = some rootDirCluster := if_pos rfl
  by_cases hnext : v.nextFree < totalClusters
  · have hname := entryName_makeEntry garbage 0 attrDirectory v.nextFree hlen.le p.cstring
    have hentry := length_makeEntry garbage 0 attrDirectory v.nextFree hlen.le
    have hat := entryCluster_makeEntry garbage 0 attrDirectory v.nextFree hlen.le
      (show v.nextFree < 2 ^ 32 by omega)
    obtain ⟨hw, honly⟩ := hv.push hnext hroom zeroes_le hentry
      (head?_makeEntry garbage 0 attrDirectory v.nextFree hne p.cstring)
      (by rw [hname]; simpa using hnone) hat
      (by rw [entryFileSize_makeEntry garbage 0 attrDirectory v.nextFree hlen.le (by omega)]; omega)
      (fun _ => rfl)
    have hserve : serve v (.mkdir p garbage) =
        some (.ok 0, stored v v.nextFree (List.replicate clusterSize 0) (es.length * entrySize)
          (makeEntry garbage p.name 0 attrDirectory v.nextFree) (v.nextFree + 1)) := by
      have hlist := (hv.table_store hnext hv.next_ne_root zeroes_le).records_eq (by decide)
      rw [serve, exfatMkdir, if_neg hexists, hparse]
      dsimp only
      rw [hrootcluster, exfatAllocateCluster_of_lt hnext]
      dsimp only
      rw [if_neg (by omega), Int.toNat_natCast, storeDisk_cluster hnext zeroes_le]
      dsimp only [exfatListDirectory, dirCluster]
      rw [if_pos rfl]
      dsimp only [clusterEntries]
      rw [hlist, take_of_length_le, storeDisk_root (hentry ▸ slot_le hroom)]
      · rfl
      · have hle : entriesPerCluster ≤ 20 := by decide
        exact hv.table.short.trans hle
    refine ⟨_, _, _, hserve, hw, ?_⟩
    intro _ _
    apply Isolated.of_push hv hw honly rfl hlen hname hnone
    rintro path buffer flags garbage ⟨⟩
  · apply served_error hv (e := .noSpace)
    rw [serve, exfatMkdir, if_neg hexists, hparse]
    dsimp only
    rw [hrootcluster, exfatAllocateCluster, if_pos (by omega)]
    rfl

/-- The name of a path in the root leads to the cluster of its entry. -/
theorem Files.listDirectory_text (hne : p.name ≠ []) (hlen : p.name.length < 255)
    (hfind : es.find? (entryName · = p.name) = some e) (n : ℕ) :
    exfatListDirectory v p.text n = .ok ((clusterEntries v (entryCluster e)).take n) := by
  have hcluster : dirCluster v p.text = dirCluster v (slash :: p.name) := by
    have htext : ¬ (p.text = [slash] ∨ p.text = []) := by rwa [text_eq_root_iff]
    have hslash : ¬ slash :: p.name = [slash] := by simpa using hne
    have hslash' : ¬ (slash :: p.name = [slash] ∨ slash :: p.name = []) := by simpa using hne
    have hsame : (if p.text.head? = some slash then p.text.tail else p.text) = p.name := by
      unfold RootPath.text
      by_cases hlead : p.lead
      · rw [if_pos hlead]
        rfl
      · rw [if_neg hlead, if_neg]
        intro hhead
        exact p.plain (mem_of_mem_head? hhead)
    unfold dirCluster exfatPathToCluster
    rw [if_neg (fun h => htext (.inl h)), if_neg htext, if_neg hslash, if_neg hslash', hsame]
    rfl
  unfold exfatListDirectory
  rw [hcluster, hv.dirCluster_eq p.plain hne, if_neg (by omega), hfind]
  rfl

theorem Files.read_nested_of_nil {dir name : Text} (hdir : slash ∉ dir)
    (hname : slash ∉ name) (hne : dir ≠ []) (hfind : es.find? (entryName · = dir) = some e)
    (hnil : clusterEntries v (entryCluster e) = []) (size : ℕ) (bytes : List UInt8) :
    exfatReadFile v (nestedPath dir name) size ≠ .ok bytes := by
  unfold exfatReadFile openDirectory exfatListDirectory
  rw [parsePath_nested hname]
  split_ifs with hfull
  · simp
  · dsimp only
    rw [hv.dirCluster_eq hdir hne, if_neg (by omega), hfind]
    dsimp only [Option.map_some]
    rw [hnil]
    simp

theorem served_remove (hlen : p.name.length < 255) : Served v (.remove p) := by
  by_cases hroot : p.text = [slash] ∨ p.text = []
  · apply served_error hv (e := .permission)
    rw [serve, exfatRemove, if_pos hroot]
  have hne : p.name ≠ [] := by rwa [text_eq_root_iff] at hroot
  cases hidx : es.findIdx? (entryName · = p.name) with
  | none =>
    apply served_error hv (e := .notFound)
    rw [serve, exfatRemove, if_neg hroot, hv.openDirectory_eq p hlen]
    dsimp only
    rw [hidx]
  | some i =>
    obtain ⟨e, he, hename, hi, hfind⟩ := getElem?_of_findIdx? hidx
    have hget : es.getD i [] = e := by
      rw [getD_eq_getElem?_getD, hi, Option.getD_some]
    have hlist := hv.listDirectory_text hne hlen hfind 20
    by_cases hfull : isDirectory e ∧ clusterEntries v (entryCluster e) ≠ []
    · apply served_error hv (e := .notEmpty)
      rw [serve, exfatRemove, if_neg hroot, hv.openDirectory_eq p hlen]
      dsimp only
      rw [hidx]
      dsimp only
      rw [hget, hlist, if_pos]
      refine ⟨hfull.1, ?_⟩
      have := length_pos_of_ne_nil hfull.2
      simpa using this
    · obtain ⟨hw, honly⟩ := hv.erase hi
      have hserve : serve v (.remove p) = some (.ok 0, stored v (entryCluster e)
          (List.replicate clusterSize 0) 0
          (es.eraseIdx i ++ [List.replicate entrySize 0]).flatten v.nextFree) := by
        have hused := (hv.inUse e he).1
        have hlt := hv.lt_total he
        rw [serve, exfatRemove, if_neg hroot, hv.openDirectory_eq p hlen]
        dsimp only
        rw [hidx]
        dsimp only
        rw [hget, hlist, if_neg]
        · unfold exfatFreeCluster
          rw [if_neg (by omega), storeDisk_start]
          · rfl
          · exact hv.flatten_le (hv.sized_erase i)
              (length_erase_append (List.getElem?_eq_some_iff.mp hi).1)
        · rintro ⟨hdir, hpos⟩
          apply hfull
          refine ⟨hdir, ?_⟩
          intro hnil
          simp [hnil] at hpos
      refine ⟨_, _, _, hserve, hw, ?_⟩
      intro _ _
      apply Isolated.of_only hv hw honly
      · intro n hn
        cases mem_singleton.mp hn
        exact hlen
      · intro name hmem
        have hother : p.name ≠ name := fun h => hmem (mem_singleton.mpr h.symm)
        exact find?_eraseIdx hi (by simpa [hename] using hother)
      · intro f hf hfname heq
        cases hv.cluster_inj hf he heq
        exact hfname (mem_singleton.mpr hename)
      · exact .inr (.inr (mem_map_of_mem he))
      · rintro dir hmem hslash ⟨f, hf, hdir⟩ - name hname size bytes hread
        cases mem_singleton.mp hmem
        rw [hv.lookup_eq, hfind] at hf
        cases hf
        have hnil : clusterEntries v (entryCluster e) = [] := by
          by_contra hcon
          exact hfull ⟨hdir, hcon⟩
        exact hv.read_nested_of_nil hslash hname hne hfind hnil size bytes hread
      · rintro path buffer flags garbage ⟨⟩

section

variable (hp : p.name.length < 255) (hq : q.name.length < 255)
include hp hq

theorem serve_rename (hroot : ¬ (p.text = [slash] ∨ p.text = []))
    (hexists : ¬ exfatFileExists v q.text) :
    serve v (.rename p q) =
      match es.findIdx? (entryName · = p.name) with
      | none => some (.error .notFound, v)
      | some i =>
        some (.ok 0, stored v 0 [] 0 (es.modify i (renameEntry · q.name)).flatten v.nextFree) := by
  rw [serve, exfatRename, if_neg hroot, if_neg hexists, parsePath_root, parsePath_root,
    take_of_length_le hp.le, take_of_length_le hq.le]
  dsimp only [exfatListDirectory, dirCluster]
  rw [if_neg (by simp), if_pos rfl]
  dsimp only
  rw [hv.take_eq]
  cases es.findIdx? (entryName · = p.name) with
  | none => rfl
  | some i =>
    dsimp only
    rw [storeDisk_start, stored_nil]
    · rfl
    · apply hv.flatten_le ?_ (length_modify ..)
      apply hv.sized_modify
      intro f hf
      exact length_renameEntry (hv.table.sized f hf) hq.le

theorem served_rename : Served v (.rename p q) := by
  by_cases hroot : p.text = [slash] ∨ p.text = []
  · apply served_error hv (e := .permission)
    rw [serve, exfatRename, if_pos hroot]
  by_cases hexists : exfatFileExists v q.text
  · apply served_error hv (e := .exists_)
    rw [serve, exfatRename, if_neg hroot, if_pos hexists]
  obtain ⟨hne, hnone⟩ := exfatFileExists_eq_false hv hq hexists
  have hserve := serve_rename hv hp hq hroot hexists
  cases hidx : es.findIdx? (entryName · = p.name) with
  | none =>
    rw [hidx] at hserve
    exact served_error hv hserve
  | some i =>
    obtain ⟨e, he, hename, hi, hfind⟩ := getElem?_of_findIdx? hidx
    have hsized := hv.table.sized e he
    have hname := entryName_renameEntry (e := e) hq.le q.cstring
    have hat := entryCluster_renameEntry hsized hq.le
    have hattr := entryAttributes_renameEntry hsized hq.le
    have hused : ∀ f ∈ es, entryCluster f ≠ 0 := by
      intro f hf
      have := (hv.inUse f hf).1
      omega
    have hempty : ([] : List UInt8).length ≤ clusterSize := Nat.zero_le _
    obtain ⟨hw, honly⟩ := hv.modify (g := (renameEntry · q.name)) (k := 0) hi (by decide)
      (by decide) hempty le_rfl hv.bounded (length_renameEntry hsized hq.le)
      (head?_renameEntry hne q.cstring)
      (by rw [entryFileSize_renameEntry hsized hq.le]; exact hv.small e he)
      (.inr (by rw [hname]; simpa using hnone)) (.inl hat) (fun f hf _ => hused f hf)
      (by
        intro hdir
        rw [isDirectory, hattr] at hdir
        exact ⟨hdir, hat⟩)
    rw [hidx] at hserve
    refine ⟨_, _, _, hserve, hw, ?_⟩
    intro _ _
    apply Isolated.of_only hv hw honly
    · intro n hn
      rcases mem_pair.mp hn with rfl | rfl
      · exact hp
      · exact hq
    · intro name hmem
      have hold : p.name ≠ name := fun h => hmem (mem_pair.mpr (.inl h.symm))
      have hnew : q.name ≠ name := fun h => hmem (mem_pair.mpr (.inr h.symm))
      exact find?_modify hi (by simpa [hename] using hold) (by simpa [hname] using hnew)
    · intro f hf _
      exact hused f hf
    · exact .inl (by decide)
    · rintro dir hmem - ⟨f, hf, -⟩ hmoves
      rcases mem_pair.mp hmem with rfl | rfl
      · exact absurd rfl hmoves
      · rw [hv.lookup_eq, hnone] at hf
        cases hf
    · rintro path buffer flags garbage ⟨⟩

end

theorem served_of_ok (hok : RequestOk v request) : Served v request := by
  cases request with
  | write p buffer flags garbage => exact served_write hv hok
  | mkdir p garbage => exact served_mkdir hv hok
  | remove p => exact served_remove hv hok
  | rename p q => exact served_rename hv hok.1 hok.2

end

end

end UintOS.Exfat
