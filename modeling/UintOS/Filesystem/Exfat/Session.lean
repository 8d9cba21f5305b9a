import UintOS.Filesystem.Exfat.Calls

/-!
# Runs of calls

From the disk of `exfat_init` on, every call of a run whose calls meet the condition is
isolated.
-/

namespace UintOS.Exfat

open ByteImage List Runs
open Vfs (Text slash)

/-! ## The first disk -/

section

variable (garbage : ℕ → ℕ → UInt8)

theorem rootEntries_sized : ∀ e ∈ rootEntries garbage, e.length = entrySize := by
  simp only [rootEntries, forall_mem_cons, not_mem_nil, false_imp_iff, implies_true, and_true]
  exact ⟨length_makeEntry _ _ _ _ (by decide), length_makeEntry _ _ _ _ (by decide),
    length_makeEntry _ _ _ _ (by decide)⟩

theorem rootEntries_named : ∀ e ∈ rootEntries garbage, e.head? ≠ some 0 := by
  simp only [rootEntries, forall_mem_cons, not_mem_nil, false_imp_iff, implies_true, and_true]
  exact ⟨head?_makeEntry _ _ _ _ (by decide) (by decide),
    head?_makeEntry _ _ _ _ (by decide) (by decide),
    head?_makeEntry _ _ _ _ (by decide) (by decide)⟩

theorem map_entryName_rootEntries :
    (rootEntries garbage).map entryName = [readmeName, systemName, logsName] := by
  simp only [rootEntries, map_cons, map_nil]
  rw [entryName_makeEntry _ _ _ _ (by decide) (by decide),
    entryName_makeEntry _ _ _ _ (by decide) (by decide),
    entryName_makeEntry _ _ _ _ (by decide) (by decide)]

theorem map_entryCluster_rootEntries : (rootEntries garbage).map entryCluster = [3, 4, 5] := by
  simp only [rootEntries, map_cons, map_nil]
  rw [entryCluster_makeEntry _ _ _ _ (by decide) (by decide),
    entryCluster_makeEntry _ _ _ _ (by decide) (by decide),
    entryCluster_makeEntry _ _ _ _ (by decide) (by decide)]

theorem map_entryFileSize_rootEntries : (rootEntries garbage).map entryFileSize = [37, 0, 0] := by
  simp only [rootEntries, map_cons, map_nil]
  rw [entryFileSize_makeEntry _ _ _ _ (by decide) (by decide),
    entryFileSize_makeEntry _ _ _ _ (by decide) (by decide),
    entryFileSize_makeEntry _ _ _ _ (by decide) (by decide)]

theorem length_rootEntries : (rootEntries garbage).length = 3 := rfl

def configEntry : Entry := makeEntry (garbage 3) configName 15 attrArchive 6

def logEntry : Entry := makeEntry (garbage 4) logName 22 attrArchive 7

theorem exfatInit_image (a : ℕ) : (8192 ≤ a → a < 12288 → (exfatInit garbage).image a =
      store (fun _ => 0) (address rootDirCluster) (rootEntries garbage).flatten a) ∧
    (16384 ≤ a → a < 20480 → (exfatInit garbage).image a =
      store (fun _ => 0) (address 4) [configEntry garbage].flatten a) ∧
    (20480 ≤ a → a < 24576 → (exfatInit garbage).image a =
      store (fun _ => 0) (address 5) [logEntry garbage].flatten a) := by
  have h2 : address rootDirCluster = 8192 := by decide
  have h3 : address 3 = 12288 := by decide
  have h4 : address 4 = 16384 := by decide
  have h5 : address 5 = 20480 := by decide
  have h6 : address 6 = 24576 := by decide
  have h7 : address 7 = 28672 := by decide
  have hsize : entrySize = 280 := rfl
  have hroot : (rootEntries garbage).flatten.length = 3 * entrySize := by
    rw [length_flatten_of_sized (rootEntries_sized garbage), length_rootEntries]
  have hconfig : (configEntry garbage).length = entrySize := length_makeEntry _ _ _ _ (by decide)
  have hlog : (logEntry garbage).length = entrySize := length_makeEntry _ _ _ _ (by decide)
  have hreadme : readmeContent.length = 34 := by decide
  have hconfig' : configContent.length = 15 := by decide
  have hlog' : logContent.length = 23 := by decide
  unfold exfatInit
  dsimp only
  rw [flatten_singleton, flatten_singleton, ← configEntry, ← logEntry]
  refine ⟨?_, ?_, ?_⟩
  · intro _ _
    rw [store_outside (by omega), store_outside (by omega), store_outside (by omega),
      store_outside (by omega)]
    exact store_congr _ _ (store_outside (by omega))
  · intro _ _
    rw [store_outside (by omega), store_outside (by omega), store_outside (by omega)]
    apply store_congr
    rw [store_outside (by omega), store_outside (by omega)]
  · intro _ _
    rw [store_outside (by omega)]
    apply store_congr
    rw [store_outside (by omega), store_outside (by omega), store_outside (by omega),
      store_outside (by omega)]

theorem exfatInit_table :
    Table (exfatInit garbage).image (address rootDirCluster) entrySize entriesPerCluster
      (rootEntries garbage) := by
  have hroot : address rootDirCluster = 8192 := by decide
  have hcap : entriesPerCluster * entrySize = 3920 := by decide
  have hshort : (rootEntries garbage).length ≤ entriesPerCluster := by
    rw [length_rootEntries]
    decide
  apply (Table.init (fun _ => 0) (fun _ _ => rfl) hshort (rootEntries_sized garbage)
    (rootEntries_named garbage)).congr ?_ (by decide)
  intro a ha ha'
  exact (exfatInit_image garbage a).1 (by omega) (by omega)

theorem clusterEntries_singleton {v : Volume} {c : ℕ} (hc : c < totalClusters) {e : Entry}
    (hlen : e.length = entrySize) (hhead : e.head? ≠ some 0)
    (himage : ∀ a, c * clusterSize ≤ a → a < (c + 1) * clusterSize →
      v.image a = store (fun _ => 0) (address c) [e].flatten a) :
    clusterEntries v c = [e] := by
  have htable : Table v.image (address c) entrySize entriesPerCluster [e] := by
    have hshort : [e].length ≤ entriesPerCluster := by
      rw [length_singleton]
      decide
    apply (Table.init (fun _ => 0) (fun _ _ => rfl) hshort (by simpa using hlen)
      (by simpa using hhead)).congr ?_ (by decide)
    intro a ha ha'
    rw [address_of_lt hc] at ha ha'
    have := entriesPerCluster_mul_le
    exact himage a ha (by rw [Nat.succ_mul]; omega)
  exact htable.records_eq (by decide)

theorem exfatInit_files : Files (exfatInit garbage) (rootEntries garbage) := by
  have hclusters := map_entryCluster_rootEntries garbage
  have hsystem : clusterEntries (exfatInit garbage) 4 = [configEntry garbage] := by
    apply clusterEntries_singleton (by decide) (length_makeEntry _ _ _ _ (by decide))
      (head?_makeEntry _ _ _ _ (by decide) (by decide))
    exact fun a => (exfatInit_image garbage a).2.1
  have hlogs : clusterEntries (exfatInit garbage) 5 = [logEntry garbage] := by
    apply clusterEntries_singleton (by decide) (length_makeEntry _ _ _ _ (by decide))
      (head?_makeEntry _ _ _ _ (by decide) (by decide))
    exact fun a => (exfatInit_image garbage a).2.2
  have hmem : ∀ e ∈ rootEntries garbage, entryCluster e ∈ [3, 4, 5] := by
    intro e he
    rw [← hclusters]
    exact mem_map_of_mem he
  have hnext : (exfatInit garbage).nextFree = 8 := rfl
  refine ⟨exfatInit_table garbage, ?_, ?_, ?_, ?_, ?_, hnext.ge, by rw [hnext]; decide⟩
  · rw [map_entryName_rootEntries]
    decide
  · rw [hclusters]
    decide
  · intro e he
    have hcluster := hmem e he
    simp only [mem_cons, not_mem_nil, or_false] at hcluster
    omega
  · intro e he
    have hsize := mem_map_of_mem (f := entryFileSize) he
    rw [map_entryFileSize_rootEntries] at hsize
    have hcluster : clusterSize = 4096 := rfl
    simp only [mem_cons, not_mem_nil, or_false] at hsize
    omega
  · intro e he hdir f hf
    rw [hclusters]
    simp only [rootEntries, mem_cons, not_mem_nil, or_false] at he
    rcases he with rfl | rfl | rfl
    · rw [isDirectory, entryAttributes_makeEntry _ _ _ _ (by decide)] at hdir
      exact absurd hdir (by decide)
    · rw [entryCluster_makeEntry _ _ _ _ (by decide) (by decide), hsystem] at hf
      cases mem_singleton.mp hf
      rw [configEntry, entryCluster_makeEntry _ _ _ _ (by decide) (by decide),
        entryFileSize_makeEntry _ _ _ _ (by decide) (by decide)]
      decide
    · rw [entryCluster_makeEntry _ _ _ _ (by decide) (by decide), hlogs] at hf
      cases mem_singleton.mp hf
      rw [logEntry, entryCluster_makeEntry _ _ _ _ (by decide) (by decide),
        entryFileSize_makeEntry _ _ _ _ (by decide) (by decide)]
      decide

end

/-! ## Runs -/

/-- The disk, and the last call: the disk before, and its result. -/
structure Session where
  volume : Volume
  last : Option (Volume × Request × Except Error ℕ)

def Session.init (garbage : ℕ → ℕ → UInt8) : Session := ⟨exfatInit garbage, none⟩

def Session.step (s : Session) (request : Request) : Option Session :=
  (serve s.volume request).map fun (result, w) => ⟨w, some (s.volume, request, result)⟩

def Session.LastIsolated (s : Session) : Prop :=
  ∀ before request n, s.last = some (before, request, .ok n) → Isolated before request s.volume

theorem step_of_ok {s : Session} (hs : ∃ es, Files s.volume es) {request : Request}
    (hok : RequestOk s.volume request) :
    ∃ t, s.step request = some t ∧ (∃ es, Files t.volume es) ∧ t.LastIsolated := by
  obtain ⟨es, hes⟩ := hs
  obtain ⟨result, w, es', hserve, hw, hisolated⟩ := served_of_ok hes hok
  refine ⟨⟨w, some (s.volume, request, result)⟩, ?_, ⟨es', hw⟩, ?_⟩
  · rw [Session.step, hserve]
    rfl
  · rintro before request n ⟨⟩
    exact hisolated n rfl

/-- From `exfat_init` on, calls with names that are neither empty nor too long, that write between
one byte and a cluster to what is no directory, and for which the root and the disk have room, all
return, and those that succeed change only what they name. -/
theorem calls_keep_files_apart (garbage : ℕ → ℕ → UInt8) (requests : List Request)
    (h : Meets Session.step (fun s request => RequestOk s.volume request) (Session.init garbage)
      requests) :
    (exec Session.step (Session.init garbage) requests).isSome ∧
      Throughout Session.step Session.LastIsolated (Session.init garbage) requests := by
  have hinit : (∃ es, Files (Session.init garbage).volume es) ∧
      (Session.init garbage).LastIsolated :=
    ⟨⟨rootEntries garbage, exfatInit_files garbage⟩, by rintro _ _ _ ⟨⟩⟩
  obtain ⟨hsome, hrun⟩ := completes_of_meets Session.step
    (I := fun s => (∃ es, Files s.volume es) ∧ s.LastIsolated)
    (fun _ _ hs hok => step_of_ok hs.1 hok) hinit h
  exact ⟨hsome, hrun.imp Session.step fun _ ht => ht.2⟩

def inRoot (name : Text) (plain : slash ∉ name) (cstring : 0 ∉ name) : RootPath :=
  ⟨true, name, plain, cstring⟩

/-- A file `/A` is made, it is renamed to `/B`, and `/README.TXT` is removed. -/
def threeCalls : List Request :=
  [.write (inRoot [65] (by decide) (by decide)) [1, 2] ⟨true, false⟩ fun _ => 0,
    .rename (inRoot [65] (by decide) (by decide)) (inRoot [66] (by decide) (by decide)),
    .remove (inRoot readmeName (by decide) (by decide))]

theorem three_calls_keep_files_apart :
    (exec Session.step (Session.init fun _ _ => 0) threeCalls).isSome ∧
      Throughout Session.step Session.LastIsolated (Session.init fun _ _ => 0) threeCalls := by
  have hnone : lookup (Session.init fun _ _ => 0).volume [65] = none := by decide +kernel
  have hroom : (clusterEntries (Session.init fun _ _ => 0).volume rootDirCluster).length <
      entriesPerCluster := by decide +kernel
  apply calls_keep_files_apart
  refine ⟨⟨by decide, by decide, by decide, by decide, ?_⟩, ?_⟩
  · rw [inRoot, hnone]
    exact fun _ => ⟨by decide, hroom⟩
  · intro _ _
    refine ⟨⟨by decide, by decide⟩, ?_⟩
    intro _ _
    refine ⟨?_, fun _ _ => trivial⟩
    exact (by decide : readmeName.length < 255)

def largeWrite : Request :=
  .write (inRoot readmeName (by decide) (by decide)) (List.replicate 4097 0) ⟨false, false⟩
    fun _ => 0

/-- `/README.TXT` is in cluster 3 and `/SYSTEM` in cluster 4, so that the large write to the first
empties the second. -/
theorem large_write_empties_directory :
    ∃ s, exec Session.step (Session.init fun _ _ => 0) [largeWrite] = some s ∧
      ¬ s.LastIsolated := by
  have hafter : ((serve (exfatInit fun _ _ => 0) largeWrite).map fun x => (x.1.toOption,
      (exfatListDirectory x.2 (slash :: systemName) 20).toOption.map List.length)) =
      some (some 4097, some 0) := by decide +kernel
  have hbef : (exfatListDirectory (exfatInit fun _ _ => 0) (slash :: systemName) 20).toOption.map
      List.length = some 1 := by decide +kernel
  have hdir : IsDir (exfatInit fun _ _ => 0) systemName := by
    have hfound : (lookup (exfatInit fun _ _ => 0) systemName).map isDirectory = some true := by
      decide +kernel
    obtain ⟨e, he, hedir⟩ := Option.map_eq_some_iff.mp hfound
    exact ⟨e, he, hedir⟩
  obtain ⟨⟨result, w⟩, hserve, hres⟩ := Option.map_eq_some_iff.mp hafter
  obtain ⟨hok, hlist⟩ := Prod.mk.inj hres
  dsimp only at hok hlist
  obtain rfl : result = .ok 4097 := by
    cases result with
    | error e => cases hok
    | ok n => exact congrArg Except.ok (Option.some.inj hok)
  refine ⟨⟨w, some (exfatInit fun _ _ => 0, largeWrite, .ok 4097)⟩, ?_, ?_⟩
  · rw [exec_cons, Session.step, Session.init, hserve]
    rfl
  · intro hisolated
    have hsame := (hisolated _ _ _ rfl).listing systemName (by decide) (by decide) hdir 20
    dsimp only at hsame
    rw [hsame, hbef] at hlist
    exact absurd hlist (by decide)

end UintOS.Exfat
