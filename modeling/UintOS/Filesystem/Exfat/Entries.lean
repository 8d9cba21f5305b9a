import UintOS.Filesystem.Exfat.Model

/-!
# The layout of directory entries

What the fields of an entry are after it has been made, updated or renamed.
-/

namespace UintOS.Exfat

open ByteImage List
open Vfs (Text slash)

/-! ## Fields -/

section

variable {e : Entry} {offset : ℕ} {bytes : List UInt8}

section

variable (h : offset + bytes.length ≤ e.length)
include h

theorem length_setField : (setField e offset bytes).length = e.length := by
  simp [setField]
  omega

theorem field_before {o n : ℕ} (ho : o + n ≤ offset) :
    ((setField e offset bytes).drop o).take n = (e.drop o).take n := by
  unfold setField
  rw [append_assoc, drop_append_of_le_length (by simp; omega),
    take_append_of_le_length (by simp; omega), drop_take, take_take]
  congr 1
  omega

theorem field_after {o n : ℕ} (ho : offset + bytes.length ≤ o) :
    ((setField e offset bytes).drop o).take n = (e.drop o).take n := by
  have hlen : (e.take offset ++ bytes).length = offset + bytes.length := by
    simp
    omega
  unfold setField
  rw [drop_append, drop_eq_nil_of_le (by omega), nil_append, hlen, drop_drop]
  congr 2
  omega

end

theorem field_self (e : Entry) (offset : ℕ) (bytes : List UInt8)
    (h : offset + bytes.length ≤ e.length) :
    ((setField e offset bytes).drop offset).take bytes.length = bytes := by
  have hlen : (e.take offset).length = offset := by
    simp
    omega
  unfold setField
  rw [append_assoc, drop_append, drop_eq_nil_of_le (by omega), hlen, Nat.sub_self,
    nil_append, drop_zero, take_left]

end

theorem entryAttributes_eq (e : Entry) : entryAttributes e = ((e.drop 260).take 1).getD 0 0 := by
  simp [entryAttributes]

theorem entryName_eq (e : Entry) : entryName e = ((e.drop 0).take 256).takeWhile (· ≠ 0) := rfl

theorem takeWhile_name {name rest : List UInt8} (hzero : 0 ∉ name) :
    (name ++ 0 :: rest).takeWhile (· ≠ 0) = name := by
  rw [takeWhile_append_of_pos]
  · simp
  · intro c hc
    have hne : c ≠ 0 := by
      rintro rfl
      exact hzero hc
    simpa using hne

theorem entryName_ne_nil {e : Entry} (hlen : e.length = entrySize) (h : e.head? ≠ some 0) :
    entryName e ≠ [] := by
  unfold entrySize at hlen
  match e with
  | [] => simp at hlen
  | c :: e =>
    have hc : c ≠ 0 := by simpa using h
    simp [entryName, hc]

/-! ## A new entry -/

section

variable (garbage : ℕ → UInt8) {name : Text} (size : ℕ) (attributes : UInt8) (cluster : ℕ)

def nameField (name : Text) : List UInt8 :=
  name ++ 0 :: ((List.range 256).map garbage).drop (name.length + 1)

theorem length_nameField (hlen : name.length ≤ 255) : (nameField garbage name).length = 256 := by
  simp [nameField]
  omega

theorem length_makeEntry (hlen : name.length ≤ 255) :
    (makeEntry garbage name size attributes cluster).length = entrySize := by
  have hname := length_nameField garbage hlen
  unfold nameField at hname
  unfold makeEntry entrySize
  simp only [length_append, hname, length_toBytes, length_cons, length_nil]

theorem head?_makeEntry (hne : name ≠ []) (hzero : 0 ∉ name) :
    (makeEntry garbage name size attributes cluster).head? ≠ some 0 := by
  obtain ⟨c, name, rfl⟩ := exists_cons_of_ne_nil hne
  have hc : c ≠ 0 := by
    rintro rfl
    simp at hzero
  simpa [makeEntry] using hc

theorem makeEntry_eq : makeEntry garbage name size attributes cluster =
      nameField garbage name ++ (toBytes 4 size ++ ([attributes] ++
        ([garbage 261, garbage 262, garbage 263] ++ (toBytes 4 cluster ++
          (toBytes 2 0x5345 ++ toBytes 2 0x6123 ++ toBytes 2 0x5345 ++ toBytes 2 0x6123 ++
            toBytes 2 0x5345 ++ [garbage 278, garbage 279]))))) := by
  simp [makeEntry, nameField]

section

variable (hlen : name.length ≤ 255)
include hlen

theorem entryName_makeEntry (hzero : 0 ∉ name) :
    entryName (makeEntry garbage name size attributes cluster) = name := by
  unfold entryName
  rw [makeEntry_eq, take_left' (length_nameField garbage hlen)]
  exact takeWhile_name hzero

theorem entryFileSize_makeEntry (hsize : size < 2 ^ 32) :
    entryFileSize (makeEntry garbage name size attributes cluster) = size := by
  unfold entryFileSize
  rw [makeEntry_eq, drop_left' (length_nameField garbage hlen), take_left' (length_toBytes 4 size)]
  exact ofBytes_toBytes (by simpa using hsize)

theorem drop_makeEntry : (makeEntry garbage name size attributes cluster).drop 260 = [attributes] ++
      ([garbage 261, garbage 262, garbage 263] ++ (toBytes 4 cluster ++
        (toBytes 2 0x5345 ++ toBytes 2 0x6123 ++ toBytes 2 0x5345 ++ toBytes 2 0x6123 ++
          toBytes 2 0x5345 ++ [garbage 278, garbage 279]))) := by
  rw [makeEntry_eq, ← append_assoc]
  apply drop_left'
  rw [length_append, length_nameField garbage hlen, length_toBytes]

theorem entryAttributes_makeEntry :
    entryAttributes (makeEntry garbage name size attributes cluster) = attributes := by
  rw [entryAttributes_eq, drop_makeEntry garbage size attributes cluster hlen]
  rfl

theorem entryCluster_makeEntry (hcluster : cluster < 2 ^ 32) :
    entryCluster (makeEntry garbage name size attributes cluster) = cluster := by
  have hdrop : (makeEntry garbage name size attributes cluster).drop 264 =
      ((makeEntry garbage name size attributes cluster).drop 260).drop 4 := by
    rw [drop_drop]
  unfold entryCluster
  rw [hdrop, drop_makeEntry garbage size attributes cluster hlen]
  change ofBytes ((toBytes 4 cluster ++ _).take 4) = cluster
  rw [take_left' (length_toBytes 4 cluster)]
  exact ofBytes_toBytes (by simpa using hcluster)

end

end

/-! ## An entry that is updated -/

section

variable {e : Entry} (hlen : e.length = entrySize) (size cluster : ℕ)

include hlen

theorem length_updated : (setField e 256 (toBytes 4 size)).length = 280 ∧
      (setField (setField e 256 (toBytes 4 size)) 264 (toBytes 4 cluster)).length = 280 := by
  unfold entrySize at hlen
  have hsize : (setField e 256 (toBytes 4 size)).length = 280 := by
    rw [length_setField (by simp [hlen]), hlen]
  refine ⟨hsize, ?_⟩
  rw [length_setField (by simp [hsize]), hsize]

theorem field_updateEntry {o n : ℕ} (h : o + n ≤ 256 ∨ 260 ≤ o ∧ o + n ≤ 264) :
    ((updateEntry e size cluster).drop o).take n = (e.drop o).take n := by
  unfold entrySize at hlen
  obtain ⟨h1, h2⟩ := length_updated hlen size cluster
  unfold updateEntry
  rw [field_before (by simp [h2]) (by omega), field_before (by simp [h1]) (by omega)]
  rcases h with h | h
  · exact field_before (by simp [hlen]) (by omega)
  · exact field_after (by simp [hlen]) (by simp; omega)

theorem length_updateEntry : (updateEntry e size cluster).length = entrySize := by
  unfold entrySize at *
  obtain ⟨h1, h2⟩ := length_updated hlen size cluster
  unfold updateEntry
  rw [length_setField (by simp [h2]), h2]

theorem entryName_updateEntry : entryName (updateEntry e size cluster) = entryName e := by
  rw [entryName_eq, entryName_eq, field_updateEntry hlen size cluster (by omega)]

theorem head?_updateEntry : (updateEntry e size cluster).head? = e.head? := by
  have hfirst := field_updateEntry hlen size cluster (o := 0) (n := 1) (by omega)
  have hhead := congrArg List.head? hfirst
  simpa [head?_take] using hhead

theorem entryAttributes_updateEntry :
    entryAttributes (updateEntry e size cluster) = entryAttributes e := by
  rw [entryAttributes_eq, entryAttributes_eq, field_updateEntry hlen size cluster (by omega)]

theorem entryFileSize_updateEntry (hsize : size < 2 ^ 32) :
    entryFileSize (updateEntry e size cluster) = size := by
  unfold entrySize at hlen
  obtain ⟨h1, h2⟩ := length_updated hlen size cluster
  have hself := field_self e 256 (toBytes 4 size) (by simp [hlen])
  unfold entryFileSize updateEntry
  rw [field_before (by simp [h2]) (by omega), field_before (by simp [h1]) (by omega)]
  rw [length_toBytes] at hself
  rw [hself]
  exact ofBytes_toBytes (by simpa using hsize)

theorem entryCluster_updateEntry (hcluster : cluster < 2 ^ 32) :
    entryCluster (updateEntry e size cluster) = cluster := by
  obtain ⟨h1, h2⟩ := length_updated hlen size cluster
  have hself := field_self (setField e 256 (toBytes 4 size)) 264 (toBytes 4 cluster) (by simp [h1])
  unfold entryCluster updateEntry
  rw [field_before (by simp [h2]) (by omega)]
  rw [length_toBytes] at hself
  rw [hself]
  exact ofBytes_toBytes (by simpa using hcluster)

end

/-! ## An entry that is renamed -/

section

variable {e : Entry} (hlen : e.length = entrySize) {name : Text} (hname : name.length ≤ 255)

include hlen hname

theorem length_renameEntry : (renameEntry e name).length = entrySize := by
  unfold entrySize at *
  unfold renameEntry
  rw [length_setField (by simp; omega), hlen]

theorem field_renameEntry {o n : ℕ} (h : 256 ≤ o) :
    ((renameEntry e name).drop o).take n = (e.drop o).take n := by
  unfold entrySize at hlen
  exact field_after (by simp; omega) (by simp; omega)

omit hlen in
theorem entryName_renameEntry (hzero : 0 ∉ name) : entryName (renameEntry e name) = name := by
  unfold entryName renameEntry setField
  rw [take_zero, nil_append, append_assoc, singleton_append,
    take_append, take_of_length_le (by omega)]
  have hpos : ∃ m, 256 - name.length = m + 1 := ⟨255 - name.length, by omega⟩
  obtain ⟨m, hm⟩ := hpos
  rw [hm, take_succ_cons]
  exact takeWhile_name hzero

theorem entryFileSize_renameEntry : entryFileSize (renameEntry e name) = entryFileSize e := by
  unfold entryFileSize
  rw [field_renameEntry hlen hname (by omega)]

theorem entryCluster_renameEntry : entryCluster (renameEntry e name) = entryCluster e := by
  unfold entryCluster
  rw [field_renameEntry hlen hname (by omega)]

theorem entryAttributes_renameEntry : entryAttributes (renameEntry e name) = entryAttributes e := by
  rw [entryAttributes_eq, entryAttributes_eq, field_renameEntry hlen hname (by omega)]

omit hlen hname in
theorem head?_renameEntry (hne : name ≠ []) (hzero : 0 ∉ name) :
    (renameEntry e name).head? ≠ some 0 := by
  obtain ⟨c, name, rfl⟩ := exists_cons_of_ne_nil hne
  have hc : c ≠ 0 := by
    rintro rfl
    simp at hzero
  simpa [renameEntry, setField] using hc

end

end UintOS.Exfat
