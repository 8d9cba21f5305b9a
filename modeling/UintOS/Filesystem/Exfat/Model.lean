import UintOS.Filesystem.Vfs.Model
import UintOS.Library.ByteImage

/-!
# The exFAT driver

A model of `exfat.c`. The disk is the byte array `disk_image`, a directory a table of
`exfat_file_entry_t`, each of 280 bytes, in one cluster. The bytes of an entry that a call leaves
uninitialised are given with the call, and a store behind the end of the disk gives `none`. Left out
are the checks on NULL and on `exfat_initialized`, the log and the counter of free clusters.
-/

namespace UintOS.Exfat

open ByteImage
open Vfs (Text slash)

def clusterSize : ℕ := 4096

def diskSize : ℕ := 16 * 1024 * 1024

def totalClusters : ℕ := diskSize / clusterSize

def rootDirCluster : ℕ := 2

/-- `sizeof(exfat_file_entry_t)`. -/
def entrySize : ℕ := 280

def entriesPerCluster : ℕ := clusterSize / entrySize

structure Volume where
  image : Image
  nextFree : ℕ

inductive Error
  | notFound
  | exists_
  | noSpace
  | invalidArg
  | permission
  | notDir
  | notFile
  | notEmpty
  | unsupported
deriving DecidableEq, Repr

/-- Where a cluster begins; the product is a `uint32_t`. -/
def address (cluster : ℕ) : ℕ := cluster * clusterSize % 2 ^ 32

/-! ## Directory entries -/

/-- The bytes of an `exfat_file_entry_t`: the name, the size at 256, the attributes at 260,
the first cluster at 264, and dates and times from 268 on. -/
abbrev Entry := List UInt8

def entryName (e : Entry) : Text := (e.take 256).takeWhile (· ≠ 0)

def entryFileSize (e : Entry) : ℕ := ofBytes ((e.drop 256).take 4)

def entryAttributes (e : Entry) : UInt8 := e.getD 260 0

def entryCluster (e : Entry) : ℕ := ofBytes ((e.drop 264).take 4)

def attrDirectory : UInt8 := 0x10

def attrArchive : UInt8 := 0x20

def isDirectory (e : Entry) : Bool := entryAttributes e &&& attrDirectory ≠ 0

/-- A new entry; `garbage` are the bytes of the structure before. -/
def makeEntry (garbage : ℕ → UInt8) (name : Text) (size : ℕ) (attributes : UInt8)
    (cluster : ℕ) : Entry :=
  (name ++ 0 :: ((List.range 256).map garbage).drop (name.length + 1)) ++ toBytes 4 size ++
    [attributes, garbage 261, garbage 262, garbage 263] ++ toBytes 4 cluster ++
    toBytes 2 0x5345 ++ toBytes 2 0x6123 ++ toBytes 2 0x5345 ++ toBytes 2 0x6123 ++
    toBytes 2 0x5345 ++ [garbage 278, garbage 279]

def setField (e : Entry) (offset : ℕ) (bytes : List UInt8) : Entry :=
  e.take offset ++ bytes ++ e.drop (offset + bytes.length)

def updateEntry (e : Entry) (size cluster : ℕ) : Entry :=
  setField (setField (setField e 256 (toBytes 4 size)) 264 (toBytes 4 cluster)) 272
    (toBytes 2 0x5345 ++ toBytes 2 0x6123)

/-- `strcpy` to the name of an entry. -/
def renameEntry (e : Entry) (name : Text) : Entry := setField e 0 (name ++ [0])

/-! ## Paths and directories -/

variable (v : Volume)

def clusterEntries (cluster : ℕ) : List Entry :=
  records v.image entrySize entriesPerCluster (address cluster)

variable (path : Text)

def parsePath : Except Error (Text × Text) :=
  let filename := (path.reverse.takeWhile (· ≠ slash)).reverse.take 255
  match path.reverse.dropWhile (· ≠ slash) with
  | [] => .ok ([slash], filename)
  | _ :: dirPath =>
    if 255 ≤ dirPath.length then .error .invalidArg
    else .ok (if dirPath = [] then [slash] else dirPath.reverse, filename)

/-- The loop of `exfat_path_to_cluster`; every component is looked up in the root. -/
def walk (v : Volume) : (currentCluster : ℕ) → (component path : Text) → Except Error ℕ
  | currentCluster, component, [] =>
    if component = [] then .ok currentCluster
    else
      match (clusterEntries v rootDirCluster).find? (entryName · = component) with
      | none => .error .notFound
      | some e => .ok (entryCluster e)
  | currentCluster, component, c :: path =>
    if c = slash then
      match (clusterEntries v rootDirCluster).find? (entryName · = component) with
      | none => .error .notFound
      | some e => if isDirectory e then walk v (entryCluster e) [] path else .error .notDir
    else if 255 ≤ component.length + 1 then .error .invalidArg
    else walk v currentCluster (component ++ [c]) path

def exfatPathToCluster : Except Error ℕ :=
  if path = [slash] ∨ path = [] then .ok rootDirCluster
  else walk v rootDirCluster [] (if path.head? = some slash then path.tail else path)

/-- The `dir_cluster` of a call; `none` if it is not positive as an `int`. -/
def dirCluster : Option ℕ :=
  if path = [slash] then some rootDirCluster
  else
    match exfatPathToCluster v path with
    | .error _ => none
    | .ok cluster => if 0 < cluster ∧ cluster < 2 ^ 31 then some cluster else none

def exfatListDirectory (maxEntries : ℕ) : Except Error (List Entry) :=
  match dirCluster v path with
  | none => .error .notFound
  | some cluster => .ok ((clusterEntries v cluster).take maxEntries)

/-- What `exfat_read_file`, `exfat_write_file` and `exfat_remove` begin with: the cluster and
the entries of the directory of a path, and the name in it. -/
def openDirectory : Except Error (ℕ × Text × List Entry) :=
  match parsePath path with
  | .error e => .error e
  | .ok (dirPath, filename) =>
    match dirCluster v dirPath with
    | none => .error .notFound
    | some cluster =>
      match exfatListDirectory v dirPath 20 with
      | .error e => .error e
      | .ok entries => .ok (cluster, filename, entries)

/-- `exfat_file_exists`, as a test for a positive result. -/
def exfatFileExists : Bool :=
  if path = [slash] ∨ path = [] then true
  else
    match openDirectory v path with
    | .error _ => false
    | .ok (_, filename, entries) => entries.any (entryName · = filename)

/-! ## The calls -/

/-- The end of `exfat_read_file`, with the entry of the file. -/
def readEntry (e : Entry) (size : ℕ) : Except Error (List UInt8) :=
  if entryFileSize e = 0 ∧ 0 < entryCluster e then .error .notFile
  else if size < entryFileSize e then .error .noSpace
  else .ok (load v.image (address (entryCluster e)) (entryFileSize e))

/-- `exfat_read_file`, into a buffer of `size` bytes. -/
def exfatReadFile (size : ℕ) : Except Error (List UInt8) :=
  match openDirectory v path with
  | .error e => .error e
  | .ok (_, filename, entries) =>
    match entries.find? (entryName · = filename) with
    | none => .error .notFound
    | some e => readEntry v e size

def exfatAllocateCluster : ℤ × Volume :=
  if totalClusters ≤ v.nextFree then (-4, v)
  else (v.nextFree, { v with nextFree := v.nextFree + 1 })

/-- A `memcpy` or `memset` on the disk. -/
def storeDisk (addr : ℕ) (bytes : List UInt8) : Option Volume :=
  if addr + bytes.length ≤ diskSize then some { v with image := store v.image addr bytes }
  else none

def exfatFreeCluster (cluster : ℕ) : Volume :=
  if cluster < 2 ∨ totalClusters ≤ cluster then v
  else { v with image := store v.image (address cluster) (List.replicate clusterSize 0) }

structure Flags where
  create : Bool
  truncate : Bool
deriving DecidableEq, Repr

/-- `exfat_write_file`. The result of `exfat_allocate_cluster` is kept in a `uint32_t`, so
that only zero is taken for an error. -/
def exfatWriteFile (buffer : List UInt8) (flags : Flags)
    (garbage : ℕ → UInt8) : Option (Except Error ℕ × Volume) :=
  match openDirectory v path with
  | .error e => some (.error e, v)
  | .ok (cluster, filename, entries) =>
    let found := entries.findIdx? (entryName · = filename)
    if found = none ∧ ¬ flags.create then some (.error .notFound, v)
    else
      let (fileCluster, v) :=
        if found = none ∨ flags.truncate then
          let (allocated, v) := exfatAllocateCluster v
          ((allocated % 2 ^ 32).toNat, v)
        else (entryCluster (entries.getD (found.getD 0) []), v)
      if (found = none ∨ flags.truncate) ∧ fileCluster = 0 then some (.error .noSpace, v)
      else
        match storeDisk v (address fileCluster) buffer with
        | none => none
        | some v =>
          let written :=
            match found with
            | none => storeDisk v (address cluster + entries.length * entrySize)
                (makeEntry garbage filename buffer.length attrArchive fileCluster)
            | some i => storeDisk v (address cluster)
                (entries.modify i (updateEntry · buffer.length fileCluster)).flatten
          written.map fun v => (.ok buffer.length, v)

def exfatMkdir (garbage : ℕ → UInt8) : Option (Except Error ℕ × Volume) :=
  if exfatFileExists v path then some (.error .exists_, v)
  else
    match parsePath path with
    | .error e => some (.error e, v)
    | .ok (parentPath, dirname) =>
      match dirCluster v parentPath with
      | none => some (.error .notFound, v)
      | some parentCluster =>
        let (newCluster, v) := exfatAllocateCluster v
        if newCluster ≤ 0 then some (.error .noSpace, v)
        else
          match storeDisk v (address newCluster.toNat) (List.replicate clusterSize 0) with
          | none => none
          | some v =>
            match exfatListDirectory v parentPath 20 with
            | .error e => some (.error e, v)
            | .ok entries =>
              (storeDisk v (address parentCluster + entries.length * entrySize)
                (makeEntry garbage dirname 0 attrDirectory newCluster.toNat)).map
                  fun v => (.ok 0, v)

def exfatRemove : Option (Except Error ℕ × Volume) :=
  if path = [slash] ∨ path = [] then some (.error .permission, v)
  else
    match openDirectory v path with
    | .error e => some (.error e, v)
    | .ok (parentCluster, filename, entries) =>
      match entries.findIdx? (entryName · = filename) with
      | none => some (.error .notFound, v)
      | some i =>
        let e := entries.getD i []
        let full : Bool :=
          match exfatListDirectory v path 20 with
          | .error _ => false
          | .ok dirEntries => decide (0 < dirEntries.length)
        if isDirectory e ∧ full then some (.error .notEmpty, v)
        else
          let v := exfatFreeCluster v (entryCluster e)
          (storeDisk v (address parentCluster)
            (entries.eraseIdx i ++ [List.replicate entrySize 0]).flatten).map fun v => (.ok 0, v)

def exfatRename (oldPath newPath : Text) : Option (Except Error ℕ × Volume) :=
  if oldPath = [slash] ∨ oldPath = [] then some (.error .permission, v)
  else if exfatFileExists v newPath then some (.error .exists_, v)
  else
    match parsePath oldPath, parsePath newPath with
    | .error e, _ => some (.error e, v)
    | _, .error e => some (.error e, v)
    | .ok (oldParent, oldFilename), .ok (newParent, newFilename) =>
      if oldParent ≠ newParent then some (.error .unsupported, v)
      else
        match dirCluster v oldParent with
        | none => some (.error .notFound, v)
        | some parentCluster =>
          match exfatListDirectory v oldParent 20 with
          | .error e => some (.error e, v)
          | .ok entries =>
            match entries.findIdx? (entryName · = oldFilename) with
            | none => some (.error .notFound, v)
            | some i =>
              (storeDisk v (address parentCluster)
                (entries.modify i (renameEntry · newFilename)).flatten).map fun v => (.ok 0, v)

/-! ## The disk after `exfat_init` -/

/-- `README.TXT`. -/
def readmeName : Text := [82, 69, 65, 68, 77, 69, 46, 84, 88, 84]

/-- `SYSTEM`. -/
def systemName : Text := [83, 89, 83, 84, 69, 77]

/-- `LOGS`. -/
def logsName : Text := [76, 79, 71, 83]

/-- `CONFIG.SYS`. -/
def configName : Text := [67, 79, 78, 70, 73, 71, 46, 83, 89, 83]

/-- `SYSTEM.LOG`. -/
def logName : Text := [83, 89, 83, 84, 69, 77, 46, 76, 79, 71]

/-- `uintOS - A simple educational OS`, with the end of the line. -/
def readmeContent : List UInt8 :=
  [117, 105, 110, 116, 79, 83, 32, 45, 32, 65, 32, 115, 105, 109, 112, 108, 101, 32, 101, 100,
    117, 99, 97, 116, 105, 111, 110, 97, 108, 32, 79, 83, 13, 10]

/-- `SYSTEM CONFIG`, with the end of the line. -/
def configContent : List UInt8 := [83, 89, 83, 84, 69, 77, 32, 67, 79, 78, 70, 73, 71, 13, 10]

/-- `System startup log...`, with the end of the line. -/
def logContent : List UInt8 :=
  [83, 121, 115, 116, 101, 109, 32, 115, 116, 97, 114, 116, 117, 112, 32, 108, 111, 103, 46, 46,
    46, 13, 10]

variable (garbage : ℕ → ℕ → UInt8)

def rootEntries : List Entry :=
  [makeEntry (garbage 0) readmeName 37 attrArchive 3,
    makeEntry (garbage 1) systemName 0 attrDirectory 4,
    makeEntry (garbage 2) logsName 0 attrDirectory 5]

/-- `exfat_init`; `garbage` are the uninitialised bytes of its five entries. -/
def exfatInit : Volume :=
  let image : Image := fun _ => 0
  let image := store image (address 3) readmeContent
  let image := store image (address rootDirCluster) (rootEntries garbage).flatten
  let image := store image (address 4) (makeEntry (garbage 3) configName 15 attrArchive 6)
  let image := store image (address 6) configContent
  let image := store image (address 5) (makeEntry (garbage 4) logName 22 attrArchive 7)
  let image := store image (address 7) logContent
  ⟨image, 8⟩

end UintOS.Exfat
