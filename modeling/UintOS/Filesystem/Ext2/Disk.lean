import UintOS.Filesystem.Vfs.Model
import UintOS.Library.Ownership

/-!
# Files on an ext2 disk

`ext2_read_file` and `ext2_write_file` on a disk whose blocks can all be read and written. The
functions that the source leaves undefined do what their names say, with lists of free inodes and
blocks. The block numbers of a file are a function of the index, whether or not they stand in
indirect blocks. An inode has two copies: the one on the disk, and the one that a call works on and
writes back at its end, or not.
-/

namespace UintOS.Ext2.OnDisk

open Vfs (Text slash dot)

inductive Kind
  | regular
  | directory
  | other
deriving DecidableEq, Repr

/-- `ext2_inode_t`; block number zero is a hole. -/
structure Inode where
  kind : Kind
  size : ℕ
  block : ℕ → ℕ

/-- A disk: its inodes, the names in its directories, what its blocks hold, and what is free. -/
structure Disk where
  inode : ℕ → Inode
  entry : ℕ → Text → ℕ
  data : ℕ → ℕ → UInt8
  freeInodes : List ℕ
  freeBlocks : List ℕ

inductive Error
  | notFound
  | noSpace
  | invalidArg
deriving DecidableEq, Repr

/-- `ROOT_INODE`. -/
def root : ℕ := 2

/-- The block size for this `log_block_size`; buffers are made for at most 4096 bytes. -/
def blockSize (log : Fin 3) : ℕ := 1024 * 2 ^ log.val

/-- How many blocks direct, indirect and double indirect pointers reach. -/
def blockLimit (log : Fin 3) : ℕ :=
  12 + blockSize log / 4 + (blockSize log / 4) * (blockSize log / 4)

/-! ## Paths -/

/-- A component is looked up in a directory; zero if it is not there. -/
def Disk.find (d : Disk) (dir : ℕ) (component : Text) : ℕ :=
  if (d.inode dir).kind = .directory then d.entry dir component else 0

/-- The loop of `path_to_inode`, with the part of a component read so far. -/
def Disk.walk (d : Disk) : (current : ℕ) → (component path : Text) → ℕ
  | current, component, [] => if component = [] then current else d.find current component
  | current, component, c :: path =>
    if c = slash then
      let next := d.find current component
      if next = 0 then 0 else d.walk next [] path
    else if component.length < 255 then d.walk current (component ++ [c]) path
    else
      let next := d.find current component
      if next = 0 then 0 else d.walk next [c] path

def pathToInode (d : Disk) (path : Text) : ℕ :=
  if path = [slash] then root
  else d.walk root [] (if path.head? = some slash then path.tail else path)

/-- `parse_path`: the directory of a path and the name in it. -/
def parsePath (path : Text) : Text × Text :=
  let filename := (path.reverse.takeWhile (· ≠ slash)).reverse
  match path.reverse.dropWhile (· ≠ slash) with
  | [] => ([dot], path)
  | [_] => ([slash], filename)
  | _ :: dirPath => (dirPath.reverse, filename)

/-! ## Reading -/

section

variable (log : Fin 3)

def readFileBlock (d : Disk) (inode : Inode) (index : ℕ) : Except Error (ℕ → UInt8) :=
  if index < blockLimit log then
    if inode.block index = 0 then .ok fun _ => 0 else .ok (d.data (inode.block index))
  else .error .invalidArg

/-- The loop of `ext2_read_file`: so many more blocks, from `index` on. -/
def readLoop (d : Disk) (inode : Inode) (bytesToRead : ℕ) :
    (blocks index : ℕ) → (buffer : List UInt8) → Except Error (List UInt8)
  | 0, _, buffer => .ok buffer
  | blocks + 1, index, buffer =>
    match readFileBlock log d inode index with
    | .error e => .error e
    | .ok block =>
      let bytesToCopy :=
        if bytesToRead < buffer.length + blockSize log then bytesToRead - buffer.length
        else blockSize log
      readLoop d inode bytesToRead blocks (index + 1) (buffer ++ (List.range bytesToCopy).map block)

/-- `ext2_read_file`, into a buffer of `size` bytes. -/
def ext2ReadFile (d : Disk) (path : Text) (size : ℕ) : Except Error (List UInt8) :=
  let inodeNum := pathToInode d path
  if inodeNum = 0 then .error .notFound
  else
    let inode := d.inode inodeNum
    if inode.kind ≠ .regular then .error .invalidArg
    else
      let bytesToRead := min inode.size size
      readLoop log d inode bytesToRead ((bytesToRead + blockSize log - 1) / blockSize log) 0 []

/-! ## Writing -/

structure Flags where
  create : Bool
  truncate : Bool
  append : Bool
deriving DecidableEq, Repr

/-- The blocks that `ext2_free_file_blocks` frees. -/
def fileBlocks (inode : Inode) : List ℕ :=
  ((List.range (blockLimit log)).map inode.block).filter (· ≠ 0)

/-- The inode that `ext2_write_file` works on: a new one, which has been entered in its
directory, or that of the file, which may be truncated. -/
def openInode (d : Disk) (path : Text) (flags : Flags) : Except Error (ℕ × Inode × Disk) :=
  let inodeNum := pathToInode d path
  if inodeNum = 0 then
    if flags.create then
      let (dirPath, filename) := parsePath path
      let dirInodeNum := pathToInode d dirPath
      if dirInodeNum = 0 then .error .notFound
      else if (d.inode dirInodeNum).kind ≠ .directory then .error .invalidArg
      else
        match d.freeInodes with
        | [] => .error .noSpace
        | newInode :: freeInodes =>
          .ok (newInode, ⟨.regular, 0, fun _ => 0⟩, { d with
              freeInodes
              entry := Function.update d.entry dirInodeNum
                (Function.update (d.entry dirInodeNum) filename newInode) })
    else .error .notFound
  else
    let inode := d.inode inodeNum
    if inode.kind ≠ .regular then .error .invalidArg
    else if flags.truncate then
      .ok (inodeNum, { inode with size := 0, block := fun _ => 0 },
        { d with freeBlocks := fileBlocks log inode ++ d.freeBlocks })
    else .ok (inodeNum, inode, d)

structure Writing where
  inode : Inode
  data : ℕ → ℕ → UInt8
  freeBlocks : List ℕ
  written : ℕ

/-- `ext2_get_or_allocate_block`; block number zero if there is none. -/
def getOrAllocateBlock (inode : Inode) (freeBlocks : List ℕ) (index : ℕ) : ℕ × Inode × List ℕ :=
  if index < blockLimit log then
    if inode.block index ≠ 0 then (inode.block index, inode, freeBlocks)
    else
      match freeBlocks with
      | [] => (0, inode, [])
      | b :: rest => (b, { inode with block := Function.update inode.block index b }, rest)
  else (0, inode, freeBlocks)

/-- A block with `count` bytes of the buffer at `offset`. -/
def patchBlock (block : ℕ → UInt8) (offset count : ℕ) (bytes : ℕ → UInt8) : ℕ → UInt8 :=
  fun i => if offset ≤ i ∧ i < offset + count then bytes (i - offset) else block i

/-- The loop of `ext2_write_file`, for so many rounds. -/
def writeLoop (buffer : List UInt8) : (rounds index : ℕ) → (w : Writing) → Writing
  | 0, _, w => w
  | rounds + 1, index, w =>
    if w.written < buffer.length then
      let (b, inode, freeBlocks) := getOrAllocateBlock log w.inode w.freeBlocks index
      if b = 0 then { w with inode, freeBlocks }
      else
        let offset := w.written % blockSize log
        let count := min (blockSize log - offset) (buffer.length - w.written)
        let block := patchBlock (w.data b) offset count fun i => buffer.getD (w.written + i) 0
        writeLoop buffer rounds (index + 1)
          { inode, data := Function.update w.data b block, freeBlocks,
            written := w.written + count }
    else w

/-- The end of `ext2_write_file`: after a write, the inode is written back. -/
def closeInode (d : Disk) (inodeNum : ℕ) (flags : Flags) (w : Writing) : Disk :=
  let d := { d with data := w.data, freeBlocks := w.freeBlocks }
  if 0 < w.written then
    let newSize := if flags.append then (w.inode.size + w.written) % 2 ^ 32 else w.written
    let inode := { w.inode with size := max newSize w.inode.size }
    { d with inode := Function.update d.inode inodeNum inode }
  else d

/-- `ext2_write_file`; a round writes at least one byte. -/
def ext2WriteFile (d : Disk) (path : Text) (buffer : List UInt8) (flags : Flags) :
    Except Error ℕ × Disk :=
  match openInode log d path flags with
  | .error e => (.error e, d)
  | .ok (inodeNum, inode, d) =>
    let w := writeLoop log buffer buffer.length 0 ⟨inode, d.data, d.freeBlocks, 0⟩
    (.ok w.written, closeInode d inodeNum flags w)

end

end UintOS.Ext2.OnDisk
