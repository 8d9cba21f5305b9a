import UintOS.Library.ByteFile
import UintOS.Library.Runs

/-!
# Open files of the ext2 adapter

`ext2_vfs_read`, `ext2_vfs_write`, `ext2_vfs_seek` and `ext2_vfs_tell`. The handle keeps the size
and the position of the file, both `uint32_t`: every sum that can wrap is taken modulo `2 ^ 32`.
`ext2_read_file` and `ext2_write_file` copy a prefix of the stored file, as the adapter takes them
to.

The answer of `malloc` is given with each call: `none`, or what the bytes of a new block happen to
be. A copy beyond the end of a block gives `none`.
-/

namespace UintOS.Ext2

open ByteFile

/-- The `uint32_t` that a sum wraps to. -/
def wrap (n : ℕ) : ℕ := n % 2 ^ 32

/-- A `uint32_t` that is converted to `int`. -/
def toInt (n : ℕ) : ℤ := if n < 2 ^ 31 then n else n - 2 ^ 32

inductive VfsError
  | notFound
  | ioError
  | noSpace
  | invalidArg
  | readonly
  | unknown
deriving DecidableEq, Repr

/-- `ext2_to_vfs_error`, for the codes that are errors. -/
def ext2ToVfsError (code : ℤ) : VfsError :=
  if code = -1 then .notFound
  else if code = -2 then .noSpace
  else if code = -3 then .unknown
  else if code = -4 then .ioError
  else if code = -5 then .invalidArg
  else if code = -6 then .readonly
  else .unknown

/-- An open file: the handle (`ext2_file_data_t`), the append flag it was opened with, and
what is stored under its path. -/
structure File where
  append : Bool
  stored : List UInt8
  size : ℕ
  position : ℕ
deriving DecidableEq

/-- A buffer or the content of a file: its size is a `uint32_t`. -/
structure Buffer where
  bytes : List UInt8
  bound : bytes.length < 2 ^ 32

/-- `ext2_read_file` into a block of memory, whose prefix it fills. -/
def ext2ReadFile (stored block : List UInt8) (size : ℕ) : List UInt8 × ℤ :=
  let read := stored.take size
  (read ++ block.drop read.length, toInt read.length)

/-- `ext2_write_file` without flags. -/
def ext2WriteFile (stored bytes : List UInt8) : List UInt8 × ℤ :=
  (bytes ++ stored.drop bytes.length, toInt bytes.length)

/-- What `malloc` answers: nothing, or a block with these bytes. -/
abbrev Heap := Option (ℕ → UInt8)

def malloc (heap : Heap) (size : ℕ) : Option (List UInt8) :=
  heap.map fun garbage => (List.range size).map garbage

/-- What a call returns, and what it stores through its pointers. -/
inductive Output
  | read (bytes : List UInt8)
  | written (size : ℕ)
  | sought
  | offset (position : ℕ)
  | error (code : VfsError)
deriving DecidableEq

/-- The handle that `ext2_vfs_open` makes for an existing file; a negative size is an error. -/
def ext2VfsOpen (append : Bool) (stored : Buffer) : Except VfsError File :=
  let fileSize := toInt stored.bytes.length
  if fileSize < 0 then .error (ext2ToVfsError fileSize)
  else .ok ⟨append, stored.bytes, fileSize.toNat, 0⟩

variable (f : File)

def ext2VfsRead (size : ℕ) (heap : Heap) : Option (Output × File) :=
  if f.size ≤ f.position then some (.read [], f)
  else
    let size := if f.size < wrap (f.position + size) then f.size - f.position else size
    match malloc heap f.size with
    | none => some (.error .noSpace, f)
    | some fileBuffer =>
      let (fileBuffer, result) := ext2ReadFile f.stored fileBuffer f.size
      if result < 0 then some (.error (ext2ToVfsError result), f)
      else
        match slice fileBuffer f.position size with
        | none => none
        | some bytes => some (.read bytes, { f with position := wrap (f.position + size) })

/-- The branch of `ext2_vfs_write` that reads, changes and writes back the file. -/
def modifyFile (buffer : List UInt8) (heap : Heap) : Option (Output × File) :=
  let newSize := max (wrap (f.position + buffer.length)) f.size
  match malloc heap newSize with
  | none => some (.error .noSpace, f)
  | some newContent =>
    let (newContent, readResult) :=
      if 0 < f.size then ext2ReadFile f.stored newContent f.size else (newContent, 0)
    if readResult < 0 then some (.error (ext2ToVfsError readResult), f)
    else
      match splice newContent f.position buffer with
      | none => none
      | some newContent =>
        let (stored, writeResult) := ext2WriteFile f.stored newContent
        if writeResult < 0 then
          some (.error (ext2ToVfsError writeResult), { f with stored })
        else
          some (.written buffer.length,
            { f with stored, size := newSize, position := wrap (f.position + buffer.length) })

/-- The branch of `ext2_vfs_write` that writes the buffer alone. -/
def replaceFile (buffer : List UInt8) : Output × File :=
  let (stored, writeResult) := ext2WriteFile f.stored buffer
  if writeResult < 0 then (.error (ext2ToVfsError writeResult), { f with stored })
  else
    (.written buffer.length, { f with stored, size := buffer.length, position := buffer.length })

def ext2VfsWrite (buffer : Buffer) (heap : Heap) : Option (Output × File) :=
  if (0 < f.size ∧ 0 < f.position) ∨ f.append then
    let f := if f.append then { f with position := f.size } else f
    modifyFile f buffer.bytes heap
  else some (replaceFile f buffer.bytes)

/-- `whence`; `other` is a value that is none of the three. -/
inductive Whence
  | set
  | cur
  | fromEnd
  | other
deriving DecidableEq, Repr

def addOffset (base : ℕ) (offset : Int64) : Int64 := Int64.ofNat base + offset

/-- The end of `ext2_vfs_seek`: the bounds are checked, the position is stored. -/
def moveTo (newPosition : Int64) : Output × File :=
  if newPosition < 0 then (.error .invalidArg, f)
  else (.sought, { f with position := wrap newPosition.toInt.toNat })

def ext2VfsSeek (offset : Int64) (whence : Whence) : Output × File :=
  match whence with
  | .set => moveTo f offset
  | .cur => moveTo f (addOffset f.position offset)
  | .fromEnd => moveTo f (addOffset f.size offset)
  | .other => (.error .invalidArg, f)

def ext2VfsTell : Output × File := (.offset f.position, f)

inductive Request
  | read (size : UInt32) (heap : Heap)
  | write (buffer : Buffer) (heap : Heap)
  | seek (offset : Int64) (whence : Whence)
  | tell

def serve : Request → Option (Output × File)
  | .read size heap => ext2VfsRead f size.toNat heap
  | .write buffer heap => ext2VfsWrite f buffer heap
  | .seek offset whence => some (ext2VfsSeek f offset whence)
  | .tell => some (ext2VfsTell f)

end UintOS.Ext2
