import UintOS.Library.Paths
import UintOS.Library.Runs

/-!
# Mount points and paths

The part of `vfs.c` that deals with paths: `vfs_normalize_path`, the search for the mount point of a
path, the path relative to it, `vfs_mount` and `vfs_unmount`. A C string is the list of its bytes
without the zero. `vfs_mount` gives the lock up while the handler of the file system runs: its two
critical sections are `beginMount` and `addMount`, and `vfsMount` is a call that nothing interrupts.
-/

namespace UintOS.Vfs

/-- A C string. -/
abbrev Text := List UInt8

def slash : UInt8 := 47

def dot : UInt8 := 46

def maxPath : ℕ := 256

/-! ## Paths -/

/-- A `..` in `vfs_normalize_path`: one level is taken off what has been written, whose last
character comes first. -/
def ascend (out : Text) : Text :=
  if 1 < out.length then out.tail.dropWhile (· ≠ slash) else out

/-- The loop of `vfs_normalize_path`, which writes at most `room` characters. `start` says that a
component begins here: `i == 0 || path[i-1] == '/'`. The last character of the buffer comes first.
-/
def normalizeLoop (room : ℕ) : (path : Text) → (start : Bool) → (out : Text) → Text
  | [], _, out => out
  | c :: rest, start, out =>
    if out.length < room then
      if start ∧ c = slash then normalizeLoop room rest true out
      else if start ∧ c = dot then
        match rest with
        | [] => out
        | d :: rest' =>
          if d = slash then normalizeLoop room rest' true out
          else if d = dot then
            match rest' with
            | [] => ascend out
            | e :: rest'' =>
              if e = slash then normalizeLoop room rest'' true (ascend out)
              else normalizeLoop room (d :: e :: rest'') false (c :: out)
          else normalizeLoop room (d :: rest') false (c :: out)
      else normalizeLoop room rest (c = slash) (c :: out)
    else out

/-- The end of `vfs_normalize_path`: an empty path is the root, and a last slash is taken off. -/
def finish (out : Text) : Text :=
  match out with
  | [] => [slash]
  | c :: out => if out ≠ [] ∧ c = slash then out.reverse else (c :: out).reverse

/-- What `vfs_normalize_path` writes before looking at the path. -/
def lead (path : Text) : Text := if path.head? = some slash then [] else [slash]

def vfsNormalizePath (path : Text) (maxLen : ℕ) : Text :=
  finish (normalizeLoop (maxLen - 1) path true (lead path))

def vfsPathIsPrefix : Text → Text → Bool
  | [], [] => true
  | [], c :: _ => c = slash
  | _ :: _, [] => false
  | p :: mount, c :: path => p = c && vfsPathIsPrefix mount path

def vfsCopyPath (src : Text) (maxLen : ℕ) : Text := src.take (maxLen - 1)

def vfsExtractRelativePath (fullPath mountPoint : Text) (maxLen : ℕ) : Text :=
  match (vfsNormalizePath fullPath maxPath).drop mountPoint.length with
  | [] => [slash]
  | c :: rest => slash :: vfsCopyPath (if c = slash then rest else c :: rest) (maxLen - 1)

/-! ## The mount table -/

/-- `vfs_filesystem_t`: its name, and whether it handles mount and unmount. -/
structure FsType where
  name : Text
  mount : Bool
  unmount : Bool
deriving DecidableEq, Repr

structure Mount where
  mountPoint : Text
  fsType : FsType
deriving DecidableEq, Repr

/-- The error codes that the calls return; `mounted` is `VFS_ERR_EXISTS`, and `handler` is a
code of a file system. -/
inductive Error
  | notFound
  | mounted
  | noSpace
  | handler (code : ℤ)
deriving DecidableEq, Repr

/-- One round of `vfs_find_mount_point`, with the best match so far. -/
def betterMatch (normalized : Text) (best : Option Mount) (mount : Mount) : Option Mount :=
  if (best.map (·.mountPoint.length)).getD 0 < mount.mountPoint.length ∧
      vfsPathIsPrefix mount.mountPoint normalized then some mount
  else best

variable (mountPoints : List Mount)

def vfsFindMountPoint (path : Text) : Option Mount :=
  mountPoints.foldl (betterMatch (vfsNormalizePath path maxPath)) none

/-- `vfs_mount` up to the end of its first critical section: the structure to be added. `memory`
says whether there is memory for it. -/
def beginMount (registered : List FsType) (mountPoints : List Mount) (fsName mountPoint : Text)
    (memory : Bool) : Except Error Mount :=
  match registered.find? (·.name = fsName) with
  | none => .error .notFound
  | some fsType =>
    let normalized := vfsNormalizePath mountPoint maxPath
    if mountPoints.any (·.mountPoint = normalized) then .error .mounted
    else if memory then .ok ⟨vfsCopyPath normalized maxPath, fsType⟩
    else .error .noSpace

/-- The file system's handler, which returns `result` if there is one. -/
def runHandler (present : Bool) (result : ℤ) : Except Error Unit :=
  if present ∧ result ≠ 0 then .error (.handler result) else .ok ()

/-- The second critical section of `vfs_mount`. -/
def addMount (mount : Mount) : List Mount := mountPoints ++ [mount]

/-- `vfs_mount`, with nothing between its critical sections. -/
def vfsMount (registered : List FsType) (mountPoints : List Mount) (fsName mountPoint : Text)
    (memory : Bool) (result : ℤ) : Except Error (List Mount) :=
  match beginMount registered mountPoints fsName mountPoint memory with
  | .error e => .error e
  | .ok mount =>
    match runHandler mount.fsType.mount result with
    | .error e => .error e
    | .ok _ => .ok (addMount mountPoints mount)

/-- `vfs_unmount`; the handler runs inside the critical section. -/
def vfsUnmount (mountPoint : Text) (result : ℤ) : Except Error (List Mount) :=
  let normalized := vfsNormalizePath mountPoint maxPath
  match mountPoints.find? (·.mountPoint = normalized) with
  | none => .error .notFound
  | some mount =>
    match runHandler mount.fsType.unmount result with
    | .error e => .error e
    | .ok _ => .ok (mountPoints.eraseP (·.mountPoint = normalized))

end UintOS.Vfs
