import LashOs.Base.FileTree
import LashOs.Bundle.Archive
import LashOs.Errno

/-!
# Extraction

`extract_file` and `extract_bundle` of `sandbox_host.c`, on the tree below the root
directory. The surroundings may let any operation fail. The log records history: every
operation with its result, and for a file that is created what stood at its path before.
-/
namespace LashOs.Bundle

open Base Path

/-! ### Operations of the file system -/

inductive Operation where
  | duplicate
  | mkdir (path : List FileName)
  | enter (path : List FileName)
  | create (path : List FileName) (found : Option Node)
  | write (path : List FileName)
  | close (path : List FileName)
  deriving DecidableEq, Repr

structure Event where
  operation : Operation
  result : Except Errno Unit

/-- A failure that the surroundings cause; `written` is how much of its data a write has
stored before. -/
structure Fault where
  error : Errno
  written : Nat

/-- What the operations depend on besides the tree. -/
structure Volume where
  nameMax : Nat
  umask : Nat

/-- The tree, the faults of the operations to come (one place each) and the log. -/
structure Disk where
  tree : FileTree
  faults : List (Option Fault)
  log : List Event

def treeErrno : TreeError → Errno
  | .exists_ => .EEXIST
  | .missing => .other 2
  | .notDirectory => .other 20
  | .nameTooLong => .other 36

/-- The mode of a new node, `mode & ~umask`. -/
def Volume.masked (v : Volume) (mode : Nat) : Nat := mode ^^^ (mode &&& v.umask)

/-- One operation: what it makes of the tree, and what a fault leaves. -/
def Disk.perform (d : Disk) (operation : Operation) (attempt : Except TreeError FileTree)
    (spoiled : Fault → FileTree) : Except Errno Unit × Disk :=
  match d.faults.head?.join, attempt with
  | some fault, _ =>
    (.error fault.error,
      { tree := spoiled fault, faults := d.faults.tail,
        log := d.log ++ [⟨operation, .error fault.error⟩] })
  | none, .error error =>
    (.error (treeErrno error),
      { d with faults := d.faults.tail, log := d.log ++ [⟨operation, .error (treeErrno error)⟩] })
  | none, .ok tree =>
    (.ok (), { tree, faults := d.faults.tail, log := d.log ++ [⟨operation, .ok ()⟩] })

def Disk.duplicate (d : Disk) : Except Errno Unit × Disk :=
  d.perform .duplicate (.ok d.tree) fun _ => d.tree

/-- `mkdirat(directory, part, 0700)` -/
def Disk.mkdirat (d : Disk) (v : Volume) (directory : List FileName) (part : FileName) :
    Except Errno Unit × Disk :=
  d.perform (.mkdir (directory ++ [part]))
    (d.tree.make v.nameMax directory part (.directory (v.masked 0o700))) fun _ => d.tree

/-- `openat(directory, part, O_RDONLY | O_DIRECTORY | O_NOFOLLOW | O_CLOEXEC)` -/
def Disk.enterat (d : Disk) (v : Volume) (directory : List FileName) (part : FileName) :
    Except Errno Unit × Disk :=
  d.perform (.enter (directory ++ [part])) (d.tree.enter v.nameMax directory part) fun _ => d.tree

/-- `openat(directory, part, O_WRONLY | O_CREAT | O_EXCL | O_NOFOLLOW | O_CLOEXEC, mode)` -/
def Disk.createat (d : Disk) (v : Volume) (directory : List FileName) (part : FileName)
    (mode : Nat) : Except Errno Unit × Disk :=
  d.perform (.create (directory ++ [part]) (d.tree (directory ++ [part])))
    (d.tree.make v.nameMax directory part (.file (v.masked mode) [])) fun _ => d.tree

/-- `sb_write_all`, which makes no call at all for no data. -/
def Disk.writeAll (d : Disk) (path : List FileName) (data : List UInt8) :
    Except Errno Unit × Disk :=
  if data = [] then (.ok (), d)
  else
    d.perform (.write path) (.ok (d.tree.append path data)) fun fault =>
      d.tree.append path (data.take fault.written)

def Disk.closeFile (d : Disk) (path : List FileName) : Except Errno Unit × Disk :=
  d.perform (.close path) (.ok d.tree) fun _ => d.tree

/-! ### `extract_file` -/

/-- The end of `extract_file`, when the directory of the file is open. -/
def extractLast (v : Volume) (d : Disk) (directory : List FileName) (part : FileName) (mode : Nat)
    (data : List UInt8) : Except Errno Unit × Disk :=
  match d.createat v directory part mode with
  | (.error error, d) => (.error error, d)
  | (.ok (), d) =>
    match d.writeAll (directory ++ [part]) data with
    -- The file is closed also when it could not be written.
    | (.error error, d) => (.error error, (d.closeFile (directory ++ [part])).2)
    | (.ok (), d) => d.closeFile (directory ++ [part])

/-- The loop of `extract_file` over the directories of a name. -/
def extractParts (v : Volume) (mode : Nat) (data : List UInt8) :
    List FileName → List FileName → Disk → Except Errno Unit × Disk
  | _, [], d => (.error .EINVAL, d)
  | directory, [part], d => extractLast v d directory part mode data
  | directory, part :: more, d =>
    let (made, d) := d.mkdirat v directory part
    if made = .ok () ∨ made = .error .EEXIST then
      match d.enterat v directory part with
      | (.error error, d) => (.error error, d)
      | (.ok (), d) => extractParts v mode data (directory ++ [part]) more d
    else (made, d)

def extractFile (v : Volume) (d : Disk) (name : List UInt8) (mode : Nat) (data : List UInt8) :
    Except Errno Unit × Disk :=
  match d.duplicate with
  | (.error error, d) => (.error error, d)
  | (.ok (), d) => extractParts v mode data [] (components name) d

/-! ### `extract_bundle` -/

/-- The loop of `extract_bundle`, with `left` more entries allowed; `none` is a read outside
of the buffer. A signal of the launcher can be there in any turn. -/
def extractLoop (v : Volume) (archive : List UInt8) (interrupted : Nat → Bool) (left pos : Nat)
    (d : Disk) : Option (Except Errno Unit) × Disk :=
  if sub64 archive.length pos < 16 then (some (.error .EINVAL), d)
  else if interrupted left then (some (.error .EINTR), d)
  else
    match parseEntry archive pos, left with
    | .outside, _ => (none, d)
    | .finished, _ => (some (.ok ()), d)
    | .malformed, _ => (some (.error .EINVAL), d)
    -- The entry is one too many.
    | .file _ _ _ _, 0 => (some (.error .EINVAL), d)
    | .file name mode data next, left + 1 =>
      match extractFile v d name mode data with
      | (.error error, d) => (some (.error error), d)
      | (.ok (), d) => extractLoop v archive interrupted left next d

def maxEntries : Nat := 1024

/-- `SB_MAX_ARCHIVE` -/
def maxArchive : Nat := 512 <<< 20

/-- `"LASHOS-VM-v1"`, filled up with zeros. -/
def bundleMagic : List UInt8 := ascii "LASHOS-VM-v1" ++ List.replicate 4 0

/-- The compression, of which only this is used: what was compressed comes back. -/
structure Codec where
  compress : List UInt8 → List UInt8
  decompress : List UInt8 → Option (List UInt8)
  inverts : ∀ data, decompress (compress data) = some data

/-- `extract_bundle` on the bytes of the executable. -/
def extractBundle (codec : Codec) (v : Volume) (executable : List UInt8) (interrupted : Nat → Bool)
    (d : Disk) : Option (Except Errno Unit) × Disk :=
  let fileSize := executable.length
  -- Here `errno` is not set.
  if fileSize < 40 then (some (.error (.other 0)), d)
  else
    match readAt executable (fileSize - 40) 40 with
    | none => (none, d)
    | some footer =>
      let offset := leValue (slice footer 16 8)
      let packed := leValue (slice footer 24 8)
      let size := leValue (slice footer 32 8)
      if slice footer 0 16 ≠ bundleMagic ∨ size = 0 ∨ size > maxArchive ∨ packed = 0 ∨
          packed > maxArchive ∨ offset > fileSize - 40 ∨ packed ≠ sub64 (fileSize - 40) offset then
        (some (.error .EINVAL), d)
      else
        match readAt executable offset packed with
        | none => (none, d)
        | some compressed =>
          match codec.decompress compressed with
          | none => (some (.error .EINVAL), d)
          | some archive =>
            if archive.length ≠ size then (some (.error .EINVAL), d)
            else extractLoop v archive interrupted maxEntries 0 d

/-- `build-sandbox.py`: the base executable, the compressed archive and the footer. -/
def bundleOf (codec : Codec) (base archive : List UInt8) : List UInt8 :=
  let compressed := codec.compress archive
  base ++ (compressed ++ (bundleMagic ++ (leBytes 8 base.length ++
    (leBytes 8 compressed.length ++ leBytes 8 archive.length))))

end LashOs.Bundle
