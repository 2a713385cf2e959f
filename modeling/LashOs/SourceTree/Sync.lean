import Mathlib
import LashOs.Base.CString
import LashOs.Base.Forest
import LashOs.Base.PurePath
import LashOs.Base.Run

/-!
# Refreshing a source tree

`sync_tree` of `source_tree.py` makes one directory a copy of another one and leaves the build
caches in it alone. Both directories are in one file system. A path that leads through a link
would make a change elsewhere; that is a fault here. What `stat` finds behind a link at the
end of a path is a choice of the environment.
-/
namespace LashOs.SourceTree

open Base

abbrev Name : Type := List UInt8

abbrev Tree : Type := Forest Name FileLeaf

/-- `EXCLUDED` -/
def excluded : List Name :=
  [ascii ".git", ascii "build", ascii "out", ascii "dl", ascii "__pycache__"]

/-- What `stat` tells of a file. -/
inductive Kind where
  | file | directory
  deriving DecidableEq, Repr

/-- `leads` is what `stat` finds at a path that is a link; `order` is the order in which Python
goes through a set. -/
structure Environment where
  leads : Tree → List Name → Option Kind
  order : List (List Name) → List (List Name)
  perm : ∀ paths, (order paths).Perm paths

inductive Change where
  | removed (path : List Name)
  | made (path : List Name)
  | linked (path : List Name)
  | copied (path : List Name)
  deriving DecidableEq, Repr

inductive Fault where
  -- The path leads through a link.
  | astray
  | missing
  | exists_
  | isDirectory
  | notDirectory
  | notFound
  | overlap
  deriving DecidableEq, Repr

/-- The file system and the changes that were made to it. -/
structure Disk where
  tree : Tree
  changes : List Change

/-! ### Operations on paths -/

section

variable (env : Environment)

def Disk.visit (d : Disk) (path : List Name) : Except Fault (Option (Entry FileLeaf)) :=
  if d.tree.throughLink path then .error .astray else .ok (d.tree.lookup path)

/-- `stat` of what a path leads to. -/
def stat (tree : Tree) (path : List Name) : Option (Entry FileLeaf) → Option Kind
  | none => none
  | some .directory => some .directory
  | some (.leaf (.file _ _)) => some .file
  | some (.leaf (.link _)) => env.leads tree path

def isSymlink (here : Option (Entry FileLeaf)) : Bool := (linkText here).isSome

def pathExists (tree : Tree) (path : List Name) (here : Option (Entry FileLeaf)) : Bool :=
  (stat env tree path here).isSome

def isDir (tree : Tree) (path : List Name) (here : Option (Entry FileLeaf)) : Bool :=
  stat env tree path here = some .directory

def isFile (tree : Tree) (path : List Name) (here : Option (Entry FileLeaf)) : Bool :=
  stat env tree path here = some .file

/-- `shutil.rmtree` -/
def Disk.rmtree (d : Disk) (path : List Name) : Except Fault Disk :=
  match d.tree.lookup path with
  | some .directory => .ok ⟨d.tree.remove path, d.changes ++ [.removed path]⟩
  | some (.leaf _) => .error .notDirectory
  | none => .error .missing

def Disk.unlink (d : Disk) (path : List Name) : Except Fault Disk :=
  match d.tree.lookup path with
  | some (.leaf _) => .ok ⟨d.tree.remove path, d.changes ++ [.removed path]⟩
  | some .directory => .error .isDirectory
  | none => .error .missing

/-- `remove` -/
def Disk.remove (d : Disk) (path : List Name) : Except Fault Disk := do
  let here ← d.visit path
  if isDir env d.tree path here && !isSymlink here then d.rmtree path else d.unlink path

/-- `remove` of what is in the way. -/
def Disk.removeIf (d : Disk) (path : List Name) (inTheWay : Bool) : Except Fault Disk :=
  if inTheWay then d.remove env path else .ok d

end

/-- A new entry, for which there has to be a directory. -/
def Disk.create (d : Disk) (path : List Name) (e : Entry FileLeaf) (change : Change) : Except Fault Disk :=
  if d.tree.lookup path.dropLast = some .directory then
    .ok ⟨d.tree.insert path e, d.changes ++ [change]⟩
  else .error .missing

/-- `Path.symlink_to` -/
def Disk.symlinkTo (d : Disk) (path : List Name) (text : List UInt8) : Except Fault Disk := do
  match ← d.visit path with
  | none => d.create path (.leaf (.link text)) (.linked path)
  | some _ => .error .exists_

/-- `Path.mkdir(exist_ok=True)` -/
def Disk.mkdir (d : Disk) (path : List Name) : Except Fault Disk := do
  match ← d.visit path with
  | none => d.create path .directory (.made path)
  | some .directory => .ok d
  | some (.leaf _) => .error .exists_

/-- `shutil.copy2`: the bytes and the permissions of a file. -/
def Disk.copy (d : Disk) (path : List Name) (mode : Nat) (bytes : List UInt8) : Except Fault Disk := do
  match ← d.visit path with
  | none => d.create path (.leaf (.file mode bytes)) (.copied path)
  | some (.leaf (.file _ _)) =>
    .ok ⟨(d.tree.remove path).insert path (.leaf (.file mode bytes)), d.changes ++ [.copied path]⟩
  | some (.leaf (.link _)) => .error .astray
  | some .directory => .error .isDirectory

/-- `Path.mkdir(parents=True, exist_ok=True)`, of which `base` is there. -/
def Disk.mkdirs (d : Disk) (base : List Name) : List Name → Except Fault Disk
  | [] => .ok d
  | name :: rest => do
    let d ← d.mkdir (base ++ [name])
    d.mkdirs (base ++ [name]) rest

/-! ### Listing -/

/-- What `os.walk` finds below a directory. A link to a directory is not entered. -/
def entriesOf : Tree → List (List Name)
  | .nil => []
  | .leaf name _ rest => (if name ∈ excluded then [] else [[name]]) ++ entriesOf rest
  | .directory name inner rest =>
    (if name ∈ excluded then [] else [name] :: (entriesOf inner).map (name :: ·)) ++ entriesOf rest

/-- `entries` -/
def entries (tree : Tree) (root : List Name) : List (List Name) :=
  match tree.subtree root with
  | some contents => entriesOf contents
  | none => []

/-- The key `(len(p.parts), str(p))` of the paths that are wanted. -/
def shallower (p q : List Name) : Bool :=
  decide (p.length < q.length) || (decide (p.length = q.length) && decide (PurePath.join p ≤ PurePath.join q))

/-! ### The two loops -/

variable (env : Environment) (source destination : List Name)

/-- One turn of the loop over the obsolete paths. -/
def removeObsolete (d : Disk) (relative : List Name) : Except Fault Disk := do
  let path := destination ++ relative
  let here ← d.visit path
  d.removeIf env path (pathExists env d.tree path here || isSymlink here)

def syncLink (d : Disk) (target : List Name) (text : List UInt8) : Except Fault Disk := do
  let here ← d.visit target
  if linkText here = some text then .ok d
  else
    d.removeIf env target (pathExists env d.tree target here || isSymlink here) >>= fun d =>
      d.symlinkTo target text

def syncDirectory (d : Disk) (target : List Name) : Except Fault Disk := do
  let here ← d.visit target
  let d ← d.removeIf env target
    (isSymlink here || (pathExists env d.tree target here && !isDir env d.tree target here))
  d.mkdir target

def syncFile (d : Disk) (target : List Name) (mode : Nat) (bytes : List UInt8) : Except Fault Disk := do
  let here ← d.visit target
  let d ← d.removeIf env target
    (isSymlink here || (pathExists env d.tree target here && !isFile env d.tree target here))
  match ← d.visit target with
  | none => d.copy target mode bytes
  | some (.leaf (.file mode' bytes')) =>
    if bytes ≠ bytes' ∨ mode ≠ mode' then d.copy target mode bytes else .ok d
  | some (.leaf (.link _)) => .error .astray
  | some .directory => .error .isDirectory

/-- One turn of the loop over the wanted paths. -/
def syncOne (d : Disk) (relative : List Name) : Except Fault Disk := do
  match ← d.visit (source ++ relative) with
  | some (.leaf (.link text)) => syncLink env d (destination ++ relative) text
  | some .directory => syncDirectory env d (destination ++ relative)
  | some (.leaf (.file mode bytes)) => syncFile env d (destination ++ relative) mode bytes
  | none => .error .missing

/-- `sync_tree` of resolved paths. -/
def syncTree (d : Disk) : Except Fault Disk :=
  if d.tree.lookup source ≠ some .directory then .error .notFound
  else if destination <+: source ∨ source <+: destination then .error .overlap
  else do
    let wanted := entries d.tree source
    let d ← d.mkdirs [] destination
    let obsolete := (entries d.tree destination).filter (· ∉ wanted)
    let d ← ((env.order obsolete).mergeSort fun p q => q.length ≤ p.length).foldlM
      (removeObsolete env destination) d
    ((env.order wanted).mergeSort shallower).foldlM (syncOne env source destination) d

end LashOs.SourceTree
