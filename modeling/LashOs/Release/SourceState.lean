import LashOs.Base.Forest
import LashOs.Base.Listing

/-!
# The source of a build

`source_state` of `workspace.py` records the revision of the checkout and the content of every path
that git reports as changed; `source_differences` compares such a record with a later commit.
Strings are lists of code points, and paths are taken as `os.fsdecode` gives them. A commit and the
working tree are trees of files and links; what git stores of a link is its text. What a path leads
to behind a link is a choice of the environment, and so is what git prints.
-/
namespace LashOs.Release

open Base

abbrev Text : Type := List Nat

def text (s : String) : Text := s.toList.map Char.toNat

abbrev Tree : Type := Forest Text FileLeaf

/-! ### Files -/

def slash : Nat := 47

def names (path : Text) : List Text := path.splitOn slash

def content : FileLeaf → List UInt8
  | .file _ bytes => bytes
  | .link target => target

def fileAt (tree : Tree) (path : Text) : Option (List UInt8) :=
  match tree.lookup (names path) with
  | some (.leaf leaf) => some (content leaf)
  | some .directory => none
  | none => none

/-- The identifiers of objects: they tell blobs apart, and a blob from a tree. -/
structure ObjectIds (ι : Type) where
  blob : List UInt8 → ι
  tree : Tree → ι
  blob_injective : ∀ {first second : List UInt8}, blob first = blob second → first = second
  blob_ne_tree : ∀ (bytes : List UInt8) (t : Tree), blob bytes ≠ tree t

/-- What `Path.is_symlink` and `Path.is_file` find at a path. -/
inductive Seen where
  | link (target : List UInt8)
  | file (bytes : List UInt8)
  | other
  deriving DecidableEq, Repr

/-- The checkout while the program is built. The output of a git command is missing if it fails. A
path through a link leads to what `beyond` says, and at an `unreadable` path a call fails. -/
structure Checkout where
  head : Option Text
  status : Option Text
  work : Tree
  beyond : Text → Seen
  unreadable : Text → Bool

/-- The commits when the record is compared, and what `git diff` prints for two of them. -/
structure History where
  commits : Text → Option Tree
  diff : Text → Text → Option Text

/-- `OSError` and `CalledProcessError`, or an index out of range. -/
inductive Failure where
  | command | index
  deriving DecidableEq, Repr

/-- The dictionary `changed`, in the order of its assignments. -/
abbrev Changed (ι : Type) : Type := List (Text × Option ι)

/-- What `source_state` returns. -/
structure State (ι : Type) where
  revision : Option Text
  changed : Option (Changed ι)
  deriving DecidableEq

section

variable {ι : Type} (ids : ObjectIds ι) (checkout : Checkout) (history : History)

/-- The object that a commit has at a path, a directory's among them. -/
def objectAt (tree : Tree) (path : Text) : Option ι :=
  match tree.lookup (names path) with
  | none => none
  | some (.leaf leaf) => some (ids.blob (content leaf))
  | some .directory => (tree.subtree (names path)).map ids.tree

/-- `git rev-parse revision:path` -/
def committedBlob (revision path : Text) : Option ι :=
  match history.commits revision with
  | none => none
  | some tree => objectAt ids tree path

/-! ### Recording -/

/-- What is found at `Path(root) / path`, which the system resolves through links. -/
def seen (path : Text) : Seen :=
  if checkout.work.throughLink (names path) then checkout.beyond path
  else
    match checkout.work.lookup (names path) with
    | some (.leaf (.link target)) => .link target
    | some (.leaf (.file _ bytes)) => .file bytes
    | some .directory => .other
    | none => .other

/-- The value that `changed[path]` gets. -/
def recordedBlob (path : Text) : Option ι :=
  match seen checkout path with
  | .link target => some (ids.blob target)
  | .file bytes => some (ids.blob bytes)
  | .other => none

/-- One assignment to `changed[path]`. -/
def assign (changed : Changed ι) (path : Text) : Except Failure (Changed ι) :=
  if checkout.unreadable path then .error .command
  else .ok (changed ++ [(path, recordedBlob ids checkout path)])

/-- `for path in paths` -/
def assignAll : Changed ι → List Text → Except Failure (Changed ι)
  | changed, [] => .ok changed
  | changed, path :: paths =>
    match assign ids checkout changed path with
    | .error failure => .error failure
    | .ok changed => assignAll changed paths

/-- The letters of a record that has a second path. -/
def movedLetters : List Nat := text "RC"

/-- `record[0] in "RC" or record[1] in "RC"` -/
def moved : Text → Except Failure Bool
  | [] => .error .index
  | x :: rest =>
    if x ∈ movedLetters then .ok true
    else
      match rest with
      | [] => .error .index
      | y :: _ => .ok (decide (y ∈ movedLetters))

/-- The loop over the fields of `git status`. -/
def changedLoop : List Text → Changed ι → Except Failure (Changed ι)
  | [], changed => .ok changed
  | record :: rest, changed =>
    if record = [] then .ok changed
    else
      match moved record with
      | .error failure => .error failure
      | .ok false =>
        match assignAll ids checkout changed [record.drop 3] with
        | .error failure => .error failure
        | .ok changed => changedLoop rest changed
      | .ok true =>
        match rest with
        | [] => .error .index
        | orig :: rest =>
          match assignAll ids checkout changed [record.drop 3, orig] with
          | .error failure => .error failure
          | .ok changed => changedLoop rest changed

def sourceState : Except Failure (State ι) :=
  match checkout.head, checkout.status with
  | some revision, some output =>
    match changedLoop ids checkout (output.splitOn 0) [] with
    | .ok changed => .ok ⟨some revision, some changed⟩
    | .error .command => .ok ⟨none, none⟩
    | .error .index => .error .index
  | _, _ => .ok ⟨none, none⟩

/-! ### Comparing -/

def documentation (path : Text) : Bool :=
  (text ".md").isSuffixOf path || (text "docs/").isPrefixOf path

def notRecorded : Text := text "<build source was not recorded>"

def unknownRevision (revision : Text) : Text := text "<unknown build revision " ++ revision ++ text ">"

/-- The content that a path is taken to have had when the program was built. -/
def expectedBlob (built : Text) (changed : Changed ι) (path : Text) : Option ι :=
  match changed.lookup path with
  | some recorded => recorded
  | none => committedBlob ids history built path

def sourceDifferences [DecidableEq ι] (state : State ι) (revision : Text) : List Text :=
  match state.revision, state.changed with
  | some built, some changed =>
    if built = [] then [notRecorded]
    else
      match history.diff built revision with
      | none => [unknownRevision built]
      | some output =>
        (sortedSet (changed.map Prod.fst ++ (output.splitOn 0).filter (· ≠ []))).filter fun path =>
          expectedBlob ids history built changed path ≠ committedBlob ids history revision path ∧
            documentation path = false
  | _, _ => [notRecorded]

end

/-! ### What git prints -/

/-- One record of `git status --porcelain=v1 -z`: two letters, a path, and the path from which a
file was renamed or copied. -/
structure StatusEntry where
  x : Nat
  y : Nat
  path : Text
  orig : Option Text
  deriving DecidableEq, Repr

namespace StatusEntry

def isMoved (e : StatusEntry) : Bool := decide (e.x ∈ movedLetters) || decide (e.y ∈ movedLetters)

def fields (e : StatusEntry) : List Text := (e.x :: e.y :: 32 :: e.path) :: e.orig.toList

def paths (e : StatusEntry) : List Text := e.path :: e.orig.toList

/-- A second path is there when a letter says so, and there is no NUL within a field. -/
structure WellFormed (e : StatusEntry) : Prop where
  second : e.orig.isSome = e.isMoved
  plain : ∀ field ∈ e.fields, 0 ∉ field

instance (e : StatusEntry) : Decidable e.WellFormed :=
  decidable_of_iff (e.orig.isSome = e.isMoved ∧ ∀ field ∈ e.fields, 0 ∉ field)
    ⟨fun ⟨second, plain⟩ => ⟨second, plain⟩, fun wellFormed => ⟨wellFormed.second, wellFormed.plain⟩⟩

end StatusEntry

def listed (entries : List StatusEntry) : List Text := entries.flatMap StatusEntry.paths

/-- The output of a git command that prints fields. -/
def printed (fields : List Text) : Text := terminateAll 0 fields

/-- `git status` and `git diff` print what they should: the first every path with a content that is
not the one of the commit, the second every path of which two commits have different contents, and
only paths of files. -/
structure Prints (checkout : Checkout) (history : History) (built revision : Text) (old new : Tree)
    (entries : List StatusEntry) (changes : List Text) : Prop where
  head : checkout.head = some built
  named : built ≠ []
  first : history.commits built = some old
  second : history.commits revision = some new
  status : checkout.status = some (printed (entries.flatMap StatusEntry.fields))
  wellFormed : ∀ e ∈ entries, e.WellFormed
  covers : ∀ path, fileAt checkout.work path ≠ fileAt old path → path ∈ listed entries
  diff : history.diff built revision = some (printed changes)
  plain : ∀ path ∈ changes, path ≠ [] ∧ 0 ∉ path
  differs : ∀ path, fileAt old path ≠ fileAt new path → path ∈ changes
  files : ∀ path ∈ changes, fileAt old path ≠ none ∨ fileAt new path ≠ none

end LashOs.Release
