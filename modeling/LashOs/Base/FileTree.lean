import Mathlib.Logic.Function.Basic
import LashOs.Base.Path

/-!
# File trees

The nodes below one directory, by their paths. A directory that is open is known by its path
too: every step to it was a real directory, never a symbolic link. Names that are longer than
a limit of the file system are refused.
-/
namespace Base

abbrev FileName : Type := List UInt8

inductive Node where
  | file (mode : Nat) (bytes : List UInt8)
  | directory (mode : Nat)
  -- A symbolic link or a special file.
  | other
  deriving DecidableEq, Repr

inductive TreeError where
  | exists_ | missing | notDirectory | nameTooLong
  deriving DecidableEq, Repr

abbrev FileTree : Type := List FileName → Option Node

namespace FileTree

def empty (mode : Nat) : FileTree := fun path => if path = [] then some (.directory mode) else none

def put (t : FileTree) (path : List FileName) (node : Node) : FileTree :=
  Function.update t path (some node)

@[simp] theorem put_same (t : FileTree) (path : List FileName) (node : Node) :
    t.put path node path = some node := by simp [put]

theorem put_other (t : FileTree) {path other : List FileName} (node : Node) (differs : other ≠ path) :
    t.put path node other = t other := by simp [put, differs]

/-- A node where there is none: a directory or an empty file. -/
def make (t : FileTree) (nameMax : Nat) (directory : List FileName) (name : FileName) (node : Node) :
    Except TreeError FileTree :=
  if name.length > nameMax then .error .nameTooLong
  else if (t (directory ++ [name])).isSome then .error .exists_
  else .ok (t.put (directory ++ [name]) node)

/-- A node where there is none; what is there stays. -/
def ensure (t : FileTree) (path : List FileName) (node : Node) : FileTree :=
  if t path = none then t.put path node else t

/-- A node at a path below a directory, with the directories that it needs. -/
def plant (mode : Nat) (node : Node) : FileTree → List FileName → List FileName → FileTree
  | t, _, [] => t
  | t, directory, [part] => t.put (directory ++ [part]) node
  | t, directory, part :: more =>
    plant mode node (t.ensure (directory ++ [part]) (.directory mode)) (directory ++ [part]) more

/-- Opens a directory without following a link. -/
def enter (t : FileTree) (nameMax : Nat) (directory : List FileName) (name : FileName) :
    Except TreeError FileTree :=
  if name.length > nameMax then .error .nameTooLong
  else
    match t (directory ++ [name]) with
    | some (.directory _) => .ok t
    | some _ => .error .notDirectory
    | none => .error .missing

/-- Writes at the end of a file. -/
def append (t : FileTree) (path : List FileName) (data : List UInt8) : FileTree :=
  match t path with
  | some (.file mode bytes) => t.put path (.file mode (bytes ++ data))
  | _ => t

theorem make_eq_ok {t t' : FileTree} {nameMax : Nat} {directory : List FileName} {name : FileName}
    {node : Node} (made : t.make nameMax directory name node = .ok t') :
    t (directory ++ [name]) = none ∧ t' = t.put (directory ++ [name]) node := by
  unfold make at made
  split at made
  · cases made
  · split at made
    · cases made
    next absent =>
      cases made
      exact ⟨by simpa using absent, rfl⟩

theorem enter_eq_ok {t t' : FileTree} {nameMax : Nat} {directory : List FileName} {name : FileName}
    (entered : t.enter nameMax directory name = .ok t') : t' = t := by
  unfold enter at entered
  split at entered
  · cases entered
  · split at entered
    · cases entered
      rfl
    · cases entered
    · cases entered

theorem append_put (t : FileTree) (path : List FileName) (mode : Nat) (bytes data : List UInt8) :
    (t.put path (.file mode bytes)).append path data = t.put path (.file mode (bytes ++ data)) := by
  simp [append, put]

theorem ensure_other (t : FileTree) {path other : List FileName} (node : Node)
    (differs : other ≠ path) : t.ensure path node other = t other := by
  unfold ensure
  split
  · exact put_other t node differs
  · rfl

theorem ensure_same (t : FileTree) (path : List FileName) (node : Node) :
    t.ensure path node path = some ((t path).getD node) := by
  unfold ensure
  split
  next absent => simp [absent]
  next there =>
    obtain ⟨found, shape⟩ := Option.ne_none_iff_exists'.mp there
    simp [shape]

/-- A path of which another one is the first half, and that is longer, starts with the next
component. -/
theorem snoc_prefix_iff {directory rest path : List FileName} {part : FileName}
    (differs : path ≠ directory ++ [part]) (onWay : path <+: directory ++ part :: rest) :
    (directory ++ [part] <+: path ∧ path ≠ directory ++ [part]) ↔
      (directory <+: path ∧ path ≠ directory) := by
  constructor
  · rintro ⟨starts, _⟩
    refine ⟨(List.prefix_append directory [part]).trans starts, ?_⟩
    rintro rfl
    have longer := starts.length_le
    rw [List.length_append, List.length_singleton] at longer
    omega
  · rintro ⟨starts, more⟩
    refine ⟨?_, differs⟩
    have whole : directory ++ [part] <+: directory ++ part :: rest := by simp
    rcases List.prefix_or_prefix_of_prefix whole onWay with first | second
    · exact first
    · -- Otherwise the path stands between the directory and its child.
      have longer : directory.length < path.length :=
        Nat.lt_of_le_of_ne starts.length_le fun same => more (starts.eq_of_length same).symm
      have same : path.length = (directory ++ [part]).length := by
        have shorter := second.length_le
        simp only [List.length_append, List.length_singleton] at shorter ⊢
        omega
      exact absurd (second.eq_of_length same) differs

theorem plant_cons (mode : Nat) (node : Node) (t : FileTree) (directory : List FileName)
    (part next : FileName) (rest : List FileName) :
    plant mode node t directory (part :: next :: rest) =
      plant mode node (t.ensure (directory ++ [part]) (.directory mode)) (directory ++ [part])
        (next :: rest) := rfl

theorem plant_apply (mode : Nat) (node : Node) (t : FileTree) (directory parts : List FileName)
    (more : parts ≠ []) (path : List FileName) :
    plant mode node t directory parts path =
      if path = directory ++ parts then some node
      else if (directory <+: path ∧ path ≠ directory) ∧ path <+: directory ++ parts ∧ t path = none then
        some (.directory mode)
      else t path := by
  fun_induction plant mode node t directory parts with
  | case1 => exact absurd rfl more
  | case2 t directory part =>
    by_cases here : path = directory ++ [part]
    · simp [here]
    · rw [if_neg here, put_other t node here, if_neg]
      rintro ⟨between, onWay, _⟩
      have child := (snoc_prefix_iff here onWay).mpr between
      exact here (onWay.eq_of_length (Nat.le_antisymm onWay.length_le child.1.length_le))
  | case3 t directory part rest last ih =>
    rw [ih (by simpa using last), List.append_assoc, List.singleton_append]
    by_cases here : path = directory ++ part :: rest
    · rw [if_pos here, if_pos here]
    rw [if_neg here, if_neg here]
    by_cases child : path = directory ++ [part]
    · subst child
      rcases there : t (directory ++ [part]) with _ | found
      · simp [ensure_same, there]
      · simp [ensure_same, there]
    · rw [ensure_other t _ child]
      by_cases onWay : path <+: directory ++ part :: rest
      · simp only [onWay, true_and, snoc_prefix_iff child onWay]
      · simp [onWay]

/-! ### Growth -/

/-- Nothing that was there has changed, and what is new has an allowed path. -/
def Grows (allowed : List FileName → Prop) (t t' : FileTree) : Prop :=
  ∀ path, t' path ≠ t path → t path = none ∧ allowed path

variable {allowed : List FileName → Prop} {t t' t'' : FileTree}

theorem Grows.refl (allowed : List FileName → Prop) (t : FileTree) : Grows allowed t t :=
  fun _ differs => absurd rfl differs

theorem Grows.trans (first : Grows allowed t t') (second : Grows allowed t' t'') :
    Grows allowed t t'' := by
  intro path differs
  by_cases same : t' path = t path
  · rw [← same] at differs ⊢
    exact second path differs
  · exact first path same

theorem Grows.put {path : List FileName} (absent : t path = none) (good : allowed path)
    (node : Node) : Grows allowed t (t.put path node) := by
  intro other differs
  by_cases same : other = path
  · exact same ▸ ⟨absent, good⟩
  · exact absurd (put_other t node same) differs

end FileTree

end Base
