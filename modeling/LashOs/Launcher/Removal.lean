import LashOs.Base.Forest
import LashOs.Base.Ownership

/-!
# Removing the private files

`remove_contents` walks the launcher's private directory and unlinks every entry. It ignores the
kernel's refusals, so what is left is not a matter of success or failure of the whole: it is what
was refused, with the directories that lead there. The same holds for its descriptors: the copy
that `fdopendir` does not accept is not closed.
-/
namespace LashOs.Launcher

open Base Base.Forest

variable {ν α : Type}

/-- What the kernel refuses, by the path from the directory that is emptied. -/
structure Refusals (ν : Type) where
  -- `dup` of its descriptor, or `fdopendir` of the copy.
  list : List ν → Bool
  -- It was `fdopendir` that was refused, and there is a copy.
  copied : List ν → Bool
  -- `openat` of the directory.
  opened : List ν → Bool
  -- `unlinkat` of the entry.
  unlink : List ν → Bool

/-- The same, by the path from the directory `name`. -/
def Refusals.below (r : Refusals ν) (name : ν) : Refusals ν where
  list p := r.list (name :: p)
  copied p := r.copied (name :: p)
  opened p := r.opened (name :: p)
  unlink p := r.unlink (name :: p)

def Refusals.none : Refusals ν :=
  ⟨fun _ => false, fun _ => false, fun _ => false, fun _ => false⟩

/-- `unlinkat` with `AT_REMOVEDIR`: a directory goes when it is empty and this is not refused. -/
def removeDirectory (refused : Bool) (name : ν) (inner rest : Forest ν α) : Forest ν α :=
  if inner.names.isEmpty && !refused then rest else .directory name inner rest

/-- The loop of `remove_contents` over what `readdir` returns. -/
def removeEntries (r : Refusals ν) : Forest ν α → Forest ν α
  | .nil => .nil
  | .leaf name a rest =>
    -- A link does not open as a directory and is unlinked like a file.
    if r.unlink [name] then .leaf name a (removeEntries r rest) else removeEntries r rest
  | .directory name inner rest =>
    -- A directory that does not open is not removed by `unlinkat` without `AT_REMOVEDIR`.
    if r.opened [name] then .directory name inner (removeEntries r rest)
    else removeDirectory (r.unlink [name]) name
      (if r.list [name] then inner else removeEntries (r.below name) inner) (removeEntries r rest)

def removeContents (r : Refusals ν) (f : Forest ν α) : Forest ν α :=
  if r.list [] then f else removeEntries r f

variable {r : Refusals ν}

theorem removeEntries_directory {name : ν} (opens : r.opened [name] = false)
    (inner rest : Forest ν α) :
    removeEntries r (.directory name inner rest) =
      removeDirectory (r.unlink [name]) name (removeContents (r.below name) inner)
        (removeEntries r rest) := by
  rw [removeEntries, opens]
  rfl

theorem removeEntries_none (f : Forest ν α) : removeEntries Refusals.none f = .nil := by
  induction f with
  | nil => rfl
  | leaf name a rest ih => simpa [removeEntries, Refusals.none] using ih
  | directory name inner rest inside ih =>
    have left : removeContents (Refusals.none.below name) inner = .nil := inside
    rw [removeEntries_directory rfl, left]
    exact ih

theorem removeContents_none (f : Forest ν α) : removeContents Refusals.none f = .nil :=
  removeEntries_none f

theorem mem_names_removeEntries {f : Forest ν α} {n : ν} (member : n ∈ (removeEntries r f).names) :
    n ∈ f.names := by
  -- An entry stays in front of what is left of the others, or goes.
  have kept {name : ν} {left rest : List ν} (fewer : n ∈ left → n ∈ rest) :
      n ∈ name :: left → n ∈ name :: rest := by
    intro member
    rcases List.mem_cons.mp member with same | later
    · exact same ▸ List.mem_cons_self
    · exact List.mem_cons_of_mem _ (fewer later)
  induction f with
  | nil => exact member
  | leaf name a rest ih =>
    rw [removeEntries] at member
    split at member
    · exact kept ih member
    · exact List.mem_cons_of_mem _ (ih member)
  | directory name inner rest _ ih =>
    cases opens : r.opened [name] with
    | true =>
      rw [removeEntries, if_pos opens] at member
      exact kept ih member
    | false =>
      rw [removeEntries_directory opens, removeDirectory] at member
      split at member
      · exact List.mem_cons_of_mem _ (ih member)
      · exact kept ih member

/-! ### Descriptors -/

section Descriptors

variable {β : Type} (entry copy : β)

/-- The descriptors behind `remove_contents` of a directory that could not be listed. -/
def unlisted (copied : Bool) (d : Fds β) : Fds β := if copied then (d.allocate 0 copy).2 else d

/-- The table behind the loop of `remove_contents`. Each directory that opens has a descriptor
`entry`, and `readdir` works on a `copy` of it. -/
def walkEntries (r : Refusals ν) : Forest ν α → Fds β → Fds β
  | .nil, d => d
  | .leaf _ _ rest, d => walkEntries r rest d
  | .directory name inner rest, d =>
    if r.opened [name] then walkEntries r rest d
    else
      let (sub, d) := d.allocate 0 entry
      let d :=
        if r.list [name] then unlisted copy (r.copied [name]) d
        else
          let (dir, d) := d.allocate 0 copy
          (walkEntries (r.below name) inner d).close dir
      walkEntries r rest (d.close sub)

/-- The table behind `remove_contents`. -/
def walkContents (r : Refusals ν) (f : Forest ν α) (d : Fds β) : Fds β :=
  if r.list [] then unlisted copy (r.copied []) d
  else
    let (dir, d) := d.allocate 0 copy
    (walkEntries entry copy r f d).close dir

open Holder

variable {entry copy}

theorem unlisted_grows (copied : Bool) (d : Fds β) : Grows copy d (unlisted copy copied d) := by
  rw [unlisted]
  split
  · exact .allocate copy d
  · exact .refl copy d

theorem walkEntries_grows (r : Refusals ν) (f : Forest ν α) (d : Fds β) :
    Grows copy d (walkEntries entry copy r f d) := by
  induction f generalizing r d with
  | nil => exact .refl copy d
  | leaf name a rest ih => exact ih r d
  | directory name inner rest inside ih =>
    rw [walkEntries]
    split
    · exact ih r d
    · refine Grows.trans (Grows.bracket entry ?_) (ih r _)
      split
      · exact unlisted_grows _ _
      · exact Grows.bracket copy (inside (r.below name) _)

theorem walkContents_grows (entry copy : β) (r : Refusals ν) (f : Forest ν α) (d : Fds β) :
    Grows copy d (walkContents entry copy r f d) := by
  rw [walkContents]
  split
  · exact unlisted_grows _ _
  · exact Grows.bracket copy (walkEntries_grows r f _)

theorem close_allocate (d : Fds β) (file : β) {d' : Fds β}
    (same : d'.entry = (d.allocate 0 file).2.entry) :
    (d'.close (d.allocate 0 file).1).entry = d.entry := by
  funext n
  rw [Fds.entry_close, same]
  split
  next equal =>
    rw [equal]
    exact (Fds.isOpen_eq_false.mp (d.lowest_free 0)).symm
  next other => exact if_neg other

theorem walkEntries_entry (r : Refusals ν) (f : Forest ν α) (d : Fds β)
    (none_ : ∀ p, r.list p = true → r.copied p = false) :
    (walkEntries entry copy r f d).entry = d.entry := by
  induction f generalizing r d with
  | nil => rfl
  | leaf name a rest ih => exact ih r d none_
  | directory name inner rest inside ih =>
    rw [walkEntries]
    split
    · exact ih r d none_
    · refine (ih r _ none_).trans (close_allocate d entry ?_)
      split
      next refused => rw [unlisted, none_ _ refused]; rfl
      · exact close_allocate _ copy (inside (r.below name) _ fun p => none_ (name :: p))

theorem walkContents_entry (r : Refusals ν) (f : Forest ν α) (d : Fds β)
    (none_ : ∀ p, r.list p = true → r.copied p = false) :
    (walkContents entry copy r f d).entry = d.entry := by
  rw [walkContents]
  split
  next refused => rw [unlisted, none_ _ refused]; rfl
  · exact close_allocate d copy (walkEntries_entry r f _ none_)

end Descriptors

/-! ### What is left -/

variable [DecidableEq ν]

/-- The kernel keeps the entry at this path: its unlinking is refused, it is a directory that
does not open, or it is below a directory that does not open or is not listed. -/
structure Stuck (r : Refusals ν) (f : Forest ν α) (q : List ν) : Prop where
  below : q ≠ []
  there : f.lookup q ≠ .none
  reason : r.unlink q = true ∨ (f.lookup q = some .directory ∧ r.opened q = true) ∨
    ∃ d, d ≠ [] ∧ d <+: q ∧ d ≠ q ∧ (r.opened d = true ∨ r.list d = true)

theorem stuck_rest {f rest : Forest ν α} {n : ν} {q : List ν}
    (same : ∀ p, f.lookup (n :: p) = rest.lookup (n :: p)) :
    Stuck r f (n :: q) ↔ Stuck r rest (n :: q) := by
  constructor
  · rintro ⟨below, there, reason⟩
    rw [same] at there reason
    exact ⟨below, there, reason⟩
  · rintro ⟨below, there, reason⟩
    rw [← same] at there reason
    exact ⟨below, there, reason⟩

theorem stuck_leaf {name : ν} {a : α} {rest : Forest ν α} {q : List ν} :
    Stuck r (.leaf name a rest) (name :: q) ↔ q = [] ∧ r.unlink [name] = true := by
  constructor
  · rintro ⟨-, there, reason⟩
    have last : q = [] := by
      by_contra more
      simp [lookup, more] at there
    subst last
    refine ⟨rfl, ?_⟩
    rcases reason with refused | ⟨directory, -⟩ | ⟨d, nonempty, inside, other, -⟩
    · exact refused
    · simp [lookup] at directory
    · rcases List.prefix_cons_iff.mp inside with rfl | ⟨t, rfl, empty⟩
      · exact absurd rfl nonempty
      · rw [List.prefix_nil.mp empty] at other
        exact absurd rfl other
  · rintro ⟨rfl, refused⟩
    exact ⟨by simp, by simp [lookup], .inl refused⟩

variable {inner rest : Forest ν α}

theorem stuck_directory_self {name : ν} :
    Stuck r (.directory name inner rest) [name] ↔
      r.opened [name] = true ∨ r.unlink [name] = true := by
  constructor
  · rintro ⟨-, -, refused | ⟨-, refused⟩ | ⟨d, nonempty, inside, other, -⟩⟩
    · exact .inr refused
    · exact .inl refused
    · rcases List.prefix_cons_iff.mp inside with rfl | ⟨t, rfl, empty⟩
      · exact absurd rfl nonempty
      · rw [List.prefix_nil.mp empty] at other
        exact absurd rfl other
  · rintro (refused | refused)
    · exact ⟨by simp, by simp [lookup], .inr (.inl ⟨by simp [lookup], refused⟩)⟩
    · exact ⟨by simp, by simp [lookup], .inl refused⟩

/-- What is inside is kept when the directory is not walked, or for a reason of its own. -/
theorem stuck_directory {name : ν} {q : List ν} (below : q ≠ []) :
    Stuck r (.directory name inner rest) (name :: q) ↔
      inner.lookup q ≠ .none ∧ (r.opened [name] = true ∨ r.list [name] = true) ∨
      Stuck (r.below name) inner q := by
  have found : (Forest.directory name inner rest).lookup (name :: q) = inner.lookup q := by
    simp [lookup]
  constructor
  · rintro ⟨-, there, reason⟩
    rw [found] at there reason
    rcases reason with refused | ⟨directory, refused⟩ | ⟨d, nonempty, inside, other, refused⟩
    · exact .inr ⟨below, there, .inl refused⟩
    · exact .inr ⟨below, there, .inr (.inl ⟨directory, refused⟩)⟩
    · rcases List.prefix_cons_iff.mp inside with rfl | ⟨t, rfl, within⟩
      · exact absurd rfl nonempty
      · by_cases first : t = []
        · subst first
          exact .inl ⟨there, refused⟩
        · have proper : t ≠ q := fun same => other (same ▸ rfl)
          exact .inr ⟨below, there, .inr (.inr ⟨t, first, within, proper, refused⟩)⟩
  · rintro (⟨there, refused⟩ | ⟨-, there, reason⟩)
    · refine ⟨by simp, found ▸ there, .inr (.inr ⟨[name], by simp, ?_, ?_, refused⟩)⟩
      · simp
      · simpa using below.symm
    · refine ⟨by simp, found ▸ there, ?_⟩
      rw [found]
      rcases reason with refused | ⟨directory, refused⟩ | ⟨d, nonempty, inside, other, refused⟩
      · exact .inl refused
      · exact .inr (.inl ⟨directory, refused⟩)
      · refine .inr (.inr ⟨name :: d, by simp, ?_, ?_, refused⟩)
        · exact List.prefix_cons_iff.mpr (.inr ⟨d, rfl, inside⟩)
        · simpa using other

/-- An entry is left when it, or something below it, is kept. -/
def Left (r : Refusals ν) (f : Forest ν α) (p : List ν) : Prop := ∃ q, p <+: q ∧ Stuck r f q

theorem left_rest {f rest : Forest ν α} {n : ν} {p : List ν}
    (same : ∀ p, f.lookup (n :: p) = rest.lookup (n :: p)) :
    Left r f (n :: p) ↔ Left r rest (n :: p) := by
  constructor
  all_goals
    rintro ⟨q, inside, stuck⟩
    obtain ⟨t, rfl⟩ := inside
    refine ⟨_, ⟨t, rfl⟩, ?_⟩
  · exact (stuck_rest same).mp stuck
  · exact (stuck_rest same).mpr stuck

theorem names_isEmpty_iff {f : Forest ν α} :
    f.names.isEmpty = true ↔ ∀ n q, f.lookup (n :: q) = .none := by
  rw [List.isEmpty_iff]
  constructor
  · intro empty n q
    exact lookup_of_fresh (by simp [empty]) q
  · intro absent
    rw [List.eq_nil_iff_forall_not_mem]
    intro n member
    exact mem_names_iff.mp member (absent n [])

theorem left_of_closed {n : ν} {p : List ν} (closed : r.opened [n] = true)
    (there : inner.lookup p ≠ .none) : Left r (.directory n inner rest) (n :: p) := by
  refine ⟨n :: p, List.prefix_refl _, ?_⟩
  by_cases last : p = []
  · exact last ▸ stuck_directory_self.mpr (.inl closed)
  · exact (stuck_directory last).mpr (.inl ⟨there, .inl closed⟩)

section Directory

variable {r : Refusals ν} {n : ν} {inner rest : Forest ν α}

theorem lookup_inside (rest : Forest ν α) (opens : r.opened [n] = false)
    (walked : ∀ {k : ν} {q : List ν} {e : Entry α},
      (removeEntries (r.below n) inner).lookup (k :: q) = some e ↔
        inner.lookup (k :: q) = some e ∧ Left (r.below n) inner (k :: q))
    {k : ν} {q : List ν} {e : Entry α} :
    (removeContents (r.below n) inner).lookup (k :: q) = some e ↔
      inner.lookup (k :: q) = some e ∧ Left r (.directory n inner rest) (n :: k :: q) := by
  by_cases unlisted : (r.below n).list [] = true
  · rw [removeContents, if_pos unlisted]
    refine ⟨fun found => ⟨found, n :: k :: q, List.prefix_refl _, ?_⟩, And.left⟩
    exact (stuck_directory (by simp)).mpr (.inl ⟨by simp [found], .inr unlisted⟩)
  · rw [removeContents, if_neg unlisted, walked]
    refine and_congr_right fun _ => ?_
    constructor
    · rintro ⟨t, ⟨u, rfl⟩, stuck⟩
      exact ⟨_, ⟨u, rfl⟩, (stuck_directory (by simp)).mpr (.inr stuck)⟩
    · rintro ⟨t, ⟨u, rfl⟩, stuck⟩
      refine ⟨_, ⟨u, rfl⟩, ?_⟩
      rcases (stuck_directory (by simp)).mp stuck with ⟨-, closed | refused⟩ | stuck
      · rw [opens] at closed
        cases closed
      · exact absurd refused unlisted
      · exact stuck

/-- The directory itself stays when something is left in it or its removal is refused. -/
theorem left_self {left : Forest ν α} (opens : r.opened [n] = false)
    (within : ∀ {k : ν} {q : List ν} {e : Entry α}, left.lookup (k :: q) = some e ↔
      inner.lookup (k :: q) = some e ∧ Left r (.directory n inner rest) (n :: k :: q)) :
    Left r (.directory n inner rest) [n] ↔
      ¬ (left.names.isEmpty && !r.unlink [n]) = true := by
  rw [Bool.and_eq_true, names_isEmpty_iff, not_and_or]
  constructor
  · rintro ⟨_, ⟨t, rfl⟩, stuck⟩
    cases t with
    | nil =>
      rcases stuck_directory_self.mp stuck with closed | refused
      · rw [opens] at closed
        cases closed
      · simp [refused]
    | cons k t =>
      -- The entry that is kept is found among what is left.
      have there : (Forest.directory n inner rest).lookup (n :: k :: t) ≠ .none := stuck.there
      rw [lookup, if_pos rfl] at there
      obtain ⟨e, found⟩ := Option.ne_none_iff_exists'.mp there
      have still := within.mpr ⟨found, _, List.prefix_refl _, stuck⟩
      refine .inl fun empty => ?_
      rw [empty] at still
      cases still
  · rintro (more | refused)
    · simp only [not_forall] at more
      obtain ⟨k, t, there⟩ := more
      obtain ⟨e, found⟩ := Option.ne_none_iff_exists'.mp there
      obtain ⟨-, q, ⟨u, rfl⟩, stuck⟩ := within.mp found
      exact ⟨_, ⟨k :: t ++ u, by simp⟩, stuck⟩
    · refine ⟨[n], List.prefix_refl _, stuck_directory_self.mpr (.inr ?_)⟩
      simpa using refused

end Directory

theorem lookup_removeDirectory_of_ne {refused : Bool} {n name : ν} (other : n ≠ name)
    (inner rest : Forest ν α) (p : List ν) :
    (removeDirectory refused name inner rest).lookup (n :: p) = rest.lookup (n :: p) := by
  rw [removeDirectory]
  split
  · rfl
  · simp [lookup, other]

/-- What a walk leaves: the old entries that are kept, with the directories above them. -/
theorem lookup_removeEntries {f : Forest ν α} (valid : f.Valid) {n : ν} {p : List ν} {e : Entry α} :
    (removeEntries r f).lookup (n :: p) = some e ↔
      f.lookup (n :: p) = some e ∧ Left r f (n :: p) := by
  -- By induction on the tree: what `readdir` returns first is treated here, the rest by `ih`.
  induction f generalizing r n p e with
  | nil => simp [removeEntries, lookup]
  | leaf name a rest ih =>
    by_cases first : n = name
    · subst first
      have gone : (removeEntries r rest).lookup (n :: p) = .none :=
        lookup_of_fresh (fun member => valid.1 (mem_names_removeEntries member)) p
      have left : Left r (.leaf n a rest) (n :: p) ↔ p = [] ∧ r.unlink [n] = true := by
        constructor
        · rintro ⟨_, ⟨t, rfl⟩, stuck⟩
          have kept := stuck_leaf.mp stuck
          exact ⟨(List.append_eq_nil_iff.mp kept.1).1, kept.2⟩
        · rintro ⟨rfl, refused⟩
          exact ⟨[n], List.prefix_refl _, stuck_leaf.mpr ⟨rfl, refused⟩⟩
      rw [left, removeEntries]
      by_cases refused : r.unlink [n] = true
      · by_cases last : p = [] <;> simp [refused, lookup, last]
      · simp [refused, gone]
    · have same : ∀ p, (Forest.leaf name a rest).lookup (n :: p) = rest.lookup (n :: p) := by
        simp [lookup, first]
      rw [left_rest same, same, ← ih valid.2, removeEntries]
      split
      · simp [lookup, first]
      · rfl
  | directory name inner rest inside ih =>
    by_cases first : n = name
    · subst first
      have gone : (removeEntries r rest).lookup (n :: p) = .none :=
        lookup_of_fresh (fun member => valid.1 (mem_names_removeEntries member)) p
      have found : (Forest.directory n inner rest).lookup (n :: p) = inner.lookup p := by
        simp [lookup]
      rw [found]
      cases opens : r.opened [n] with
      | true =>
        rw [removeEntries, if_pos opens, lookup, if_pos rfl]
        exact ⟨fun there => ⟨there, left_of_closed opens (by simp [there])⟩, And.left⟩
      | false =>
        have within {k : ν} {q : List ν} {e : Entry α} :
            (removeContents (r.below n) inner).lookup (k :: q) = some e ↔
              inner.lookup (k :: q) = some e ∧ Left r (.directory n inner rest) (n :: k :: q) :=
          lookup_inside rest opens (inside valid.2.1)
        rw [removeEntries_directory opens, removeDirectory]
        cases p with
        | nil =>
          rw [left_self opens within]
          split
          next empty => simp [gone, empty]
          next stays => simp [lookup, stays]
        | cons k q =>
          rw [← within]
          split
          next empty =>
            rw [Bool.and_eq_true, names_isEmpty_iff] at empty
            simp [gone, empty.1]
          next => simp [lookup]
    · have same : ∀ p, (Forest.directory name inner rest).lookup (n :: p) = rest.lookup (n :: p) := by
        simp [lookup, first]
      rw [left_rest same, same, ← ih valid.2.2]
      cases opens : r.opened [name] with
      | true => simp [removeEntries, opens, lookup, first]
      | false => rw [removeEntries_directory opens, lookup_removeDirectory_of_ne first]

/-- `remove_contents` leaves exactly the entries that the kernel keeps, unchanged, and the
directories above them. -/
theorem lookup_removeContents {r : Refusals ν} {f : Forest ν α} (valid : f.Valid) {p : List ν}
    (below : p ≠ []) {e : Entry α} :
    (removeContents r f).lookup p = some e ↔
      f.lookup p = some e ∧ (r.list [] = true ∨ Left r f p) := by
  obtain ⟨n, q, rfl⟩ := List.exists_cons_of_ne_nil below
  by_cases unlisted : r.list [] = true
  · simp [removeContents, unlisted]
  · rw [removeContents, if_neg unlisted, lookup_removeEntries valid]
    simp [unlisted]

/-- One of two files in a directory is not unlinked, so the directory stays with it. -/
theorem lookup_removeContents_one_refused :
    let r : Refusals Nat := { Refusals.none with unlink := fun p => p = [1, 2] }
    let f : Forest Nat Nat := .directory 1 (.leaf 2 0 (.leaf 3 0 .nil)) (.leaf 4 0 .nil)
    f.Valid ∧ Left r f [1] ∧ ¬ Left r f [1, 3] := by
  intro r f
  have valid : f.Valid := by simp [f, Valid, names]
  have kept := (lookup_removeContents (r := r) valid (p := [1]) (by simp) (e := .directory)).mp
    (by decide)
  refine ⟨valid, kept.2.resolve_left (by decide), fun left => ?_⟩
  have there := (lookup_removeContents (r := r) valid (p := [1, 3]) (by simp) (e := .leaf 0)).mpr
    ⟨by decide, .inr left⟩
  revert there
  decide

end LashOs.Launcher
