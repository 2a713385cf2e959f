import LashOs.Release.SourceState

/-!
# Provenance of a release

A program may be released as built from a commit if `source_differences` lists nothing. The list is
right for every path that git lists, apart from those that had no file when the program was built
and where a call that is meant for files finds something else: `rev-parse` finds a directory of the
commit, or the path led through a link to a file elsewhere.
-/
namespace LashOs.Release

open Base

variable {ι : Type} {ids : ObjectIds ι} {checkout : Checkout} {history : History}

/-! ### What is recorded -/

theorem moved_record (e : StatusEntry) :
    moved (e.x :: e.y :: 32 :: e.path) = .ok e.isMoved := by
  rw [moved, StatusEntry.isMoved]
  split
  next first => rw [decide_eq_true first, Bool.true_or]
  next first => rw [decide_eq_false first, Bool.false_or]

/-- What `changed` is after the assignments for some paths. -/
def recordAll (ids : ObjectIds ι) (checkout : Checkout) (paths : List Text) : Changed ι :=
  paths.map fun path => (path, recordedBlob ids checkout path)

theorem assignAll_eq (changed : Changed ι) (paths : List Text) :
    assignAll ids checkout changed paths =
      if ∀ path ∈ paths, checkout.unreadable path = false then
        .ok (changed ++ recordAll ids checkout paths)
      else .error .command := by
  induction paths generalizing changed with
  | nil => simp [assignAll, recordAll]
  | cons path paths ih =>
    rw [assignAll, assign]
    cases readable : checkout.unreadable path with
    | true => simp [readable]
    | false => simp [readable, ih, recordAll]

theorem assignAll_append (changed : Changed ι) (first second : List Text) :
    assignAll ids checkout changed (first ++ second) =
      match assignAll ids checkout changed first with
      | .error failure => .error failure
      | .ok changed => assignAll ids checkout changed second := by
  induction first generalizing changed with
  | nil => rfl
  | cons path first ih =>
    rw [List.cons_append, assignAll, assignAll]
    cases assign ids checkout changed path with
    | error failure => rfl
    | ok changed => exact ih changed

theorem changedLoop_entry {e : StatusEntry} (wellFormed : e.WellFormed) (rest : List Text)
    (changed : Changed ι) :
    changedLoop ids checkout (e.fields ++ rest) changed =
      match assignAll ids checkout changed e.paths with
      | .error failure => .error failure
      | .ok changed => changedLoop ids checkout rest changed := by
  have second := wellFormed.second
  rw [StatusEntry.fields, StatusEntry.paths, List.cons_append, changedLoop.eq_def]
  dsimp only
  rw [if_neg (List.cons_ne_nil _ _), moved_record]
  -- A second field follows exactly if a letter of the record announces it.
  cases orig : e.orig with
  | none =>
    rw [orig] at second
    rw [← second]
    rfl
  | some source =>
    rw [orig] at second
    rw [← second]
    rfl

variable {entries : List StatusEntry}

theorem changedLoop_eq (wellFormed : ∀ e ∈ entries, e.WellFormed) (changed : Changed ι) :
    changedLoop ids checkout (entries.flatMap StatusEntry.fields ++ [[]]) changed =
      assignAll ids checkout changed (listed entries) := by
  induction entries generalizing changed with
  | nil => rfl
  | cons e entries ih =>
    obtain ⟨first, others⟩ := List.forall_mem_cons.mp wellFormed
    rw [listed, List.flatMap_cons, List.flatMap_cons, List.append_assoc, changedLoop_entry first,
      assignAll_append]
    cases assignAll ids checkout changed e.paths with
    | error failure => rfl
    | ok changed => exact ih others changed

theorem sourceState_eq {built : Text} (head : checkout.head = some built)
    (status : checkout.status = some (printed (entries.flatMap StatusEntry.fields)))
    (wellFormed : ∀ e ∈ entries, e.WellFormed) :
    sourceState ids checkout =
      .ok (if ∀ path ∈ listed entries, checkout.unreadable path = false then
        ⟨some built, some (recordAll ids checkout (listed entries))⟩
      else ⟨none, none⟩) := by
  have plain : ∀ field ∈ entries.flatMap StatusEntry.fields, 0 ∉ field := by
    intro field member
    obtain ⟨e, here, inside⟩ := List.mem_flatMap.mp member
    exact (wellFormed e here).plain field inside
  rw [sourceState, head, status]
  dsimp only
  rw [printed, splitOn_terminateAll plain, changedLoop_eq wellFormed, assignAll_eq]
  by_cases readable : ∀ path ∈ listed entries, checkout.unreadable path = false
  · rw [if_pos readable, if_pos readable]
    rfl
  · rw [if_neg readable, if_neg readable]

/-! ### What is compared -/

theorem objectAt_cases (ids : ObjectIds ι) (tree : Tree) (path : Text) :
    (∃ bytes, fileAt tree path = some bytes ∧ tree.lookup (names path) ≠ some .directory ∧
        objectAt ids tree path = some (ids.blob bytes)) ∨
      (fileAt tree path = none ∧ tree.lookup (names path) = some .directory ∧
        ∃ inner, objectAt ids tree path = some (ids.tree inner)) ∨
      (fileAt tree path = none ∧ tree.lookup (names path) = none ∧
        objectAt ids tree path = none) := by
  rw [fileAt, objectAt]
  cases found : tree.lookup (names path) with
  | none => exact .inr (.inr ⟨rfl, rfl, rfl⟩)
  | some entry =>
    cases entry with
    | leaf leaf => exact .inl ⟨content leaf, rfl, by simp, rfl⟩
    | directory =>
      obtain ⟨inner, below⟩ := Forest.lookup_eq_directory.mp found
      exact .inr (.inl ⟨rfl, rfl, inner, by rw [below]; rfl⟩)

variable {path : Text} {bytes : List UInt8}

theorem blob_ne_objectAt_iff {tree : Tree} :
    some (ids.blob bytes) ≠ objectAt ids tree path ↔ some bytes ≠ fileAt tree path := by
  rcases objectAt_cases ids tree path with
    ⟨stored, file, -, object⟩ | ⟨file, -, inner, object⟩ | ⟨file, -, object⟩
  · rw [file, object, ne_eq, ne_eq, Option.some_inj, Option.some_inj]
    exact not_congr ⟨ids.blob_injective, congrArg ids.blob⟩
  · simp [file, object, ids.blob_ne_tree]
  · simp [file, object]

theorem recordedBlob_of_file (here : fileAt checkout.work path = some bytes) :
    recordedBlob ids checkout path = some (ids.blob bytes) := by
  cases found : checkout.work.lookup (names path) with
  | none => simp [fileAt, found] at here
  | some entry =>
    have direct : checkout.work.throughLink (names path) = false :=
      Forest.throughLink_of_found (by simp [found])
    rw [recordedBlob, seen, direct, found]
    rw [fileAt, found] at here
    cases entry with
    | directory => cases here
    | leaf leaf =>
      cases here
      cases leaf <;> rfl

/-- A path had no file when the program was built, but a call that is meant for files finds
something else: `rev-parse` finds a directory of the commit, or the working tree has a link on the
way, and the file it leads to is the one of the commit or is where the commit has none. -/
def Misjudged (checkout : Checkout) (new : Tree) (path : Text) : Prop :=
  fileAt checkout.work path = none ∧
    match seen checkout path with
    | .other => new.lookup (names path) = some .directory
    | .file bytes | .link bytes => fileAt new path = none ∨ fileAt new path = some bytes

theorem none_ne_objectAt_iff {tree : Tree} :
    (none ≠ objectAt ids tree path ↔ none ≠ fileAt tree path) ↔
      tree.lookup (names path) ≠ some .directory := by
  rcases objectAt_cases ids tree path with
    ⟨bytes, file, entry, object⟩ | ⟨file, entry, inner, object⟩ | ⟨file, entry, object⟩
  · simp [file, entry, object]
  · simp [file, entry, object]
  · simp [file, entry, object]

theorem elsewhere_ne_iff {stored : Option (List UInt8)} :
    (some bytes ≠ stored ↔ none ≠ stored) ↔ ¬(stored = none ∨ stored = some bytes) := by
  cases stored with
  | none => simp
  | some found => simp [eq_comm]

theorem recordedBlob_ne_iff {new : Tree} :
    (recordedBlob ids checkout path ≠ objectAt ids new path ↔
      fileAt checkout.work path ≠ fileAt new path) ↔ ¬Misjudged checkout new path := by
  cases here : fileAt checkout.work path with
  | some bytes =>
    -- There is no link on the way to a file of the working tree, so its own blob was recorded.
    have judged : ¬Misjudged checkout new path := by simp [Misjudged, here]
    rw [iff_true_right judged, recordedBlob_of_file here]
    exact blob_ne_objectAt_iff
  | none =>
    rw [Misjudged, here, recordedBlob, eq_self, true_and]
    -- There is no file, and what was recorded depends on what the system found instead.
    cases seen checkout path with
    | other => exact none_ne_objectAt_iff
    | file bytes =>
      rw [blob_ne_objectAt_iff]
      exact elsewhere_ne_iff
    | link target =>
      rw [blob_ne_objectAt_iff]
      exact elsewhere_ne_iff

theorem objectAt_ne_iff {old new : Tree} (file : fileAt old path ≠ none ∨ fileAt new path ≠ none) :
    objectAt ids old path ≠ objectAt ids new path ↔ fileAt old path ≠ fileAt new path := by
  rcases objectAt_cases ids old path with
    ⟨bytes, first, -, object⟩ | ⟨first, -, inner, object⟩ | ⟨first, -, object⟩
  · rw [object, first]
    exact blob_ne_objectAt_iff
  -- The first commit has no file, so that the second one has one, and its blob is compared.
  all_goals
    obtain ⟨bytes, second⟩ := Option.ne_none_iff_exists'.mp (file.resolve_left (· first))
    rw [ne_comm, ne_comm (a := fileAt old path)]
    rcases objectAt_cases ids new path with
      ⟨stored, third, -, found⟩ | ⟨third, -⟩ | ⟨third, -⟩
    · rw [found, third]
      exact blob_ne_objectAt_iff
    all_goals
      rw [third] at second
      cases second

/-! ### The list of differences -/

/-- The list is sorted, and it has the paths whose content in the working tree is not that of the
commit, but not the documentation. -/
structure Exact (work new : Tree) (differences : List Text) : Prop where
  sorted : differences.Pairwise (· < ·)
  mem_iff : ∀ path, path ∈ differences ↔
    documentation path = false ∧ fileAt work path ≠ fileAt new path

section

variable {built revision : Text} {old new : Tree} {entries : List StatusEntry}
  {changes : List Text}

theorem expectedBlob_eq (history : History) (built path : Text) (paths : List Text) :
    expectedBlob ids history built (recordAll ids checkout paths) path =
      if path ∈ paths then recordedBlob ids checkout path
      else committedBlob ids history built path := by
  rw [expectedBlob, recordAll, lookup_map_self]
  by_cases recorded : path ∈ paths
  · rw [if_pos recorded, if_pos recorded]
  · rw [if_neg recorded, if_neg recorded]

theorem changed_of_recorded
    (prints : Prints checkout history built revision old new entries changes)
    {changed : Changed ι}
    (recorded : sourceState ids checkout = .ok ⟨some built, some changed⟩) :
    changed = recordAll ids checkout (listed entries) := by
  rw [sourceState_eq prints.head prints.status prints.wellFormed] at recorded
  split at recorded
  · cases recorded
    rfl
  · cases recorded

variable [DecidableEq ι]

/-- What the list has when git prints what it should. -/
theorem mem_sourceDifferences
    (prints : Prints checkout history built revision old new entries changes) {path : Text} :
    path ∈ sourceDifferences ids history
        ⟨some built, some (recordAll ids checkout (listed entries))⟩ revision ↔
      documentation path = false ∧
        if path ∈ listed entries then
          recordedBlob ids checkout path ≠ objectAt ids new path
        else fileAt checkout.work path ≠ fileAt new path := by
  have keys : (recordAll ids checkout (listed entries)).map Prod.fst = listed entries := by
    simp [recordAll, Function.comp_def]
  have fields : ((printed changes).splitOn 0).filter (· ≠ []) = changes := by
    rw [printed, splitOn_terminateAll fun field member => (prints.plain field member).2,
      List.filter_append, List.filter_eq_self.mpr]
    · exact List.append_nil changes
    · exact fun field member => decide_eq_true (prints.plain field member).1
  rw [sourceDifferences]
  dsimp only
  rw [if_neg prints.named, prints.diff]
  dsimp only
  rw [fields, keys, List.mem_filter, mem_sortedSet, List.mem_append, expectedBlob_eq,
    committedBlob, committedBlob, prints.first, prints.second, decide_eq_true_iff]
  dsimp only
  by_cases recorded : path ∈ listed entries
  · rw [if_pos recorded, if_pos recorded]
    tauto
  · -- The working tree has at an unlisted path what the first commit has.
    have same : fileAt checkout.work path = fileAt old path := by
      by_contra differs
      exact recorded (prints.covers path differs)
    rw [if_neg recorded, if_neg recorded, same]
    constructor
    · rintro ⟨member, differs, code⟩
      exact ⟨code, (objectAt_ne_iff (prints.files path (member.resolve_left recorded))).mp differs⟩
    · rintro ⟨code, differs⟩
      have member := prints.differs path differs
      exact ⟨.inr member, (objectAt_ne_iff (prints.files path member)).mpr differs, code⟩

theorem pairwise_sourceDifferences
    (prints : Prints checkout history built revision old new entries changes)
    (changed : Changed ι) :
    (sourceDifferences ids history ⟨some built, some changed⟩ revision).Pairwise (· < ·) := by
  rw [sourceDifferences]
  dsimp only
  rw [if_neg prints.named, prints.diff]
  exact (pairwise_sortedSet _).filter _

theorem Exact.eq_nil_iff {work new : Tree} {differences : List Text}
    (exact : Exact work new differences) :
    differences = [] ↔ ∀ path, documentation path = false → fileAt work path = fileAt new path := by
  rw [List.eq_nil_iff_forall_not_mem]
  refine forall_congr' fun path => ?_
  rw [exact.mem_iff]
  tauto

/-- The list of differences is exact if and only if no path that `git status` lists is misjudged,
and then it is empty exactly if the program was built from the content of the commit. -/
theorem sourceDifferences_exact_iff
    (prints : Prints checkout history built revision old new entries changes)
    {changed : Changed ι}
    (recorded : sourceState ids checkout = .ok ⟨some built, some changed⟩) :
    (Exact checkout.work new
        (sourceDifferences ids history ⟨some built, some changed⟩ revision) ↔
      ∀ path ∈ listed entries, documentation path = false → ¬Misjudged checkout new path) ∧
    ((∀ path ∈ listed entries, documentation path = false → ¬Misjudged checkout new path) →
      (sourceDifferences ids history ⟨some built, some changed⟩ revision = [] ↔
        ∀ path, documentation path = false →
          fileAt checkout.work path = fileAt new path)) := by
  obtain rfl := changed_of_recorded prints recorded
  have exact_iff : Exact checkout.work new (sourceDifferences ids history
        ⟨some built, some (recordAll ids checkout (listed entries))⟩ revision) ↔
      ∀ path ∈ listed entries, documentation path = false → ¬Misjudged checkout new path := by
    constructor
    · intro exact path member code
      have correct := (mem_sourceDifferences prints).symm.trans (exact.mem_iff path)
      rw [if_pos member, and_congr_right_iff] at correct
      exact recordedBlob_ne_iff.mp (correct code)
    · intro judged
      refine ⟨pairwise_sourceDifferences prints _, fun path => ?_⟩
      rw [mem_sourceDifferences prints]
      refine and_congr_right fun code => ?_
      split
      next member => exact recordedBlob_ne_iff.mpr (judged path member code)
      next => exact Iff.rfl
  exact ⟨exact_iff, fun judged => (exact_iff.mpr judged).eq_nil_iff⟩

end

/-! ### Two builds -/

def plainIds : ObjectIds (List UInt8 ⊕ Tree) where
  blob := Sum.inl
  tree := Sum.inr
  blob_injective same := Sum.inl.inj same
  blob_ne_tree _ _ := Sum.inl_ne_inr

def twoCommits (old new : Tree) (changes : List Text) : History where
  commits revision :=
    if revision = text "R0" then some old else if revision = text "R" then some new else none
  diff _ _ := some (printed changes)

/-- A checkout without links at which every path can be read. -/
def cleanCheckout (work : Tree) (entries : List StatusEntry) : Checkout where
  head := some (text "R0")
  status := some (printed (entries.flatMap StatusEntry.fields))
  work := work
  beyond _ := .other
  unreadable _ := false

def files (tree : Tree) : List Text := tree.leaves.map [slash].intercalate

theorem mem_files {tree : Tree} (here : fileAt tree path = some bytes) : path ∈ files tree := by
  rw [fileAt] at here
  split at here
  next leaf found =>
    exact List.mem_map.mpr
      ⟨names path, Forest.mem_leaves_of_lookup found, List.intercalate_splitOn slash⟩
  · cases here
  · cases here

theorem mem_files_of_ne {first second : Tree} (differs : fileAt first path ≠ fileAt second path) :
    path ∈ files first ++ files second := by
  rw [List.mem_append]
  cases here : fileAt first path with
  | some bytes => exact .inl (mem_files here)
  | none =>
    rw [here] at differs
    obtain ⟨bytes, there⟩ := Option.ne_none_iff_exists'.mp differs.symm
    exact .inr (mem_files there)

theorem prints_twoCommits {work old new : Tree} {changes : List Text}
    (wellFormed : ∀ e ∈ entries, e.WellFormed) (covers : ∀ path ∈ files work ++ files old,
      fileAt work path ≠ fileAt old path → path ∈ listed entries)
    (plain : ∀ path ∈ changes, path ≠ [] ∧ 0 ∉ path)
    (differs : ∀ path ∈ files old ++ files new, fileAt old path ≠ fileAt new path → path ∈ changes)
    (present : ∀ path ∈ changes, fileAt old path ≠ none ∨ fileAt new path ≠ none) :
    Prints (cleanCheckout work entries) (twoCommits old new changes) (text "R0") (text "R")
      old new entries changes where
  head := rfl
  named := by decide
  first := rfl
  second := rfl
  status := rfl
  wellFormed := wellFormed
  covers path ne := covers path (mem_files_of_ne ne) ne
  diff := rfl
  plain := plain
  differs path ne := differs path (mem_files_of_ne ne) ne
  files := present

def oneFile (bytes : List UInt8) : Tree := .leaf (text "a") (.file 0o644 bytes) .nil

def oneDirectory : Tree := .directory (text "a") (.leaf (text "b") (.file 0o644 [1]) .nil) .nil

def editedEntries : List StatusEntry := [⟨32, 77, text "a", none⟩]

def replacedEntries : List StatusEntry :=
  [⟨32, 68, text "a", none⟩, ⟨63, 63, text "a/b", none⟩]

theorem prints_edited :
    Prints (cleanCheckout (oneFile [2]) editedEntries)
      (twoCommits (oneFile [1]) (oneFile [2]) [text "a"]) (text "R0") (text "R")
      (oneFile [1]) (oneFile [2]) editedEntries [text "a"] := by
  apply prints_twoCommits
  all_goals decide +kernel

theorem prints_replaced :
    Prints (cleanCheckout oneDirectory replacedEntries)
      (twoCommits (oneFile [1]) oneDirectory [text "a", text "a/b"]) (text "R0") (text "R")
      (oneFile [1]) oneDirectory replacedEntries [text "a", text "a/b"] := by
  apply prints_twoCommits
  all_goals decide +kernel

/-- A file is edited before the build and committed after it. -/
theorem editedFile_exact :
    sourceState plainIds (cleanCheckout (oneFile [2]) editedEntries) =
        .ok ⟨some (text "R0"), some [(text "a", some (.inl [2]))]⟩ ∧
      Exact (oneFile [2]) (oneFile [2])
        (sourceDifferences plainIds (twoCommits (oneFile [1]) (oneFile [2]) [text "a"])
          ⟨some (text "R0"), some [(text "a", some (.inl [2]))]⟩ (text "R")) := by
  have recorded : sourceState plainIds (cleanCheckout (oneFile [2]) editedEntries) =
      .ok ⟨some (text "R0"), some [(text "a", some (.inl [2]))]⟩ := by decide +kernel
  refine ⟨recorded, (sourceDifferences_exact_iff prints_edited recorded).1.mpr ?_⟩
  intro path member _ misjudged
  rw [List.mem_singleton.mp member] at misjudged
  exact absurd misjudged.1 (by decide +kernel)

/-- A file is replaced by a directory before the build, and the directory is committed after it.
The path of the file is listed, although the commit has what the program was built from. -/
theorem replacedFile_listed :
    Prints (cleanCheckout oneDirectory replacedEntries)
        (twoCommits (oneFile [1]) oneDirectory [text "a", text "a/b"]) (text "R0") (text "R")
        (oneFile [1]) oneDirectory replacedEntries [text "a", text "a/b"] ∧
      sourceState plainIds (cleanCheckout oneDirectory replacedEntries) =
        .ok ⟨some (text "R0"), some [(text "a", none), (text "a/b", some (.inl [1]))]⟩ ∧
      sourceDifferences plainIds
          (twoCommits (oneFile [1]) oneDirectory [text "a", text "a/b"])
          ⟨some (text "R0"), some [(text "a", none), (text "a/b", some (.inl [1]))]⟩
          (text "R") = [text "a"] ∧
      ¬Exact oneDirectory oneDirectory [text "a"] := by
  refine ⟨prints_replaced, by decide +kernel, by decide +kernel, fun exact => ?_⟩
  exact ((exact.mem_iff (text "a")).mp List.mem_cons_self).2 rfl

end LashOs.Release
