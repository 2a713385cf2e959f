import LashOs.Bundle.Containment

/-!
# What is bundled comes back

`build-sandbox.py` and `extract_bundle` share no code. If nothing fails, the files of a
bundle are found below the root directory, and nothing else.
-/
namespace LashOs.Bundle

open Base Path

/-! ### Operations that do not fail -/

section

variable {d : Disk} {v : Volume} {directory : List FileName} {part : FileName}

theorem perform_ok (calm : d.faults = []) (operation : Operation) (tree : FileTree)
    (spoiled : Fault → FileTree) :
    d.perform operation (.ok tree) spoiled =
      (.ok (), ⟨tree, [], d.log ++ [⟨operation, .ok ()⟩]⟩) := by
  simp [Disk.perform, calm]

theorem make_absent {t : FileTree} {nameMax : Nat} (fits : part.length ≤ nameMax)
    (absent : t (directory ++ [part]) = none) (node : Node) :
    t.make nameMax directory part node = .ok (t.put (directory ++ [part]) node) := by
  simp [FileTree.make, absent, Nat.not_lt.mpr fits]

theorem mkdirat_calm (directory : List FileName) (calm : d.faults = [])
    (fits : part.length ≤ v.nameMax) :
    ∃ result d', d.mkdirat v directory part = (result, d') ∧
      (result = .ok () ∨ result = .error .EEXIST) ∧ d'.faults = [] ∧
      d'.tree = d.tree.ensure (directory ++ [part]) (.directory (v.masked 0o700)) := by
  by_cases absent : d.tree (directory ++ [part]) = none
  · rw [Disk.mkdirat, make_absent fits absent, perform_ok calm]
    exact ⟨_, _, rfl, .inl rfl, rfl, by rw [FileTree.ensure, if_pos absent]⟩
  · refine ⟨.error .EEXIST, ⟨d.tree, [], d.log ++ [⟨.mkdir (directory ++ [part]), .error .EEXIST⟩]⟩,
      ?_, .inr rfl, rfl, by rw [FileTree.ensure, if_neg absent]⟩
    have found : (d.tree (directory ++ [part])).isSome := Option.isSome_iff_ne_none.mpr absent
    simp [Disk.mkdirat, Disk.perform, calm, FileTree.make, found, Nat.not_lt.mpr fits, treeErrno]

theorem enterat_calm (calm : d.faults = []) (fits : part.length ≤ v.nameMax) {mode : Nat}
    (there : d.tree (directory ++ [part]) = some (.directory mode)) :
    ∃ d', d.enterat v directory part = (.ok (), d') ∧ d'.faults = [] ∧ d'.tree = d.tree := by
  have entered : d.tree.enter v.nameMax directory part = .ok d.tree := by
    simp [FileTree.enter, there, Nat.not_lt.mpr fits]
  rw [Disk.enterat, entered, perform_ok calm]
  exact ⟨_, rfl, rfl, rfl⟩

theorem extractLast_calm (calm : d.faults = []) (fits : part.length ≤ v.nameMax)
    (absent : d.tree (directory ++ [part]) = none) (mode : Nat) (data : List UInt8) :
    ∃ d', extractLast v d directory part mode data = (.ok (), d') ∧ d'.faults = [] ∧
      d'.tree = d.tree.put (directory ++ [part]) (.file (v.masked mode) data) := by
  unfold extractLast
  rw [Disk.createat, make_absent fits absent, perform_ok calm]
  by_cases empty : data = []
  · subst empty
    simp only [Disk.writeAll, if_pos, Disk.closeFile, perform_ok]
    exact ⟨_, rfl, rfl, rfl⟩
  · simp only [Disk.writeAll, if_neg empty, Disk.closeFile, perform_ok, FileTree.append_put,
      List.nil_append]
    exact ⟨_, rfl, rfl, rfl⟩

end

/-- The directories on the way are there or can be made. -/
def Passable (t : FileTree) (directory parts : List FileName) : Prop :=
  ∀ path, directory <+: path ∧ path ≠ directory → path <+: directory ++ parts →
    path ≠ directory ++ parts → t path = none ∨ ∃ mode, t path = some (.directory mode)

section

variable (v : Volume) (mode : Nat) (data : List UInt8)

theorem extractParts_calm (directory parts : List FileName) (d : Disk) (calm : d.faults = [])
    (more : parts ≠ []) (fits : ∀ part ∈ parts, part.length ≤ v.nameMax)
    (absent : d.tree (directory ++ parts) = none) (way : Passable d.tree directory parts) :
    ∃ d', extractParts v mode data directory parts d = (.ok (), d') ∧ d'.faults = [] ∧
      d'.tree = d.tree.plant (v.masked 0o700) (.file (v.masked mode) data) directory parts := by
  induction parts generalizing directory d with
  | nil => exact absurd rfl more
  | cons part rest ih =>
    cases rest with
    | nil => exact extractLast_calm calm (fits part (by simp)) absent mode data
    | cons next rest =>
      have short := fits part (by simp)
      obtain ⟨result, d₁, make, accepted, calm₁, tree₁⟩ := mkdirat_calm directory calm short
      obtain ⟨found, there⟩ : ∃ found, d₁.tree (directory ++ [part]) = some (.directory found) := by
        rw [tree₁, FileTree.ensure_same]
        rcases way (directory ++ [part]) (by simp) (by simp) (by simp) with missing | ⟨m, found⟩
        · exact ⟨_, by rw [missing]; rfl⟩
        · exact ⟨m, by rw [found]; rfl⟩
      obtain ⟨d₂, enter, calm₂, tree₂⟩ := enterat_calm calm₁ short there
      have later : ∀ path, path ≠ directory ++ [part] → d₂.tree path = d.tree path := by
        intro path differs
        rw [tree₂, tree₁, FileTree.ensure_other _ _ differs]
      have absent₂ : d₂.tree (directory ++ [part] ++ next :: rest) = none := by
        rw [later _ (by simp), List.append_assoc]
        exact absent
      have way₂ : Passable d₂.tree (directory ++ [part]) (next :: rest) := by
        intro path below onWay notEnd
        rw [List.append_assoc] at onWay notEnd
        rw [later path below.2]
        exact way path ((FileTree.snoc_prefix_iff below.2 onWay).mp below) onWay notEnd
      obtain ⟨d₃, extract, calm₃, tree₃⟩ := ih (directory ++ [part]) d₂ calm₂ (by simp)
        (fun c member => fits c (by simp [member])) absent₂ way₂
      refine ⟨d₃, ?_, calm₃, ?_⟩
      · rw [extractParts, make]
        · simp only [accepted, if_true, enter, extract]
        · simp
      · rw [tree₃, tree₂, tree₁, FileTree.plant_cons]

theorem extractFile_calm (name : List UInt8) (d : Disk) (calm : d.faults = [])
    (fits : ∀ part ∈ components name, part.length ≤ v.nameMax)
    (absent : d.tree (components name) = none) (way : Passable d.tree [] (components name)) :
    ∃ d', extractFile v d name mode data = (.ok (), d') ∧ d'.faults = [] ∧
      d'.tree = d.tree.plant (v.masked 0o700) (.file (v.masked mode) data) [] (components name) := by
  unfold extractFile
  rw [Disk.duplicate, perform_ok calm]
  exact extractParts_calm v mode data [] (components name) _ rfl (components_ne_nil name) fits
    absent way

end

/-! ### The files of a bundle -/

/-- The tree holds exactly these files, and the directories that they need. -/
structure Unpacked (rootMode : Nat) (entries : List Entry) (t : FileTree) : Prop where
  root : t [] = some (.directory rootMode)
  files : ∀ e ∈ entries, t (components e.name) = some (.file e.mode e.data)
  directories : ∀ e ∈ entries, ∀ path, path ≠ [] → path <+: components e.name →
    path ≠ components e.name → t path = some (.directory 0o700)
  nothingElse : ∀ path, t path ≠ none → path = [] ∨ ∃ e ∈ entries, path <+: components e.name

/-- No file is in the way of another one. -/
def Apart (a b : Entry) : Prop :=
  ¬ components a.name <+: components b.name ∧ ¬ components b.name <+: components a.name

theorem unpacked_empty (rootMode : Nat) : Unpacked rootMode [] (FileTree.empty rootMode) where
  root := rfl
  files := by simp
  directories := by simp
  nothingElse := by
    intro path there
    by_contra differs
    simp_all [FileTree.empty]

section

variable {rootMode : Nat} {entries : List Entry} {t : FileTree} {e : Entry}

/-- One file more, if it is apart from the others. -/
theorem Unpacked.snoc (unpacked : Unpacked rootMode entries t) (apart : ∀ a ∈ entries, Apart a e) :
    Unpacked rootMode (entries ++ [e])
      (t.plant 0o700 (.file e.mode e.data) [] (components e.name)) := by
  have planted := FileTree.plant_apply 0o700 (.file e.mode e.data) t [] (components e.name)
    (components_ne_nil e.name)
  simp only [List.nil_append, List.nil_prefix, true_and, ne_eq] at planted
  constructor
  case root =>
    rw [planted, if_neg (components_ne_nil e.name).symm, if_neg (by simp), unpacked.root]
  case files =>
    simp only [List.forall_mem_append, List.forall_mem_singleton]
    constructor
    · intro a member
      have there := unpacked.files a member
      rw [planted, if_neg, if_neg, there]
      · simp [there]
      · intro same
        exact (apart a member).1 (same ▸ List.prefix_rfl)
    · rw [planted, if_pos rfl]
  case directories =>
    simp only [List.forall_mem_append, List.forall_mem_singleton]
    constructor
    · intro a member path more onWay notEnd
      have there := unpacked.directories a member path more onWay notEnd
      rw [planted, if_neg, if_neg, there]
      · simp [there]
      · rintro rfl
        exact (apart a member).2 onWay
    · intro path more onWay notEnd
      rw [planted, if_neg notEnd]
      by_cases missing : t path = none
      · rw [if_pos ⟨more, onWay, missing⟩]
      · -- A directory of an earlier file: that file itself is not on the way.
        rw [if_neg (by simp [missing])]
        obtain ⟨a, member, above⟩ := (unpacked.nothingElse path missing).resolve_left more
        apply unpacked.directories a member path more above
        rintro rfl
        exact (apart a member).1 onWay
  case nothingElse =>
    intro path there
    rw [planted] at there
    simp only [List.mem_append, List.mem_singleton]
    by_cases new : path <+: components e.name
    · exact .inr ⟨e, .inr rfl, new⟩
    · rw [if_neg (by rintro rfl; exact new List.prefix_rfl), if_neg (by simp [new])] at there
      rcases unpacked.nothingElse path there with root | ⟨a, member, onWay⟩
      · exact .inl root
      · exact .inr ⟨a, .inl member, onWay⟩

theorem Unpacked.free (unpacked : Unpacked rootMode entries t) (apart : ∀ a ∈ entries, Apart a e) :
    t (components e.name) = none ∧ Passable t [] (components e.name) := by
  constructor
  · by_contra there
    rcases unpacked.nothingElse _ there with root | ⟨a, member, onWay⟩
    · exact components_ne_nil e.name root
    · exact (apart a member).2 onWay
  · intro path below onWay notEnd
    by_cases missing : t path = none
    · exact .inl missing
    · right
      obtain ⟨a, member, above⟩ := (unpacked.nothingElse path missing).resolve_left below.2
      refine ⟨_, unpacked.directories a member path below.2 above ?_⟩
      rintro rfl
      exact (apart a member).1 onWay

end

theorem masked_private {v : Volume} (owner : v.umask &&& 0o700 = 0) {mode : Nat}
    (private_ : mode = regularMode ∨ mode = executableMode) : v.masked mode = mode := by
  have inside : mode &&& 0o700 = mode := by rcases private_ with rfl | rfl <;> decide
  have hidden : mode &&& v.umask = 0 := by
    rw [← inside, Nat.and_assoc, Nat.and_comm 0o700, owner, Nat.and_zero]
  rw [Volume.masked, hidden, Nat.xor_zero]

/-- The loop on entries that are apart, when some of them are there already. -/
theorem extractLoop_calm {v : Volume} {archive : List UInt8} {rootMode : Nat}
    (owner : v.umask &&& 0o700 = 0) (entries done : List Entry) (left pos : Nat) (d : Disk)
    (few : entries.length ≤ left) (at_ : archive.drop pos = archiveOf entries)
    (fits : ∀ e ∈ entries, ∀ c ∈ components e.name, c.length ≤ v.nameMax)
    (apart : (done ++ entries).Pairwise Apart) (calm : d.faults = [])
    (unpacked : Unpacked rootMode done d.tree) :
    ∃ d', extractLoop v archive (fun _ => false) left pos d = (some (.ok ()), d') ∧
      Unpacked rootMode (done ++ entries) d'.tree := by
  induction entries generalizing done left pos d with
  | nil =>
    have finished := parseEntry_terminator at_
    have room : ¬ sub64 archive.length pos < 16 := room_of_parse (by simp [finished])
    refine ⟨d, ?_, by simpa using unpacked⟩
    rw [extractLoop.eq_def, if_neg room, if_neg (by simp)]
    simp only [finished]
  | cons e entries ih =>
    obtain ⟨left, rfl⟩ : ∃ less, left = less + 1 := ⟨left - 1, by simp at few; omega⟩
    rw [archiveOf_cons] at at_
    have entry := parseEntry_encode e at_
    have before : ∀ a ∈ done, Apart a e := fun a member =>
      (List.pairwise_append.mp apart).2.2 a member e (by simp)
    obtain ⟨absent, way⟩ := unpacked.free before
    obtain ⟨d₁, extract, calm₁, tree₁⟩ :=
      extractFile_calm v e.mode e.data e.name d calm (fits e (by simp)) absent way
    have directory : v.masked 0o700 = 0o700 := masked_private owner (.inr rfl)
    rw [masked_private owner e.private_, directory] at tree₁
    obtain ⟨d₂, rest, unpacked₂⟩ := ih (done ++ [e]) left (pos + e.encode.length) d₁
      (by simpa using few) (drop_encode at_) (fun a member => fits a (by simp [member]))
      (by simpa using apart) calm₁ (tree₁ ▸ unpacked.snoc before)
    refine ⟨d₂, ?_, by simpa using unpacked₂⟩
    have room : ¬ sub64 archive.length pos < 16 := room_of_parse (by simp [entry])
    rw [extractLoop.eq_def, if_neg room, if_neg (by simp)]
    simp only [entry, extract, rest]

/-! ### The footer -/

def footerOf (offset packed size : Nat) : List UInt8 :=
  bundleMagic ++ (leBytes 8 offset ++ (leBytes 8 packed ++ leBytes 8 size))

theorem length_bundleMagic : bundleMagic.length = 16 := by decide

theorem length_footerOf (offset packed size : Nat) : (footerOf offset packed size).length = 40 := by
  simp [footerOf, length_bundleMagic]

theorem footerOf_fields {offset packed size : Nat} (first : offset < 2 ^ 64)
    (second : packed < 2 ^ 64) (third : size < 2 ^ 64) :
    slice (footerOf offset packed size) 0 16 = bundleMagic ∧
    leValue (slice (footerOf offset packed size) 16 8) = offset ∧
    leValue (slice (footerOf offset packed size) 24 8) = packed ∧
    leValue (slice (footerOf offset packed size) 32 8) = size := by
  have last : slice (leBytes 8 size) 0 8 = leBytes 8 size := by
    rw [slice, List.drop_zero, List.take_of_length_le (by simp)]
  simp (disch := simp [length_bundleMagic]) only [footerOf, slice_front, slice_behind,
    length_leBytes, length_bundleMagic, Nat.reduceSub, Nat.sub_self, last]
  exact ⟨trivial, leValue_leBytes 8 _ first, leValue_leBytes 8 _ second, leValue_leBytes 8 _ third⟩

theorem bundleOf_eq (codec : Codec) (base archive : List UInt8) :
    bundleOf codec base archive = base ++ (codec.compress archive ++
      footerOf base.length (codec.compress archive).length archive.length) := rfl

/-- What is read from the file that `build-sandbox.py` wrote. -/
theorem extractBundle_bundleOf (codec : Codec) (v : Volume) (base archive : List UInt8)
    (interrupted : Nat → Bool) (d : Disk) (archived : archive.length < 2 ^ 64)
    (sized : (bundleOf codec base archive).length < 2 ^ 63) :
    extractBundle codec v (bundleOf codec base archive) interrupted d =
      if archive.length = 0 ∨ archive.length > maxArchive ∨ (codec.compress archive).length = 0 ∨
          (codec.compress archive).length > maxArchive then (some (.error .EINVAL), d)
      else extractLoop v archive interrupted maxEntries 0 d := by
  have whole := bundleOf_eq codec base archive
  generalize hpacked : codec.compress archive = compressed at whole ⊢
  have size : (bundleOf codec base archive).length = base.length + compressed.length + 40 := by
    simp [whole, length_footerOf, Nat.add_assoc]
  rw [size] at sized
  have footer : readAt (bundleOf codec base archive) ((bundleOf codec base archive).length - 40) 40 =
      some (footerOf base.length compressed.length archive.length) := by
    rw [readAt_inside (by omega), size, Nat.add_sub_cancel, whole, ← List.append_assoc,
      List.drop_left' (by simp), List.take_of_length_le (by rw [length_footerOf])]
  have packed : readAt (bundleOf codec base archive) base.length compressed.length = some compressed := by
    rw [readAt_inside (by omega), whole, List.drop_left' rfl, List.take_left' rfl]
  obtain ⟨magic, offset, length, archiveSize⟩ := footerOf_fields
    (by omega : base.length < 2 ^ 64) (by omega : compressed.length < 2 ^ 64) archived
  have inverts : codec.decompress compressed = some archive := hpacked ▸ codec.inverts archive
  unfold extractBundle
  simp only [footer, packed, magic, offset, length, archiveSize, inverts]
  rw [if_neg (by omega), size, Nat.add_sub_cancel, sub64_eq (by omega)]
  simp

theorem apart_of_names {entries : List Entry} (distinct : (entries.map Entry.name).Nodup)
    (separate : ∀ a ∈ entries, ∀ b ∈ entries, components a.name <+: components b.name →
      a.name = b.name) : entries.Pairwise Apart := by
  rw [List.Nodup, List.pairwise_map] at distinct
  refine distinct.imp_of_mem fun {a b} first second differs => ⟨?_, ?_⟩
  · exact fun above => differs (separate a first b second above)
  · exact fun above => differs (separate b second a first above).symm

/-- A bundle is extracted to its files. -/
theorem bundle_round_trip (codec : Codec) (v : Volume) (base : List UInt8) (entries : List Entry)
    (rootMode : Nat) (few : entries.length ≤ 1024) (distinct : (entries.map Entry.name).Nodup)
    (separate : ∀ a ∈ entries, ∀ b ∈ entries, components a.name <+: components b.name →
      a.name = b.name)
    (fits : ∀ e ∈ entries, ∀ c ∈ components e.name, c.length ≤ v.nameMax)
    (owner : v.umask &&& 0o700 = 0) (size : (archiveOf entries).length ≤ maxArchive)
    (nonempty : 1 ≤ (codec.compress (archiveOf entries)).length)
    (packed : (codec.compress (archiveOf entries)).length ≤ maxArchive)
    (fileSize : (bundleOf codec base (archiveOf entries)).length < 2 ^ 63) :
    ∃ d', extractBundle codec v (bundleOf codec base (archiveOf entries)) (fun _ => false)
        ⟨.empty rootMode, [], []⟩ = (some (.ok ()), d') ∧
      Unpacked rootMode entries d'.tree := by
  have archived : (archiveOf entries).length < 2 ^ 64 := lt_of_le_of_lt size (by decide)
  have some_ : (archiveOf entries).length ≠ 0 := by simp [archiveOf, terminator]
  rw [extractBundle_bundleOf codec v base _ _ _ archived fileSize, if_neg (by omega)]
  exact extractLoop_calm owner entries [] maxEntries 0 _ few rfl fits
    (apart_of_names distinct separate) rfl (unpacked_empty rootMode)

/-- A compression that only puts a byte in front. -/
def storedCodec : Codec where
  compress data := 0 :: data
  decompress data := if data = [] then none else some data.tail
  inverts := by simp

theorem length_stored (data : List UInt8) :
    (storedCodec.compress data).length = data.length + 1 := rfl

/-- The program `a/c`, without contents. -/
def emptyProgram : Entry where
  name := ascii "a/c"
  mode := executableMode
  data := []
  short := by decide
  free := by decide
  safe := by decide
  private_ := .inr rfl
  sized := by decide

/-- Two files of one directory. -/
theorem sharedDirectory_round_trip :
    ∃ d', extractBundle storedCodec ⟨255, 0o22⟩
        (bundleOf storedCodec [7, 7] (archiveOf [sampleEntry, emptyProgram])) (fun _ => false)
        ⟨.empty 0o755, [], []⟩ = (some (.ok ()), d') ∧
      Unpacked 0o755 [sampleEntry, emptyProgram] d'.tree :=
  bundle_round_trip storedCodec ⟨255, 0o22⟩ [7, 7] [sampleEntry, emptyProgram] 0o755 (by decide)
    (by decide) (by decide) (by decide) (by decide) (by decide) (by decide) (by decide) (by decide)

/-- A file with which the archive has just the size that is allowed. -/
def largeEntry : Entry where
  name := ascii "f"
  mode := regularMode
  data := List.replicate (maxArchive - 33) 0
  short := by decide
  free := by decide
  safe := by decide
  private_ := regular_private
  sized := by
    rw [List.length_replicate]
    decide

theorem length_largeArchive : (archiveOf [largeEntry]).length = maxArchive := by
  have name : largeEntry.name.length = 1 := by decide
  have data : largeEntry.data.length = maxArchive - 33 := List.length_replicate
  have room : 33 ≤ maxArchive := by decide
  simp only [archiveOf, List.flatMap_singleton, List.length_append, Entry.length_encode, name, data,
    terminator, List.length_replicate]
  omega

/-- What the compression adds makes a bundle that is refused, although its archive is not
too large. -/
theorem incompressible_refused :
    (archiveOf [largeEntry]).length ≤ maxArchive ∧
    (extractBundle storedCodec ⟨255, 0o22⟩ (bundleOf storedCodec [] (archiveOf [largeEntry]))
      (fun _ => false) ⟨.empty 0o700, [], []⟩).1 = some (.error .EINVAL) := by
  have size := length_largeArchive
  have packed : (storedCodec.compress (archiveOf [largeEntry])).length = maxArchive + 1 := by
    rw [length_stored, size]
  have fileSize : (bundleOf storedCodec [] (archiveOf [largeEntry])).length < 2 ^ 63 := by
    rw [bundleOf_eq, List.nil_append, List.length_append, packed, length_footerOf]
    decide
  have archived : (archiveOf [largeEntry]).length < 2 ^ 64 := by
    rw [size]
    decide
  have tooLarge : (storedCodec.compress (archiveOf [largeEntry])).length > maxArchive := by
    rw [packed]
    exact Nat.lt_succ_self maxArchive
  refine ⟨size.le, ?_⟩
  rw [extractBundle_bundleOf storedCodec _ [] _ _ _ archived fileSize,
    if_pos (.inr (.inr (.inr tooLarge)))]

end LashOs.Bundle
