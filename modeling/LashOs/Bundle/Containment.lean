import LashOs.Bundle.Extract

/-!
# What an extraction can touch

Whatever the archive holds and whatever the surroundings let fail: every operation of an
extraction is on a path of good components below the root, nothing that was there changes,
and the result is success exactly for the grammar of archives and operations that all
succeeded.
-/
namespace LashOs.Bundle

open Base Path

/-! ### Good operations -/

/-- Strictly below the root, along good components. -/
def BelowRoot (path : List FileName) : Prop := path ≠ [] ∧ ∀ c ∈ path, GoodName c

def Operation.Contained : Operation → Prop
  | .duplicate => True
  | .mkdir path | .enter path | .create path _ | .write path | .close path => BelowRoot path

/-- A result that counts as a success: `mkdirat` may find the directory. -/
def Operation.Accepts (operation : Operation) (result : Except Errno Unit) : Prop :=
  result = .ok () ∨ (∃ path, operation = .mkdir path) ∧ result = .error .EEXIST

def Event.Succeeded (e : Event) : Prop := e.operation.Accepts e.result

/-- A file is opened for writing only where nothing was. -/
def Event.Exclusive (e : Event) : Prop :=
  ∀ path found, e.operation = .create path found → e.result = .ok () → found = none

/-- The operations of a part of an extraction are contained, and all of them succeeded
exactly if the part did. -/
structure Logged (d d' : Disk) (events : List Event) (succeeded : Prop) : Prop where
  logged : d'.log = d.log ++ events
  contained : ∀ e ∈ events, e.operation.Contained
  exclusive : ∀ e ∈ events, e.Exclusive
  outcome : succeeded ↔ ∀ e ∈ events, e.Succeeded

/-- A part that moreover only adds to the tree. A write does not: its file was there. -/
structure Effect (d d' : Disk) (events : List Event) (succeeded : Prop) : Prop
    extends Logged d d' events succeeded where
  grows : FileTree.Grows BelowRoot d.tree d'.tree

section

variable {d d' d'' : Disk} {events more : List Event} {first second : Prop}

theorem Logged.nothing (d : Disk) : Logged d d [] True where
  logged := by simp
  contained := by simp
  exclusive := by simp
  outcome := by simp

theorem Logged.append (before : Logged d d' events first) (after : Logged d' d'' more second) :
    Logged d d'' (events ++ more) (first ∧ second) where
  logged := by rw [after.logged, before.logged, List.append_assoc]
  contained := List.forall_mem_append.mpr ⟨before.contained, after.contained⟩
  exclusive := List.forall_mem_append.mpr ⟨before.exclusive, after.exclusive⟩
  outcome := by rw [before.outcome, after.outcome, List.forall_mem_append]

theorem Logged.congr (part : Logged d d' events first) (same : first ↔ second) :
    Logged d d' events second := by
  rwa [← propext same]

theorem Effect.append (before : Effect d d' events first) (after : Effect d' d'' more second) :
    Effect d d'' (events ++ more) (first ∧ second) :=
  ⟨before.toLogged.append after.toLogged, before.grows.trans after.grows⟩

theorem Effect.congr (part : Effect d d' events first) (same : first ↔ second) :
    Effect d d' events second := by
  rwa [← propext same]

theorem Logged.single {operation : Operation} {result : Except Errno Unit}
    (logged : d'.log = d.log ++ [⟨operation, result⟩]) (contained : operation.Contained)
    (exclusive : (⟨operation, result⟩ : Event).Exclusive) :
    Logged d d' [⟨operation, result⟩] (operation.Accepts result) where
  logged := logged
  contained := by simpa using contained
  exclusive := by simpa using exclusive
  outcome := by simp [Event.Succeeded]

end

/-! ### The operations -/

section

variable (d : Disk) (operation : Operation) (attempt : Except TreeError FileTree)
  (spoiled : Fault → FileTree)

theorem perform_logged (contained : operation.Contained)
    (exclusive : ∀ path found, operation = .create path found → ∀ tree, attempt = .ok tree →
      found = none) :
    ∃ events, Logged d (d.perform operation attempt spoiled).2 events
      (operation.Accepts (d.perform operation attempt spoiled).1) := by
  unfold Disk.perform
  rcases d.faults.head?.join with _ | fault
  · rcases attempt with error | tree
    · refine ⟨_, .single rfl contained ?_⟩
      intro path found _ worked
      cases worked
    · refine ⟨_, .single rfl contained ?_⟩
      intro path found same _
      exact exclusive path found same tree rfl
  · refine ⟨_, .single rfl contained ?_⟩
    intro path found _ worked
    cases worked

theorem perform_tree :
    ((d.perform operation attempt spoiled).1 = .ok () ∧
      attempt = .ok (d.perform operation attempt spoiled).2.tree) ∨
    ((d.perform operation attempt spoiled).1 ≠ .ok () ∧
      ((d.perform operation attempt spoiled).2.tree = d.tree ∨
        ∃ fault, (d.perform operation attempt spoiled).2.tree = spoiled fault)) := by
  unfold Disk.perform
  rcases d.faults.head?.join with _ | fault
  · rcases attempt with error | tree
    · exact .inr ⟨nofun, .inl rfl⟩
    · exact .inl ⟨rfl, rfl⟩
  · exact .inr ⟨nofun, .inr ⟨fault, rfl⟩⟩

theorem accepts_iff (other : ∀ path, operation ≠ .mkdir path)
    (result : Except Errno Unit) : operation.Accepts result ↔ result = .ok () := by
  simp [Operation.Accepts, other]

theorem perform_still (contained : operation.Contained)
    (same : ∀ tree, attempt = .ok tree → tree = d.tree)
    (notCreate : ∀ path found, operation ≠ .create path found)
    (notMkdir : ∀ path, operation ≠ .mkdir path) :
    (d.perform operation attempt fun _ => d.tree).2.tree = d.tree ∧
      ∃ events, Logged d (d.perform operation attempt fun _ => d.tree).2 events
        ((d.perform operation attempt fun _ => d.tree).1 = .ok ()) := by
  constructor
  · rcases perform_tree d operation attempt fun _ => d.tree with ⟨_, made⟩ | ⟨_, kept | ⟨_, kept⟩⟩
    · exact same _ made
    · exact kept
    · exact kept
  · obtain ⟨events, part⟩ := perform_logged d operation attempt (fun _ => d.tree) contained
      fun path found create => absurd create (notCreate path found)
    exact ⟨events, part.congr (accepts_iff operation notMkdir _)⟩

end

theorem belowRoot_front {directory rest : List FileName} {part : FileName}
    (good : ∀ c ∈ directory ++ part :: rest, GoodName c) : BelowRoot (directory ++ [part]) := by
  simp only [List.forall_mem_append, List.forall_mem_cons] at good
  exact ⟨by simp, List.forall_mem_append.mpr ⟨good.1, by simpa using good.2.1⟩⟩

section

variable (v : Volume) (d : Disk) {directory : List FileName} {part : FileName}

theorem mkdirat_effect (below : BelowRoot (directory ++ [part])) :
    ∃ events, Effect d (d.mkdirat v directory part).2 events
      ((d.mkdirat v directory part).1 = .ok () ∨
        (d.mkdirat v directory part).1 = .error .EEXIST) := by
  obtain ⟨events, logged⟩ := perform_logged d (.mkdir (directory ++ [part]))
    (d.tree.make v.nameMax directory part (.directory (v.masked 0o700))) (fun _ => d.tree) below
    nofun
  refine ⟨events, logged.congr (by simp [Operation.Accepts, Disk.mkdirat]), ?_⟩
  rcases perform_tree d (.mkdir (directory ++ [part]))
    (d.tree.make v.nameMax directory part (.directory (v.masked 0o700))) fun _ => d.tree with
    ⟨_, made⟩ | ⟨_, kept | ⟨_, kept⟩⟩
  · obtain ⟨absent, new⟩ := FileTree.make_eq_ok made
    rw [Disk.mkdirat, new]
    exact .put absent below _
  · rw [Disk.mkdirat, kept]
    exact .refl BelowRoot d.tree
  · rw [Disk.mkdirat, kept]
    exact .refl BelowRoot d.tree

theorem enterat_effect (below : BelowRoot (directory ++ [part])) :
    ∃ events, Effect d (d.enterat v directory part).2 events
      ((d.enterat v directory part).1 = .ok ()) := by
  obtain ⟨kept, events, logged⟩ := perform_still d (.enter (directory ++ [part])) _ below
    (fun _ entered => FileTree.enter_eq_ok entered) nofun nofun
  refine ⟨events, logged, ?_⟩
  rw [Disk.enterat, kept]
  exact .refl BelowRoot d.tree

theorem duplicate_effect : ∃ events, Effect d d.duplicate.2 events (d.duplicate.1 = .ok ()) := by
  obtain ⟨kept, events, logged⟩ := perform_still d .duplicate (.ok d.tree) trivial
    (fun _ same => by cases same; rfl) nofun nofun
  refine ⟨events, logged, ?_⟩
  rw [Disk.duplicate, kept]
  exact .refl BelowRoot d.tree

theorem closeFile_logged {path : List FileName} (below : BelowRoot path) :
    (d.closeFile path).2.tree = d.tree ∧
      ∃ events, Logged d (d.closeFile path).2 events ((d.closeFile path).1 = .ok ()) :=
  perform_still d (.close path) _ below (fun _ same => by cases same; rfl) nofun nofun

theorem createat_logged (mode : Nat) (below : BelowRoot (directory ++ [part])) :
    ∃ events, Logged d (d.createat v directory part mode).2 events
      ((d.createat v directory part mode).1 = .ok ()) := by
  obtain ⟨events, logged⟩ := perform_logged d
    (.create (directory ++ [part]) (d.tree (directory ++ [part])))
    (d.tree.make v.nameMax directory part (.file (v.masked mode) [])) (fun _ => d.tree) below (by
      intro path found same tree made
      cases same
      exact (FileTree.make_eq_ok made).1)
  exact ⟨events, logged.congr (accepts_iff (.create _ _) nofun _)⟩

theorem createat_tree (directory : List FileName) (part : FileName) (mode : Nat) :
    ((d.createat v directory part mode).1 = .ok () ∧ d.tree (directory ++ [part]) = none ∧
      (d.createat v directory part mode).2.tree =
        d.tree.put (directory ++ [part]) (.file (v.masked mode) [])) ∨
    ((d.createat v directory part mode).1 ≠ .ok () ∧
      (d.createat v directory part mode).2.tree = d.tree) := by
  rcases perform_tree d (.create (directory ++ [part]) (d.tree (directory ++ [part])))
    (d.tree.make v.nameMax directory part (.file (v.masked mode) [])) fun _ => d.tree with
    ⟨worked, made⟩ | ⟨failed, kept | ⟨_, kept⟩⟩
  · exact .inl ⟨worked, FileTree.make_eq_ok made⟩
  · exact .inr ⟨failed, kept⟩
  · exact .inr ⟨failed, kept⟩

theorem writeAll_logged {path : List FileName} (below : BelowRoot path) (data : List UInt8) :
    ∃ events, Logged d (d.writeAll path data).2 events ((d.writeAll path data).1 = .ok ()) := by
  unfold Disk.writeAll
  split
  · exact ⟨[], (Logged.nothing d).congr (by simp)⟩
  · obtain ⟨events, logged⟩ := perform_logged d (.write path)
      (.ok (d.tree.append path data)) (fun fault => d.tree.append path (data.take fault.written))
      below nofun
    exact ⟨events, logged.congr (accepts_iff (.write path) nofun _)⟩

theorem writeAll_tree (path : List FileName) (data : List UInt8) :
    (d.writeAll path data).2.tree = d.tree ∨
      ∃ written, (d.writeAll path data).2.tree = d.tree.append path written := by
  unfold Disk.writeAll
  split
  · exact .inl rfl
  · rcases perform_tree d (.write path) (.ok (d.tree.append path data))
      (fun fault => d.tree.append path (data.take fault.written)) with
      ⟨_, made⟩ | ⟨_, kept | ⟨fault, kept⟩⟩
    · exact .inr ⟨data, (Except.ok.inj made).symm⟩
    · exact .inl kept
    · exact .inr ⟨_, kept⟩

end

/-! ### `extract_file` -/

section

variable (v : Volume) (mode : Nat) (data : List UInt8)

theorem extractLast_grows (d : Disk) {directory : List FileName} {part : FileName}
    (below : BelowRoot (directory ++ [part])) :
    FileTree.Grows BelowRoot d.tree (extractLast v d directory part mode data).2.tree := by
  unfold extractLast
  have created := createat_tree v d directory part mode
  rcases made : d.createat v directory part mode with ⟨result, d₁⟩
  rw [made] at created
  rcases created with ⟨rfl, absent, tree₁⟩ | ⟨failed, tree₁⟩
  · have written := writeAll_tree d₁ (directory ++ [part]) data
    rcases wrote : d₁.writeAll (directory ++ [part]) data with ⟨result, d₂⟩
    rw [wrote] at written
    have closed := (closeFile_logged d₂ below).1
    have file : ∃ bytes, d₂.tree = d.tree.put (directory ++ [part]) (.file (v.masked mode) bytes) := by
      simp only at tree₁ written
      rcases written with kept | ⟨bytes, appended⟩
      · exact ⟨[], by rw [kept, tree₁]⟩
      · exact ⟨bytes, by rw [appended, tree₁, FileTree.append_put, List.nil_append]⟩
    obtain ⟨bytes, tree₂⟩ := file
    have grown : FileTree.Grows BelowRoot d.tree d₂.tree := tree₂ ▸ .put absent below _
    simp only [wrote]
    rcases result with error | ⟨⟨⟩⟩
    · simpa only [closed] using grown
    · simpa only [closed] using grown
  · rcases result with error | ⟨⟨⟩⟩
    · rw [show d₁.tree = d.tree from tree₁]
      exact .refl BelowRoot d.tree
    · exact absurd rfl failed

theorem extractLast_effect (d : Disk) {directory : List FileName} {part : FileName}
    (below : BelowRoot (directory ++ [part])) :
    ∃ events, Effect d (extractLast v d directory part mode data).2 events
      ((extractLast v d directory part mode data).1 = .ok ()) := by
  suffices logged : ∃ events, Logged d (extractLast v d directory part mode data).2 events
      ((extractLast v d directory part mode data).1 = .ok ()) by
    obtain ⟨events, logged⟩ := logged
    exact ⟨events, logged, extractLast_grows v mode data d below⟩
  unfold extractLast
  obtain ⟨create, creates⟩ := createat_logged v d mode below
  rcases made : d.createat v directory part mode with ⟨result, d₁⟩
  rw [made] at creates
  rcases result with error | ⟨⟨⟩⟩
  · exact ⟨create, creates⟩
  obtain ⟨write, writes⟩ := writeAll_logged d₁ below data
  rcases wrote : d₁.writeAll (directory ++ [part]) data with ⟨result, d₂⟩
  rw [wrote] at writes
  obtain ⟨close, closes⟩ := (closeFile_logged d₂ below).2
  have whole := creates.append (writes.append closes)
  simp only [wrote]
  rcases result with error | ⟨⟨⟩⟩
  · exact ⟨_, whole.congr (by simp)⟩
  · exact ⟨_, whole.congr (by simp)⟩

theorem extractParts_effect (directory parts : List FileName) (d : Disk) (more : parts ≠ [])
    (good : ∀ c ∈ directory ++ parts, GoodName c) :
    ∃ events, Effect d (extractParts v mode data directory parts d).2 events
      ((extractParts v mode data directory parts d).1 = .ok ()) := by
  fun_induction extractParts v mode data directory parts d with
  | case1 => exact absurd rfl more
  | case2 directory part d => exact extractLast_effect v mode data d ⟨by simp, good⟩
  | case3 directory part rest d _ made d₁ mkdir accepted error d₂ enter =>
    have below := belowRoot_front good
    obtain ⟨_, makes⟩ := mkdirat_effect v d below
    obtain ⟨_, enters⟩ := enterat_effect v d₁ below
    rw [mkdir] at makes
    rw [enter] at enters
    exact ⟨_, (makes.append enters).congr (by simp)⟩
  | case4 directory part rest d last made d₁ mkdir accepted d₂ enter ih =>
    have below := belowRoot_front good
    obtain ⟨_, makes⟩ := mkdirat_effect v d below
    obtain ⟨_, enters⟩ := enterat_effect v d₁ below
    obtain ⟨_, follows⟩ := ih last (by simpa using good)
    rw [mkdir] at makes
    rw [enter] at enters
    exact ⟨_, ((makes.append enters).append follows).congr (by simp [accepted])⟩
  | case5 directory part rest d _ made d₁ mkdir refused =>
    obtain ⟨_, makes⟩ := mkdirat_effect v d (belowRoot_front good)
    rw [mkdir] at makes
    exact ⟨_, makes.congr (by simp_all)⟩

theorem components_ne_nil (name : List UInt8) : components name ≠ [] := List.splitOn_ne_nil _ _

theorem extractFile_effect (d : Disk) {name : List UInt8}
    (good : ∀ c ∈ components name, GoodName c) :
    ∃ events, Effect d (extractFile v d name mode data).2 events
      ((extractFile v d name mode data).1 = .ok ()) := by
  unfold extractFile
  obtain ⟨_, duplicates⟩ := duplicate_effect d
  rcases made : d.duplicate with ⟨result, d₁⟩
  rw [made] at duplicates
  rcases result with error | ⟨⟨⟩⟩
  · exact ⟨_, duplicates⟩
  · obtain ⟨_, follows⟩ := extractParts_effect v mode data [] (components name) d₁
      (components_ne_nil name) good
    exact ⟨_, (duplicates.append follows).congr (by simp)⟩

end

/-! ### `extract_bundle` -/

/-- The rest of the buffer is at most so many entries and the header of zeros. -/
def Accepted (archive : List UInt8) (left pos : Nat) : Prop :=
  ∃ entries : List Entry, entries.length ≤ left ∧ archive.drop pos = archiveOf entries

theorem archiveOf_cons (e : Entry) (entries : List Entry) :
    archiveOf (e :: entries) = e.encode ++ archiveOf entries := by
  simp [archiveOf]

section

variable {archive : List UInt8} {left pos : Nat}

theorem drop_encode {e : Entry} {more : List UInt8} (at_ : archive.drop pos = e.encode ++ more) :
    archive.drop (pos + e.encode.length) = more := by
  rw [← List.drop_drop, at_, List.drop_left]

theorem Accepted.parse (accepted : Accepted archive left pos) :
    parseEntry archive pos = .finished ∨
    ∃ e : Entry, ∃ less, left = less + 1 ∧
      parseEntry archive pos = .file e.name e.mode e.data (pos + e.encode.length) ∧
      Accepted archive less (pos + e.encode.length) := by
  obtain ⟨entries, few, at_⟩ := accepted
  cases entries with
  | nil => exact .inl (parseEntry_terminator at_)
  | cons e entries =>
    rw [archiveOf_cons] at at_
    right
    refine ⟨e, left - 1, ?_, parseEntry_encode e at_, entries, ?_, drop_encode at_⟩
    · rw [List.length_cons] at few
      omega
    · rw [List.length_cons] at few
      omega

theorem accepted_entry {e : Entry} (behind : Accepted archive left (pos + e.encode.length))
    {more : List UInt8} (at_ : archive.drop pos = e.encode ++ more) :
    Accepted archive (left + 1) pos := by
  obtain ⟨entries, few, rest⟩ := behind
  refine ⟨e :: entries, by simpa using few, ?_⟩
  rw [archiveOf_cons, ← rest, drop_encode at_, at_]

/-- The loop stayed inside of the buffer, it succeeded exactly if the grammar accepts the
rest and all its operations worked, and they were contained. -/
def Explained (archive : List UInt8) (left pos : Nat) (d : Disk)
    (outcome : Option (Except Errno Unit) × Disk) : Prop :=
  ∃ result events worked, outcome.1 = some result ∧ Effect d outcome.2 events worked ∧
    (result = .ok () ↔ Accepted archive left pos ∧ worked)

theorem Explained.stop (d : Disk) {result : Except Errno Unit}
    (outcome : result = .ok () ↔ Accepted archive left pos) :
    Explained archive left pos d (some result, d) :=
  ⟨result, [], True, rfl, ⟨.nothing d, .refl BelowRoot d.tree⟩, by simpa using outcome⟩

theorem Explained.refuse (d : Disk) (malformed : parseEntry archive pos = .malformed) :
    Explained archive left pos d (some (.error .EINVAL), d) := by
  apply Explained.stop
  constructor
  · intro impossible
    cases impossible
  · intro accepted
    rcases accepted.parse with finished | ⟨e, _, _, entry, _⟩
    · rw [malformed] at finished
      cases finished
    · rw [malformed] at entry
      cases entry

theorem extractLoop_explained (v : Volume) (small : archive.length < 2 ^ 64) (left pos : Nat)
    (inside : pos ≤ archive.length) (d : Disk) :
    Explained archive left pos d (extractLoop v archive (fun _ => false) left pos d) := by
  have sound := parseEntry_sound small inside
  fun_induction extractLoop v archive (fun _ => false) left pos d with
  | case1 left pos d short =>
    apply Explained.refuse
    rw [parseEntry, if_pos short]
  | case2 left pos d enough interrupted => cases interrupted
  | case3 left pos d _ _ outside =>
    rw [outside] at sound
    exact sound.elim
  | case4 left pos d _ _ finished =>
    rw [finished] at sound
    apply Explained.stop
    exact iff_of_true rfl ⟨[], Nat.zero_le _, sound⟩
  | case5 left pos d _ _ malformed => exact .refuse d malformed
  | case6 pos d _ _ _ _ _ entry =>
    apply Explained.stop
    constructor
    · intro impossible
      cases impossible
    · intro accepted
      rcases accepted.parse with finished | ⟨_, _, zero, _⟩
      · rw [entry] at finished
        cases finished
      · cases zero
  | case7 pos d _ name mode data next left entry error d₁ extract =>
    rw [entry] at sound
    obtain ⟨e, rfl, rfl, rfl, rfl, more, at_⟩ := sound
    obtain ⟨events, effect⟩ := extractFile_effect v e.mode e.data d e.safe
    rw [extract] at effect
    exact ⟨_, events, _, rfl, effect, by simp⟩
  | case8 pos d _ name mode data next left entry d₁ extract _ ih =>
    rw [entry] at sound
    obtain ⟨e, rfl, rfl, rfl, rfl, more, at_⟩ := sound
    obtain ⟨events, effect⟩ := extractFile_effect v e.mode e.data d e.safe
    rw [extract] at effect
    have fits : pos + e.encode.length ≤ archive.length := by
      have size := congrArg List.length at_
      rw [List.length_drop, List.length_append] at size
      omega
    obtain ⟨result, behind, worked, stays, follows, outcome⟩ :=
      ih fits (parseEntry_sound small fits)
    refine ⟨result, events ++ behind, worked, stays,
      (effect.append follows).congr (by simp), outcome.trans (and_congr_left fun _ => ?_)⟩
    -- The entry that was read is the only one that the grammar has here.
    constructor
    · exact fun accepted => accepted_entry accepted at_
    · intro accepted
      rcases accepted.parse with finished | ⟨e', less, same, entry', accepted⟩
      · rw [entry] at finished
        cases finished
      · obtain rfl : left = less := by simpa using same
        rw [entry, Parsed.file.injEq] at entry'
        rwa [entry'.2.2.2]

end

/-- The extraction of any archive: it ends inside of the buffer, all its operations stay
below the root on good components, a file is only opened where nothing was, and nothing
that was there is changed. It succeeds exactly on the grammar of archives, if all its
operations succeed. -/
theorem extraction_contained (v : Volume) (archive : List UInt8) (d : Disk)
    (small : archive.length ≤ maxArchive) :
    ∃ result d' events,
      extractLoop v archive (fun _ => false) maxEntries 0 d = (some result, d') ∧
      d'.log = d.log ++ events ∧
      (∀ e ∈ events, e.operation.Contained ∧ e.Exclusive) ∧
      (∀ path, d'.tree path ≠ d.tree path → d.tree path = none ∧ BelowRoot path) ∧
      (result = .ok () ↔
        (∃ entries : List Entry, entries.length ≤ 1024 ∧ archive = archiveOf entries) ∧
        ∀ e ∈ events, e.Succeeded) := by
  have bound : archive.length < 2 ^ 64 := lt_of_le_of_lt small (by decide)
  obtain ⟨result, events, worked, stays, effect, outcome⟩ :=
    extractLoop_explained v bound maxEntries 0 (Nat.zero_le _) d
  refine ⟨result, _, events, Prod.ext stays rfl, effect.logged, ?_, effect.grows, ?_⟩
  · exact fun e member => ⟨effect.contained e member, effect.exclusive e member⟩
  · rw [outcome, effect.outcome]
    rfl

/-- The entry `a/b` of three bytes. -/
def sampleEntry : Entry where
  name := ascii "a/b"
  mode := regularMode
  data := [1, 0, 255]
  short := by decide
  free := by decide
  safe := by decide
  private_ := regular_private
  sized := by decide

/-- A tree in which the directory of the entry is a link. -/
theorem linkedDirectory_contained :
    let d : Disk := ⟨(FileTree.empty 0o700).put [ascii "a"] .other, [], []⟩
    (archiveOf [sampleEntry]).length ≤ maxArchive ∧
    ∃ result d' events,
      extractLoop ⟨255, 0o22⟩ (archiveOf [sampleEntry]) (fun _ => false) maxEntries 0 d =
        (some result, d') ∧
      d'.log = d.log ++ events ∧
      (∀ e ∈ events, e.operation.Contained ∧ e.Exclusive) ∧
      (∀ path, d'.tree path ≠ d.tree path → d.tree path = none ∧ BelowRoot path) ∧
      (result = .ok () ↔
        (∃ entries : List Entry, entries.length ≤ 1024 ∧
          archiveOf [sampleEntry] = archiveOf entries) ∧ ∀ e ∈ events, e.Succeeded) := by
  intro d
  have small : (archiveOf [sampleEntry]).length ≤ maxArchive := by decide
  exact ⟨small, extraction_contained ⟨255, 0o22⟩ (archiveOf [sampleEntry]) d small⟩

end LashOs.Bundle
