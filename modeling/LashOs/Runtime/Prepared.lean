import LashOs.Runtime.Prepare

/-!
# What a prepared runtime is

A sysroot is complete for a lock if it holds, in the order of the lock, what was extracted from
archives with the digests of the lock, and nothing else. Whatever happened before, a run that says
that the sysroot is prepared is right.

The marker carries the argument from one run to the next: it is removed before the sysroot is
touched, and it is written in one step when the sysroot is complete. Within a run, an archive that
was verified stays as it is because no job writes the files of another.
-/
namespace LashOs.Runtime

open Base PythonText

variable {host : Host} {archives : Archives} {packages : List Package} {jobs : List Job}
  {p q : Package} {job : Job} {disk : Disk} {s : State}

/-! ### Names -/

/-- No file of the one package is a file of the other. -/
structure Apart (p q : Package) : Prop where
  archives : p.archive ≠ q.archive
  left : p.temporary ≠ q.archive
  right : p.archive ≠ q.temporary

/-- The archives of a lock have different names, and none is the name of an unfinished download. -/
def WellNamed (packages : List Package) : Prop :=
  ∀ (i j : Nat) (p q : Package), i ≠ j → packages[i]? = some p → packages[j]? = some q → Apart p q

theorem Package.temporary_ne (p : Package) : p.archive ≠ p.temporary := by
  intro same
  have size := congrArg List.length same
  have more : (ascii ".partial").length = 8 := by decide
  rw [Package.temporary, List.length_append, more] at size
  omega

theorem Apart.temporaries (apart : Apart p q) : p.temporary ≠ q.temporary :=
  fun same => apart.archives (List.append_cancel_right same)

theorem Apart.symm (apart : Apart p q) : Apart q p :=
  ⟨apart.archives.symm, apart.right.symm, apart.left.symm⟩

theorem wellNamed_pair (apart : Apart p q) : WellNamed [p, q] := by
  intro i j first second differs here there
  obtain ⟨small, rfl⟩ := List.getElem?_eq_some_iff.mp here
  obtain ⟨little, rfl⟩ := List.getElem?_eq_some_iff.mp there
  rw [List.length_cons, List.length_singleton] at small little
  obtain ⟨rfl, rfl⟩ | ⟨rfl, rfl⟩ : i = 0 ∧ j = 1 ∨ i = 1 ∧ j = 0 := by omega
  · exact apart
  · exact apart.symm

theorem put_same (archives : Archives) (name : List UInt8)
    (bytes : Option (List UInt8)) : put archives name bytes name = bytes := if_pos rfl

theorem put_other (archives : Archives) {name other : List UInt8}
    (bytes : Option (List UInt8)) (differs : other ≠ name) :
    put archives name bytes other = archives other := if_neg differs

/-! ### Verified archives -/

def Holds (host : Host) (archives : Archives) (name : List UInt8)
    (sha256 : List Char) : Prop :=
  ∃ bytes, archives name = some bytes ∧ host.digest bytes = sha256

theorem holds_of_matchesDigest {name : List UInt8} {sha256 : List Char}
    (found : matchesDigest host sha256 (archives name) = true) : Holds host archives name sha256 := by
  obtain ⟨bytes, there, same⟩ := Option.any_eq_true _ _ |>.mp found
  exact ⟨bytes, there, by simpa using same⟩

/-- What is known about the files of a package from where its job is. -/
def JobSound (host : Host) (archives : Archives) (p : Package) : Job → Prop
  | .replace => Holds host archives p.temporary p.sha256
  | .cleanup true => Holds host archives p.archive p.sha256
  | .done => Holds host archives p.archive p.sha256
  | _ => True

/-- A step of a job writes only the two files of its package. -/
theorem fetchStep_other (host : Host) (p : Package) (archives : Archives)
    (job : Job) (answer : Answer) {name : List UInt8} (first : name ≠ p.archive)
    (second : name ≠ p.temporary) :
    (fetchStep host p archives job answer).2 name = archives name := by
  fun_cases fetchStep host p archives job answer <;>
    simp only [put_other _ _ first, put_other _ _ second]

theorem fetchStep_sound (answer : Answer) (sound : JobSound host archives p job) :
    JobSound host (fetchStep host p archives job answer).2 p
      (fetchStep host p archives job answer).1 := by
  cases job with
  | verify | compare =>
    cases answer with
    | goes =>
      dsimp only [fetchStep]
      split
      next found => exact holds_of_matchesDigest found
      next => trivial
    | fails | partly | block => trivial
  | replace =>
    cases answer with
    | goes =>
      -- The verified file takes the name of the archive.
      obtain ⟨bytes, there, same⟩ := sound
      refine ⟨bytes, ?_, same⟩
      dsimp only [fetchStep]
      rw [put_other _ _ p.temporary_ne, put_same, there]
    | fails | partly | block => trivial
  | cleanup complete =>
    cases answer with
    | goes =>
      cases complete with
      | false => trivial
      | true =>
        obtain ⟨bytes, there, same⟩ := sound
        refine ⟨bytes, ?_, same⟩
        dsimp only [fetchStep]
        rw [put_other _ _ p.temporary_ne, there]
    | fails | partly | block => trivial
  | connect | receive => cases answer <;> trivial
  | waiting | done | failed | cancelled => exact sound

/-- What is known depends on the two files of the package only. -/
theorem JobSound.congr {archives' : Archives} (archive : archives' p.archive = archives p.archive)
    (temporary : archives' p.temporary = archives p.temporary)
    (sound : JobSound host archives p job) : JobSound host archives' p job := by
  unfold JobSound Holds at *
  split
  · rw [temporary]
    exact sound
  · rw [archive]
    exact sound
  · rw [archive]
    exact sound
  · trivial

structure JobsSound (host : Host) (archives : Archives)
    (packages : List Package) (jobs : List Job) : Prop where
  size : jobs.length = packages.length
  each : ∀ (i : Nat) (p : Package) (job : Job), packages[i]? = some p → jobs[i]? = some job →
    JobSound host archives p job

theorem jobsSound_waiting (archives : Archives) (packages : List Package) :
    JobsSound host archives packages (packages.map fun _ => .waiting) where
  size := List.length_map _
  each i p job here there := by
    rw [List.getElem?_map, here] at there
    cases there
    trivial

/-- The jobs that wait are cancelled. -/
theorem JobsSound.map (sound : JobsSound host archives packages jobs) : JobsSound host archives packages
    (jobs.map fun j => if j = .waiting then .cancelled else j) where
  size := by rw [List.length_map, sound.size]
  each i p job here there := by
    rw [List.getElem?_map] at there
    obtain ⟨old, found, rfl⟩ := Option.map_eq_some_iff.mp there
    split
    · trivial
    · exact sound.each i p old here found

/-- One job goes on, and what is known about the others is kept. -/
theorem JobsSound.set {archives' : Archives} {i : Nat}
    (sound : JobsSound host archives packages jobs) (here : packages[i]? = some p)
    (own : JobSound host archives' p job)
    (kept : ∀ (j : Nat) (q : Package) (other : Job), j ≠ i → packages[j]? = some q →
      JobSound host archives q other → JobSound host archives' q other) :
    JobsSound host archives' packages (jobs.set i job) where
  size := by rw [List.length_set, sound.size]
  each j q other found listed := by
    rw [List.getElem?_set] at listed
    split at listed
    next same =>
      split at listed
      · cases listed
        subst same
        obtain rfl : p = q := Option.some.inj (here.symm.trans found)
        exact own
      · cases listed
    next differs =>
      exact kept j q other (Ne.symm differs) found (sound.each j q other found listed)

theorem JobsSound.step (sound : JobsSound host archives packages jobs) (named : WellNamed packages)
    {i : Nat} (here : packages[i]? = some p) (there : jobs[i]? = some job) (answer : Answer) :
    JobsSound host (fetchStep host p archives job answer).2 packages
      (jobs.set i (fetchStep host p archives job answer).1) := by
  apply sound.set here (fetchStep_sound answer (sound.each i p job here there))
  intro j q other differs found known
  have apart := named j i q p differs found here
  have archive := fetchStep_other host p archives job answer apart.archives apart.right
  have temporary := fetchStep_other host p archives job answer apart.left apart.temporaries
  exact known.congr archive temporary

/-! ### Complete sysroots -/

def extractAll (host : Host) (contents : List (List UInt8)) (tree : Tree) : Option Tree :=
  contents.foldlM (fun tree bytes => host.dpkgDeb bytes tree) tree

def skeleton : Tree := makeAll skeletonSteps .nil

/-- The tree is what archives with the digests of some packages give. -/
def Extracted (host : Host) (packages : List Package) (sysroot : Sysroot) : Prop :=
  ∃ contents tree, contents.map host.digest = packages.map Package.sha256 ∧
    extractAll host contents skeleton = some tree ∧ sysroot = .directory tree

def Complete (host : Host) (lock : List UInt8) (sysroot : Sysroot) : Prop :=
  ∃ packages, host.packages lock = some packages ∧ Extracted host packages sysroot

theorem Extracted.snoc {tree next : Tree} {bytes : List UInt8}
    (extracted : Extracted host packages (.directory tree))
    (verified : host.digest bytes = p.sha256) (ran : host.dpkgDeb bytes tree = some next) :
    Extracted host (packages ++ [p]) (.directory next) := by
  obtain ⟨contents, same, digests, made, sysroot⟩ := extracted
  cases sysroot
  refine ⟨contents ++ [bytes], next, by simp [digests, verified], ?_, rfl⟩
  rw [extractAll] at made ⊢
  rw [List.foldlM_append, made]
  simp [ran]

/-! ### What holds at every point -/

/-- If the lock can be read, the archives of its packages are well named. -/
def LockNamed (host : Host) (disk : Disk) : Prop :=
  ∀ packages, disk.lock.bind host.packages = some packages → WellNamed packages

def Reads (host : Host) (disk : Disk) (packages : List Package) : Prop :=
  ∃ lock, disk.lock = some lock ∧ host.packages lock = some packages

def Verified (host : Host) (disk : Disk) (packages : List Package) : Prop :=
  ∀ p ∈ packages, Holds host disk.archives p.archive p.sha256

/-- A marker stands beside a sysroot that is complete for a lock with its digest. -/
def MarkerSound (host : Host) (disk : Disk) : Prop :=
  ∀ text, disk.marker = some text →
    ∃ lock, text = encode (host.markerText lock) ∧ Complete host lock disk.sysroot

/-- The sysroot is complete for a lock with the digest of the present one. -/
def UpToDate (host : Host) (disk : Disk) : Prop :=
  ∃ present lock, disk.lock = some present ∧ host.digest lock = host.digest present ∧
    Complete host lock disk.sysroot

structure Making (host : Host) (disk : Disk) (packages : List Package) : Prop where
  reads : Reads host disk packages
  verified : Verified host disk packages
  unmarked : disk.marker = none

def Sound (host : Host) (s : State) : Prop :=
  match s.phase with
  | .idle => MarkerSound host s.disk
  | .started => MarkerSound host s.disk ∧ LockNamed host s.disk
  | .checking packages =>
    MarkerSound host s.disk ∧ Reads host s.disk packages ∧ WellNamed packages
  | .downloading packages jobs =>
    MarkerSound host s.disk ∧ Reads host s.disk packages ∧ WellNamed packages ∧
      JobsSound host s.disk.archives packages jobs
  | .unlinking packages =>
    MarkerSound host s.disk ∧ Reads host s.disk packages ∧ Verified host s.disk packages
  | .removing packages | .making packages => Making host s.disk packages
  | .linking packages rest =>
    Making host s.disk packages ∧ ∃ before, before ++ rest = skeletonSteps ∧
      s.disk.sysroot = .directory (makeAll before .nil)
  | .extracting packages rest =>
    Making host s.disk packages ∧ ∃ before, before ++ rest = packages ∧
      Extracted host before s.disk.sysroot
  | .writing =>
    s.disk.marker = none ∧ ∃ lock, s.disk.lock = some lock ∧ Complete host lock s.disk.sysroot
  | .publishing =>
    s.disk.marker = none ∧ ∃ lock, s.disk.lock = some lock ∧ Complete host lock s.disk.sysroot ∧
      s.disk.temporary = some (encode (host.markerText lock))
  | .reported => MarkerSound host s.disk ∧ UpToDate host s.disk

theorem markerSound_of_none (unmarked : disk.marker = none) : MarkerSound host disk := by
  intro text there
  rw [unmarked] at there
  cases there

/-- Wherever the program is, the marker is sound or gone. -/
theorem Sound.marker (sound : Sound host s) : MarkerSound host s.disk := by
  unfold Sound at sound
  split at sound
  all_goals first
    | exact sound
    | exact sound.1
    | exact markerSound_of_none sound.unmarked
    | exact markerSound_of_none sound.1.unmarked
    | exact markerSound_of_none sound.1

/-- Giving up is always safe. -/
theorem Sound.fail (sound : Sound host s) : Sound host s.fail := sound.marker

theorem Sound.away (unmarked : s.disk.marker = none) : Sound host ⟨s.disk, .idle⟩ :=
  markerSound_of_none unmarked

/-! ### Steps -/

/-- What stands in a marker is read back. -/
theorem Host.readText_markerText (host : Host) (lock : List UInt8) :
    readText (encode (host.markerText lock)) = some (host.markerText lock) := by
  apply readText_encode
  intro member
  rcases List.mem_append.mp member with inside | last
  · exact absurd (host.plain lock _ inside) (by decide)
  · exact absurd last (by decide)

/-- A marker with the digest of the lock is believed, and rightly so. -/
theorem upToDate_of_prepared (marked : MarkerSound host disk)
    (found : prepared host disk = some true) : UpToDate host disk := by
  unfold prepared at found
  split at found
  next tree bytes present sysroot there lock =>
    obtain ⟨old, rfl, complete⟩ := marked bytes there
    rw [host.readText_markerText, Option.map_some, Host.markerText, strip_line (host.plain old)] at found
    have same : host.digest old = host.digest present := by simpa using found
    exact ⟨present, old, lock, same, complete⟩
  next => cases found

theorem JobsSound.verified
    (sound : JobsSound host disk.archives packages jobs) (all : jobs.all (· = .done) = true) :
    Verified host disk packages := by
  intro p member
  obtain ⟨i, here⟩ := List.mem_iff_getElem?.mp member
  have inside : i < jobs.length := by
    rw [sound.size]
    exact (List.getElem?_eq_some_iff.mp here).1
  have done : jobs[i] = .done := by simpa using List.all_eq_true.mp all _ (List.getElem_mem inside)
  exact sound.each i p .done here (by rw [List.getElem?_eq_getElem inside, done])

theorem awaitJobs_sound (here : s.phase = .downloading packages jobs) (sound : Sound host s) :
    Sound host (awaitJobs s packages jobs) := by
  have known := sound
  simp only [Sound, here] at known
  obtain ⟨marked, reads, named, each⟩ := known
  unfold awaitJobs
  split
  next all => exact ⟨marked, reads, each.verified all⟩
  next =>
    split
    · exact sound.fail
    · split
      · exact ⟨marked, reads, named, each.map⟩
      · exact sound

theorem removeSysroot_sound (making : Making host s.disk packages)
    (here : s.phase = .removing packages) (answer : Answer) :
    Sound host (removeSysroot s packages answer) := by
  unfold removeSysroot
  split
  · exact making
  · exact ⟨making.reads, making.verified, making.unmarked⟩
  · simp only [Sound, here]
    exact ⟨making.reads, making.verified, making.unmarked⟩
  · exact Sound.away making.unmarked

theorem extract_sound {rest before : List Package} (making : Making host s.disk packages)
    (split_ : before ++ p :: rest = packages) (extracted : Extracted host before s.disk.sysroot)
    (answer : Answer) : Sound host (extract host s packages p rest answer) := by
  unfold extract
  split
  next tree bytes sysroot there =>
    split
    next next ran =>
      -- The archive is the one that was verified.
      obtain ⟨same, found, verified⟩ := making.verified p (by simp [← split_])
      obtain rfl : bytes = same := Option.some.inj (there.symm.trans found)
      rw [sysroot] at extracted
      exact ⟨⟨making.reads, making.verified, making.unmarked⟩, before ++ [p], by simp [split_],
        extracted.snoc verified ran⟩
    next => exact Sound.away making.unmarked
  · exact markerSound_of_none making.unmarked
  · exact Sound.away making.unmarked

theorem extracted_skeleton {sysroot : Sysroot} (made : sysroot = .directory skeleton) :
    Extracted host [] sysroot := ⟨[], skeleton, rfl, rfl, made⟩

theorem mainStep_sound (sound : Sound host s) (answer : Answer) :
    Sound host (mainStep host s answer) := by
  have known := sound
  unfold mainStep
  split
  next => exact sound
  next => exact sound
  next here =>
    simp only [Sound, here] at known
    split
    next packages read =>
      obtain ⟨lock, there, parsed⟩ := Option.bind_eq_some_iff.mp read
      exact ⟨known.1, ⟨lock, there, parsed⟩, known.2 packages read⟩
    next => exact sound.fail
  next packages here =>
    simp only [Sound, here] at known
    obtain ⟨marked, reads, named⟩ := known
    split
    next found => exact ⟨marked, upToDate_of_prepared marked found⟩
    · exact ⟨marked, reads, named, jobsSound_waiting _ _⟩
    · exact sound.fail
  next packages jobs here => exact awaitJobs_sound here sound
  next packages here =>
    simp only [Sound, here] at known
    split
    · exact ⟨known.2.1, known.2.2, rfl⟩
    · exact sound.fail
  next packages here =>
    simp only [Sound, here] at known
    exact removeSysroot_sound known here answer
  next packages here =>
    simp only [Sound, here] at known
    split
    · exact ⟨⟨known.reads, known.verified, known.unmarked⟩, [], rfl, rfl⟩
    · exact sound.fail
  next packages here =>
    simp only [Sound, here] at known
    obtain ⟨making, before, all, sysroot⟩ := known
    rw [List.append_nil] at all
    subst all
    exact ⟨making, [], rfl, extracted_skeleton sysroot⟩
  next packages path rest here =>
    simp only [Sound, here] at known
    obtain ⟨making, before, all, sysroot⟩ := known
    split
    next tree there =>
      rw [there] at sysroot
      cases sysroot
      have steps : (before ++ [path]) ++ rest = skeletonSteps := by
        rw [List.append_assoc, List.singleton_append, all]
      have made : makeAll (before ++ [path]) .nil = (makeAll before .nil).insert path.1 path.2 := by
        simp only [makeAll, List.foldl_append, List.foldl_cons, List.foldl_nil]
      exact ⟨⟨making.reads, making.verified, making.unmarked⟩, before ++ [path], steps, by rw [made]⟩
    next => exact sound.fail
  next packages here =>
    simp only [Sound, here] at known
    obtain ⟨making, before, all, extracted⟩ := known
    obtain ⟨lock, there, parsed⟩ := making.reads
    rw [List.append_nil] at all
    exact ⟨making.unmarked, lock, there, packages, parsed, all ▸ extracted⟩
  next packages p rest here =>
    simp only [Sound, here] at known
    obtain ⟨making, before, all, extracted⟩ := known
    exact extract_sound making all extracted answer
  next here =>
    simp only [Sound, here] at known
    obtain ⟨unmarked, lock, there, complete⟩ := known
    split
    next present found =>
      obtain rfl : lock = present := Option.some.inj (there.symm.trans found)
      exact ⟨unmarked, lock, there, complete, rfl⟩
    · exact markerSound_of_none unmarked
    · exact sound.fail
  next here =>
    simp only [Sound, here] at known
    obtain ⟨-, lock, there, complete, written⟩ := known
    split
    · -- The marker appears in one step, with the digest of the lock of this run.
      refine ⟨fun text marked => ?_, lock, lock, there, rfl, complete⟩
      obtain rfl : encode (host.markerText lock) = text := Option.some.inj (written.symm.trans marked)
      exact ⟨lock, rfl, complete⟩
    · exact sound.fail

theorem jobStep_sound (sound : Sound host s) (i : Nat) (answer : Answer) :
    Sound host (jobStep host s i answer) := by
  unfold jobStep
  split
  next packages jobs here =>
    have known := sound
    simp only [Sound, here] at known
    obtain ⟨marked, reads, named, each⟩ := known
    split
    next p job package listed =>
      split
      · split
        · exact ⟨marked, reads, named, each.set package trivial fun _ _ _ _ _ known => known⟩
        · exact sound
      · exact ⟨marked, reads, named, each.step named package listed answer⟩
    next => exact sound
  next => exact sound

/-- A run is started with a lock whose archives are well named. -/
def StartsNamed (host : Host) (s : State) : Choice → Prop
  | .start => LockNamed host s.disk
  | _ => True

theorem step_sound {choice : Choice} (named : StartsNamed host s choice)
    (sound : Sound host s) : Sound host (step host s choice) := by
  cases choice with
  | start =>
    rw [step]
    split
    · exact ⟨sound.marker, named⟩
    · exact sound
  | main answer => exact mainStep_sound sound answer
  | job i answer => exact jobStep_sound sound i answer
  | killed =>
    rw [step]
    split
    · exact sound
    · exact sound.fail
  | edit lock archives =>
    rw [step]
    split
    · exact sound.marker
    · exact sound
  | clean sysroot =>
    rw [step]
    split
    · exact markerSound_of_none rfl
    · exact sound

theorem run_sound (unmarked : disk.marker = none) {choices : List Choice}
    (named : Permits (step host) (StartsNamed host) ⟨disk, .idle⟩ choices) :
    Sound host (run (step host) ⟨disk, .idle⟩ choices) := by
  have initial : Sound host ⟨disk, .idle⟩ := markerSound_of_none unmarked
  exact (named.always (fun s choice fine sound => step_sound fine sound) initial).final

/-- From any files without a marker, through any number of runs that are killed, fail or succeed, with
other locks and downloads between them: if the locks name their archives well, which the program does
not check, then whenever it says that the sysroot is prepared, it holds exactly what archives with
the digests of the lock give, for the present lock or one with the same digest. -/
theorem prepared_complete (host : Host) (disk : Disk) (unmarked : disk.marker = none)
    (choices : List Choice)
    (named : Permits (step host) (StartsNamed host) ⟨disk, .idle⟩ choices)
    (reported : (run (step host) ⟨disk, .idle⟩ choices).phase = .reported) :
    UpToDate host (run (step host) ⟨disk, .idle⟩ choices).disk := by
  have sound := run_sound unmarked named
  simp only [Sound, reported] at sound
  exact sound.2

/-- Two packages of one byte each, which are their own digests. -/
def smallPackages : List Package := [⟨ascii "h/a.deb", ['A']⟩, ⟨ascii "h/b.deb", ['B']⟩]

def smallHost : Host where
  digest := fun bytes => (bytes.map fun b => Char.ofNat b.toNat).filter fun c => !isSpace c
  plain := fun bytes c member => by simpa using (List.mem_filter.mp member).2
  packages := fun lock => if lock = [49] then some smallPackages else none
  dpkgDeb := fun bytes tree => some (tree.insert [bytes] (.leaf (.file 0x1a4 bytes)))

theorem smallHost_named (disk : Disk) : LockNamed smallHost disk := by
  intro packages read
  obtain ⟨lock, -, parsed⟩ := Option.bind_eq_some_iff.mp read
  have same : packages = smallPackages := by
    simp only [smallHost] at parsed
    split at parsed
    · exact (Option.some.inj parsed).symm
    · cases parsed
  rw [same]
  exact wellNamed_pair (by constructor <;> decide)

theorem smallHost_starts (s : State) (choices : List Choice) :
    Permits (step smallHost) (StartsNamed smallHost) s choices := by
  apply permits_of_forall
  intro choice _ s
  cases choice with
  | start => exact smallHost_named s.disk
  | main | job | killed | edit | clean => trivial

def smallDisk : Disk where
  lock := some [49]
  archives := fun name => if name = ascii "a.deb" then some [65] else none
  sysroot := .directory .nil
  marker := none
  temporary := none

/-- A run that finds or fetches both archives and makes the directories and links. -/
def smallStart : List Choice :=
  [.start, .main .goes, .main .goes, .job 0 .goes, .job 1 .goes, .job 1 .goes, .job 0 .goes,
    .job 1 .goes, .job 1 (.block [66]), .job 1 .goes, .job 1 .goes, .job 1 .goes, .job 1 .goes] ++
    List.replicate 14 (.main .goes)

/-- The first run is killed in the middle of the second archive, another one succeeds. -/
theorem prepared_complete_killed :
    UpToDate smallHost (run (step smallHost) ⟨smallDisk, .idle⟩
      (smallStart ++ [.main .goes, .main (.partly .nil), .killed] ++
        smallStart ++ List.replicate 5 (.main .goes))).disk :=
  prepared_complete smallHost smallDisk rfl _ (smallHost_starts _ _) (by decide +kernel)

end LashOs.Runtime
