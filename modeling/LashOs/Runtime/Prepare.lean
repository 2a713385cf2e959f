import LashOs.Base.CString
import LashOs.Base.Forest
import LashOs.Base.PurePath
import LashOs.Base.PythonText
import LashOs.Base.Run

/-!
# Preparing a runtime

`prepare-runtime.py` downloads the packages of a lock file, four at a time, and extracts them into
a sysroot. A marker beside the sysroot holds the digest of the lock it was made from, and a later
run that finds it there believes it.

The program is a machine whose steps are its operations on files, with what the network and the
kernel answer. Its jobs interleave, and it can be killed between any two steps, which leaves the
files as they are. Between two runs the lock and the downloads may change in any way. Two runs at a
time and a loss of power are not considered.
-/
namespace LashOs.Runtime

open Base PythonText

structure Package where
  url : List UInt8
  sha256 : List Char
  deriving DecidableEq, Repr

/-- `Path(package["url"]).name` -/
def Package.archive (p : Package) : List UInt8 := (PurePosixPath.ofText p.url).name

/-- `destination.with_suffix(destination.suffix + ".partial")` -/
def Package.temporary (p : Package) : List UInt8 := p.archive ++ ascii ".partial"

abbrev Tree : Type := Forest (List UInt8) FileLeaf

abbrev Archives : Type := List UInt8 → Option (List UInt8)

/-- What the program calls: the digest in hexadecimal, the parser of the lock and `dpkg-deb -x`,
which can fail. -/
structure Host where
  digest : List UInt8 → List Char
  plain : ∀ bytes, ∀ c ∈ digest bytes, isSpace c = false
  packages : List UInt8 → Option (List Package)
  dpkgDeb : List UInt8 → Tree → Option Tree

inductive Sysroot where
  | absent
  -- Something else than a directory.
  | file
  | directory (tree : Tree)

/-- The files of the program: the lock, the archives, and in the work directory the sysroot, the
marker and the file that becomes the marker. -/
structure Disk where
  lock : Option (List UInt8)
  archives : Archives
  sysroot : Sysroot
  marker : Option (List UInt8)
  temporary : Option (List UInt8)

/-- The answer to a call: it succeeds, it fails, it has done a part of its work, or it gives a
block of bytes. -/
inductive Answer where
  | goes
  | fails
  | partly (tree : Tree)
  | block (bytes : List UInt8)

/-! ### `fetch` -/

inductive Job where
  | waiting | verify | connect | receive | compare | replace
  -- The `finally` part, behind a download that is complete or not.
  | cleanup (complete : Bool)
  | done | failed | cancelled
  deriving DecidableEq, Repr

def Job.settled : Job → Bool
  | .done | .failed | .cancelled => true
  | _ => false

def Job.running (job : Job) : Bool := job ≠ .waiting && !job.settled

def put (archives : Archives) (name : List UInt8) (bytes : Option (List UInt8)) : Archives :=
  fun other => if other = name then bytes else archives other

def matchesDigest (host : Host) (sha256 : List Char) (file : Option (List UInt8)) : Bool :=
  file.any fun bytes => host.digest bytes = sha256

/-- One step of `fetch`. -/
def fetchStep (host : Host) (p : Package) (archives : Archives) : Job → Answer → Job × Archives
  | .verify, .goes =>
    (if matchesDigest host p.sha256 (archives p.archive) then .done else .connect, archives)
  -- Nothing is open yet, so no `finally` part follows.
  | .verify, _ => (.failed, archives)
  -- `urlopen` and then `temporary.open("wb")`
  | .connect, .goes => (.receive, put archives p.temporary (some []))
  | .connect, _ => (.cleanup false, archives)
  | .receive, .block bytes =>
    (.receive, put archives p.temporary (some ((archives p.temporary).getD [] ++ bytes)))
  | .receive, .goes => (.compare, archives)
  | .receive, _ => (.cleanup false, archives)
  -- The digest of a file that is gone raises an error, as one that differs does.
  | .compare, .goes =>
    (if matchesDigest host p.sha256 (archives p.temporary) then .replace else .cleanup false, archives)
  | .compare, _ => (.cleanup false, archives)
  | .replace, .goes =>
    (.cleanup true, put (put archives p.archive (archives p.temporary)) p.temporary none)
  | .replace, _ => (.cleanup false, archives)
  | .cleanup complete, .goes =>
    (if complete then .done else .failed, put archives p.temporary none)
  | .cleanup _, _ => (.failed, archives)
  | job, _ => (job, archives)

/-! ### `main` -/

/-- The directories and links that are made before anything is extracted. -/
def skeletonSteps : List (List (List UInt8) × Entry FileLeaf) :=
  ([ascii "usr"], .directory) ::
    [ascii "bin", ascii "sbin", ascii "lib", ascii "lib64"].flatMap fun name =>
      [([ascii "usr", name], .directory), ([name], .leaf (.link (ascii "usr/" ++ name)))]

def makeAll (steps : List (List (List UInt8) × Entry FileLeaf)) (tree : Tree) : Tree :=
  steps.foldl (fun tree step => tree.insert step.1 step.2) tree

/-- Where the program is; `idle` is a program that was not started, has failed or was killed. -/
inductive Phase where
  | idle
  | started
  | checking (packages : List Package)
  | downloading (packages : List Package) (jobs : List Job)
  | unlinking (packages : List Package)
  | removing (packages : List Package)
  | making (packages : List Package)
  | linking (packages : List Package) (rest : List (List (List UInt8) × Entry FileLeaf))
  | extracting (packages rest : List Package)
  | writing
  | publishing
  -- The program has said that the sysroot is prepared.
  | reported
  deriving DecidableEq

structure State where
  disk : Disk
  phase : Phase

/-- `sysroot.is_dir() and marker.is_file() and marker.read_text().strip() == digest(lock)`; there is
no answer if the marker is not a text. -/
def prepared (host : Host) (disk : Disk) : Option Bool :=
  match disk.sysroot, disk.marker, disk.lock with
  | .directory _, some bytes, some lock =>
    (readText bytes).map fun text => strip text = host.digest lock
  | _, _, _ => some false

/-- `digest(lock) + "\n"` -/
def Host.markerText (host : Host) (lock : List UInt8) : List Char := host.digest lock ++ ['\n']

def State.fail (s : State) : State := { s with phase := .idle }

/-- The pool of the jobs, as the main thread sees it: once one has failed, those that wait are
cancelled, and the failure is raised when the others have ended. -/
def awaitJobs (s : State) (packages : List Package) (jobs : List Job) : State :=
  if jobs.all (· = .done) then { s with phase := .unlinking packages }
  else if jobs.all (·.settled) then s.fail
  else if jobs.any (· = .failed) then
    { s with phase := .downloading packages (jobs.map fun j => if j = .waiting then .cancelled else j) }
  else s

/-- `shutil.rmtree`, if there is something. -/
def removeSysroot (s : State) (packages : List Package) (answer : Answer) : State :=
  match s.disk.sysroot, answer with
  | .absent, _ => { s with phase := .making packages }
  | .directory _, .goes => ⟨{ s.disk with sysroot := .absent }, .making packages⟩
  | .directory _, .partly tree => { s with disk := { s.disk with sysroot := .directory tree } }
  | _, _ => s.fail

/-- `dpkg-deb -x` of the next archive; one that fails may have extracted a part. -/
def extract (host : Host) (s : State) (packages : List Package) (p : Package) (rest : List Package)
    (answer : Answer) : State :=
  match s.disk.sysroot, s.disk.archives p.archive, answer with
  | .directory tree, some bytes, .goes =>
    match host.dpkgDeb bytes tree with
    | some tree => ⟨{ s.disk with sysroot := .directory tree }, .extracting packages rest⟩
    | none => s.fail
  | .directory _, some _, .partly tree => ⟨{ s.disk with sysroot := .directory tree }, .idle⟩
  | _, _, _ => s.fail

def mainStep (host : Host) (s : State) (answer : Answer) : State :=
  match s.phase with
  | .idle | .reported => s
  | .started =>
    -- The directory of the archives is made and the lock is read.
    match s.disk.lock.bind host.packages, answer with
    | some packages, .goes => { s with phase := .checking packages }
    | _, _ => s.fail
  | .checking packages =>
    match prepared host s.disk, answer with
    | some true, .goes => { s with phase := .reported }
    | some false, .goes =>
      { s with phase := .downloading packages (packages.map fun _ => .waiting) }
    | _, _ => s.fail
  | .downloading packages jobs => awaitJobs s packages jobs
  | .unlinking packages =>
    match answer with
    | .goes => ⟨{ s.disk with marker := none }, .removing packages⟩
    | _ => s.fail
  | .removing packages => removeSysroot s packages answer
  | .making packages =>
    match s.disk.sysroot, answer with
    | .absent, .goes => ⟨{ s.disk with sysroot := .directory .nil }, .linking packages skeletonSteps⟩
    | _, _ => s.fail
  | .linking packages [] => { s with phase := .extracting packages packages }
  | .linking packages (step :: rest) =>
    match s.disk.sysroot, answer with
    | .directory tree, .goes =>
      ⟨{ s.disk with sysroot := .directory (tree.insert step.1 step.2) }, .linking packages rest⟩
    | _, _ => s.fail
  | .extracting _ [] => { s with phase := .writing }
  | .extracting packages (p :: rest) => extract host s packages p rest answer
  | .writing =>
    match s.disk.lock, answer with
    | some lock, .goes =>
      ⟨{ s.disk with temporary := some (encode (host.markerText lock)) }, .publishing⟩
    -- A write that is cut short.
    | _, .block bytes => ⟨{ s.disk with temporary := some bytes }, .idle⟩
    | _, _ => s.fail
  | .publishing =>
    match answer with
    | .goes => ⟨{ s.disk with marker := s.disk.temporary, temporary := none }, .reported⟩
    | _ => s.fail

/-- One step of a job. A job that waits starts if one of the four threads is free. -/
def jobStep (host : Host) (s : State) (i : Nat) (answer : Answer) : State :=
  match s.phase with
  | .downloading packages jobs =>
    match packages[i]?, jobs[i]? with
    | some p, some job =>
      if job = .waiting then
        if jobs.countP Job.running < 4 then
          { s with phase := .downloading packages (jobs.set i .verify) }
        else s
      else
        let (job, archives) := fetchStep host p s.disk.archives job answer
        ⟨{ s.disk with archives }, .downloading packages (jobs.set i job)⟩
    | _, _ => s
  | _ => s

def Phase.ended : Phase → Bool
  | .idle | .reported => true
  | _ => false

inductive Choice where
  | start
  | main (answer : Answer)
  | job (i : Nat) (answer : Answer)
  | killed
  -- Between two runs: another lock and other downloads.
  | edit (lock : Option (List UInt8)) (archives : Archives)
  -- Between two runs: the marker is removed and then the sysroot is touched.
  | clean (sysroot : Sysroot)

def step (host : Host) (s : State) : Choice → State
  | .start => if s.phase.ended then { s with phase := .started } else s
  | .main answer => mainStep host s answer
  | .job i answer => jobStep host s i answer
  | .killed => if s.phase.ended then s else s.fail
  | .edit lock archives =>
    if s.phase.ended then ⟨{ s.disk with lock, archives }, .idle⟩ else s
  | .clean sysroot =>
    if s.phase.ended then ⟨{ s.disk with sysroot, marker := none }, .idle⟩ else s

end LashOs.Runtime
