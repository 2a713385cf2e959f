import LashOs.Descriptors.Table

/-!
# File actions

The file actions of `posix_spawn` in `spawn_guest.c`: how they are added, how the child
performs them while the report descriptor is open beside the parent's numbers, and what they
mean as a program on the parent's table alone.
-/
namespace LashOs.Spawn

open Base
open Descriptors (Descriptor maxFds)

/-! ### The actions -/

/-- The `type` of an action, 1 to 4. -/
inductive ActionType where
  | dup2 | openFile | close | closefrom
  deriving DecidableEq, Repr

/-- The flags of `open`. Only `O_CLOEXEC` concerns the table. -/
structure OpenFlags where
  cloexec : Bool
  others : Nat
  deriving DecidableEq, Repr

/-- `struct spawn_action`. The functions that add one keep its numbers below 256. -/
structure SpawnAction where
  type : ActionType
  fd : Nat
  other : Nat
  flags : OpenFlags
  mode : Nat
  path : List UInt8
  fd_lt : fd < maxFds
  other_lt : other < maxFds

theorem zero_lt_maxFds : 0 < maxFds := by decide

/-- The arguments of `add_action` that `adddup2`, `addclose` and `addclosefrom_np` leave zero. -/
def noFlags : OpenFlags := ⟨false, 0⟩

/-- `add_action`, where there is memory for one more. -/
def addAction (actions : List SpawnAction) (type : ActionType) (fd : Int) (other : Nat)
    (other_lt : other < maxFds) (path : List UInt8) (flags : OpenFlags) (mode : Nat) :
    Except Errno (List SpawnAction) :=
  if fd < 0 then .error .EBADF
  else if inside : fd.toNat < maxFds then
    .ok (actions ++ [⟨type, fd.toNat, other, flags, mode, path, inside, other_lt⟩])
  else .error .EBADF

def adddup2 (actions : List SpawnAction) (source target : Int) :
    Except Errno (List SpawnAction) :=
  if target < 0 then .error .EBADF
  else if inside : target.toNat < maxFds then
    addAction actions .dup2 source target.toNat inside [] noFlags 0
  else .error .EBADF

def addopen (actions : List SpawnAction) (fd : Int) (path : List UInt8) (flags : OpenFlags)
    (mode : Nat) : Except Errno (List SpawnAction) :=
  addAction actions .openFile fd 0 zero_lt_maxFds path flags mode

def addclose (actions : List SpawnAction) (fd : Int) : Except Errno (List SpawnAction) :=
  addAction actions .close fd 0 zero_lt_maxFds [] noFlags 0

def addclosefrom (actions : List SpawnAction) (fd : Int) : Except Errno (List SpawnAction) :=
  addAction actions .closefrom fd 0 zero_lt_maxFds [] noFlags 0

/-! ### Calls on the table of a process

A process may have numbers below `limit` only. What an `open` finds is given. -/

section Calls

variable (limit : Nat) (fds : Fds Descriptor)

/-- `pipe`, with the two ends that it creates. -/
def pipe (readEnd writeEnd : Nat) : Except Errno (Nat × Nat × Fds Descriptor) :=
  let first := fds.lowest 0
  let one := fds.put first ⟨readEnd, false⟩
  let second := one.lowest 0
  if first < limit ∧ second < limit then .ok (first, second, one.put second ⟨writeEnd, false⟩)
  else .error .EMFILE

/-- `fcntl(n, F_DUPFD_CLOEXEC, minimum)` -/
def dupfdCloexec (n minimum : Nat) (fault : Option Errno) :
    Except Errno (Nat × Fds Descriptor) :=
  match fds.entry n with
  | none => .error .EBADF
  | some d =>
    match fault with
    | some e => .error e
    | none =>
      if limit ≤ minimum then .error .EINVAL
      else if fds.lowest minimum < limit then .ok (fds.allocate minimum ⟨d.file, true⟩)
      else .error .EMFILE

/-- `fcntl(n, F_GETFD)` -/
def getfd (n : Nat) : Except Errno Bool :=
  match fds.entry n with
  | none => .error .EBADF
  | some d => .ok d.cloexec

/-- `fcntl(n, F_SETFD, flag)` -/
def setfd (n : Nat) (flag : Bool) : Except Errno (Fds Descriptor) :=
  match fds.entry n with
  | none => .error .EBADF
  | some d => .ok (fds.put n ⟨d.file, flag⟩)

/-- `dup2` of two different numbers. -/
def dup2 (source target : Nat) : Except Errno (Fds Descriptor) :=
  match fds.entry source with
  | none => .error .EBADF
  | some d => if target < limit then .ok (fds.put target ⟨d.file, false⟩) else .error .EBADF

/-- `open`. A number is reserved before the path is looked at. -/
def openFile (found : Except Errno Nat) (flags : OpenFlags) :
    Except Errno (Nat × Fds Descriptor) :=
  if fds.lowest 0 < limit then
    match found with
    | .error e => .error e
    | .ok file => .ok (fds.allocate 0 ⟨file, flags.cloexec⟩)
  else .error .EMFILE

end Calls

/-! ### The child's loop -/

/-- The table after the calls of one action, and the error with which it goes to `failed`. -/
abbrev Performed : Type := Fds Descriptor × Except Errno Unit

/-- A descriptor duplicated onto itself loses `FD_CLOEXEC`. -/
def clearCloexec (fds : Fds Descriptor) (fd : Nat) : Performed :=
  match getfd fds fd with
  | .error e => (fds, .error e)
  | .ok flags =>
    match setfd fds fd (flags && !true) with
    | .error e => (fds, .error e)
    | .ok new => (new, .ok ())

def performDup2 (limit : Nat) (fds : Fds Descriptor) (source target : Nat) : Performed :=
  if source = target then clearCloexec fds source
  else
    match dup2 limit fds source target with
    | .error e => (fds, .error e)
    | .ok new => (new, .ok ())

/-- The file is opened wherever there is room and moved to its number. -/
def performOpen (limit : Nat) (fds : Fds Descriptor) (found : Except Errno Nat) (fd : Nat)
    (flags : OpenFlags) : Performed :=
  match openFile limit fds found flags with
  | .error e => (fds, .error e)
  | .ok (f, opened) =>
    if f = fd then (opened, .ok ())
    else
      match dup2 limit opened f fd with
      | .error e => (opened.close f, .error e)
      | .ok moved => (moved.close f, .ok ())

/-- The loop of `closefrom` over the numbers that are left. -/
def closeLoop (report : Nat) (fds : Fds Descriptor) (numbers : List Nat) : Fds Descriptor :=
  numbers.foldl (fun fds f => if f = report then fds else fds.close f) fds

/-- The action would disturb the report descriptor. -/
def SpawnAction.Names (a : SpawnAction) (report : Nat) : Prop :=
  a.fd = report ∨ a.type = .dup2 ∧ a.other = report

instance (a : SpawnAction) (report : Nat) : Decidable (a.Names report) :=
  inferInstanceAs (Decidable (_ ∨ _))

/-- One round of the loop over the actions. -/
def SpawnAction.perform (limit report : Nat) (found : Except Errno Nat) (a : SpawnAction)
    (fds : Fds Descriptor) : Performed :=
  if a.Names report then (fds, .error .ENOTSUP)
  else
    match a.type with
    | .dup2 => performDup2 limit fds a.fd a.other
    | .openFile => performOpen limit fds found a.fd a.flags
    | .close => (fds.close a.fd, .ok ())
    | .closefrom =>
      (closeLoop report fds (List.range' a.fd (maxFds - a.fd)), .ok ())

/-! ### The actions as a program -/

abbrev View : Type := Nat → Option Descriptor

/-- Every number that the process may use is taken, if one of them is reserved. -/
def View.full (limit reserved : Nat) (v : View) : Bool :=
  (List.range limit).all fun n => n == reserved || (v n).isSome

/-- What an action means: it replaces or removes entries, whatever else is open. -/
def SpawnAction.apply (limit reserved : Nat) (found : Except Errno Nat) (a : SpawnAction)
    (v : View) : Except Errno View :=
  match a.type with
  | .dup2 =>
    match v a.fd with
    | none => .error .EBADF
    | some d =>
      if a.fd = a.other ∨ a.other < limit then
        .ok (Function.update v a.other (some ⟨d.file, false⟩))
      else .error .EBADF
  | .openFile =>
    if v.full limit reserved then .error .EMFILE
    else
      match found with
      | .error e => .error e
      | .ok file =>
        if a.fd < limit then .ok (Function.update v a.fd (some ⟨file, false⟩))
        else .error .EBADF
  | .close => .ok (Function.update v a.fd none)
  | .closefrom => .ok fun n => if a.fd ≤ n then none else v n

/-! ### The child's table beside the program's -/

/-- The child's table is the program's with the write end of the pipe at `report`, where the
program has nothing. The files that `alien` describes, the ends of the pipe, are nowhere in
the program's table. -/
structure Tracks (report writeEnd : Nat) (alien : Nat → Prop) (fds : Fds Descriptor)
    (v : View) : Prop where
  entry : ∀ n, fds.entry n = if n = report then some ⟨writeEnd, true⟩ else v n
  unused : v report = none
  small : ∀ n, maxFds ≤ n → v n = none
  foreign : ∀ n d, v n = some d → ¬ alien d.file

section Tracks

variable {limit report writeEnd : Nat} {alien : Nat → Prop} {fds : Fds Descriptor} {v : View}

theorem Tracks.entry_of_ne (tracks : Tracks report writeEnd alien fds v) {n : Nat}
    (other : n ≠ report) : fds.entry n = v n := by
  rw [tracks.entry, if_neg other]

theorem Tracks.put (tracks : Tracks report writeEnd alien fds v) {n : Nat} (inside : n < maxFds)
    (other : n ≠ report) {d : Descriptor} (native : ¬ alien d.file) :
    Tracks report writeEnd alien (fds.put n d) (Function.update v n (some d)) where
  entry m := by
    rw [Fds.entry_put, Function.update_apply, tracks.entry]
    split <;> rename_i same
    · subst same
      rw [if_neg other]
    · rfl
  unused := by
    rw [Function.update_of_ne (Ne.symm other), tracks.unused]
  small m above := by
    rw [Function.update_of_ne (by omega), tracks.small m above]
  foreign m e here := by
    rw [Function.update_apply] at here
    split at here
    · cases here
      exact native
    · exact tracks.foreign m e here

theorem Tracks.remove (tracks : Tracks report writeEnd alien fds v) (gone : Nat → Prop)
    [DecidablePred gone] (fds' : Fds Descriptor)
    (removed : ∀ n, fds'.entry n = if gone n ∧ n ≠ report then none else fds.entry n) :
    Tracks report writeEnd alien fds' (fun n => if gone n then none else v n) where
  entry n := by
    rw [removed, tracks.entry]
    by_cases same : n = report
    · simp [same]
    · simp [same]
  unused := by
    split
    · rfl
    · exact tracks.unused
  small n above := by
    split
    · rfl
    · exact tracks.small n above
  foreign n d here := by
    split at here
    · cases here
    · exact tracks.foreign n d here

theorem closeLoop_entry (report : Nat) (numbers : List Nat) (fds : Fds Descriptor) (n : Nat) :
    (closeLoop report fds numbers).entry n =
      if n ∈ numbers ∧ n ≠ report then none else fds.entry n := by
  -- The table changes from round to round, so that the induction is for every table.
  induction numbers generalizing fds with
  | nil => simp [closeLoop]
  | cons f rest ih =>
    have unfolded : closeLoop report fds (f :: rest) =
        closeLoop report (if f = report then fds else fds.close f) rest := rfl
    rw [unfolded, ih]
    by_cases kept : f = report
    · rw [if_pos kept]
      by_cases same : n = report
      · simp [same]
      · simp [same, kept]
    · rw [if_neg kept, Fds.entry_close]
      by_cases here : n = f
      · simp [here, kept]
      · simp [here]

theorem Tracks.closefrom (tracks : Tracks report writeEnd alien fds v) (first : Nat)
    (inside : first < maxFds) :
    Tracks report writeEnd alien
      (closeLoop report fds (List.range' first (maxFds - first)))
      (fun n => if first ≤ n then none else v n) := by
  refine tracks.remove (first ≤ ·) _ fun n => ?_
  rw [closeLoop_entry]
  by_cases below : n < maxFds
  · simp [List.mem_range'_1, below, Nat.add_sub_cancel' (Nat.le_of_lt inside)]
  · -- Beyond the array there is nothing to close.
    have closed : n ≠ report → fds.entry n = none := fun other => by
      rw [tracks.entry_of_ne other, tracks.small n (Nat.le_of_not_lt below)]
    by_cases same : n = report
    · simp [same]
    · simp [same, closed same]

theorem Tracks.full_iff (tracks : Tracks report writeEnd alien fds v) :
    v.full limit report = true ↔ limit ≤ fds.lowest 0 := by
  rw [fds.le_lowest_iff, View.full, List.all_eq_true]
  simp only [List.mem_range, Bool.or_eq_true, beq_iff_eq]
  refine forall₂_congr fun n _ => ?_
  rw [Fds.isOpen, tracks.entry]
  by_cases same : n = report <;> simp [same]

/-- The outcome of performing an action is that of the program. An action that fails leaves
the table as it was. -/
def Agrees (report writeEnd : Nat) (alien : Nat → Prop) (v : View) (performed : Performed)
    (applied : Except Errno View) : Prop :=
  match applied with
  | .ok v' => performed.2 = .ok () ∧ Tracks report writeEnd alien performed.1 v'
  | .error e => performed.2 = .error e ∧ Tracks report writeEnd alien performed.1 v

theorem Tracks.performDup2 (tracks : Tracks report writeEnd alien fds v) {a : SpawnAction}
    (type : a.type = .dup2) (unnamed : ¬ a.Names report) (found : Except Errno Nat) :
    Agrees report writeEnd alien v (performDup2 limit fds a.fd a.other)
      (a.apply limit report found v) := by
  have source : a.fd ≠ report := fun same => unnamed (.inl same)
  have target : a.other ≠ report := fun same => unnamed (.inr ⟨type, same⟩)
  have read := tracks.entry_of_ne source
  simp only [SpawnAction.apply, type]
  cases here : v a.fd with
  | none =>
    -- Both the flag query and `dup2` find the source closed.
    rw [here] at read
    have result : Spawn.performDup2 limit fds a.fd a.other = (fds, .error .EBADF) := by
      simp [Spawn.performDup2, clearCloexec, getfd, dup2, read]
    rw [result]
    exact ⟨rfl, tracks⟩
  | some d =>
    dsimp only
    rw [here] at read
    have native : ¬ alien d.file := tracks.foreign _ d here
    have placed := tracks.put a.other_lt target (d := ⟨d.file, false⟩) native
    by_cases self : a.fd = a.other
    · have result : Spawn.performDup2 limit fds a.fd a.other =
          (fds.put a.other ⟨d.file, false⟩, .ok ()) := by
        rw [self] at read
        simp [Spawn.performDup2, clearCloexec, getfd, setfd, self, read]
      rw [if_pos (.inl self), result]
      exact ⟨rfl, placed⟩
    · by_cases room : a.other < limit
      · have result : Spawn.performDup2 limit fds a.fd a.other =
            (fds.put a.other ⟨d.file, false⟩, .ok ()) := by
          simp [Spawn.performDup2, dup2, self, read, room]
        rw [if_pos (.inr room), result]
        exact ⟨rfl, placed⟩
      · have result : Spawn.performDup2 limit fds a.fd a.other = (fds, .error .EBADF) := by
          simp [Spawn.performDup2, dup2, self, read, room]
        rw [if_neg (not_or.mpr ⟨self, room⟩), result]
        exact ⟨rfl, tracks⟩

theorem Tracks.moved (tracks : Tracks report writeEnd alien fds v) {fd : Nat}
    (inside : fd < maxFds) (other : fd ≠ report) (elsewhere : fds.lowest 0 ≠ fd) {file : Nat}
    (native : ¬ alien file) (flag : Bool) :
    Tracks report writeEnd alien
      (((fds.put (fds.lowest 0) ⟨file, flag⟩).put fd ⟨file, false⟩).close (fds.lowest 0))
      (Function.update v fd (some ⟨file, false⟩)) := by
  have placed := tracks.put inside other (d := ⟨file, false⟩) native
  have free := Fds.isOpen_eq_false.mp (fds.lowest_free 0)
  refine ⟨fun n => ?_, placed.unused, placed.small, placed.foreign⟩
  rw [← placed.entry]
  by_cases first : n = fds.lowest 0
  · simp [first, elsewhere, free]
  · simp [first]

theorem Tracks.performOpen (tracks : Tracks report writeEnd alien fds v) {a : SpawnAction}
    (type : a.type = .openFile) (unnamed : ¬ a.Names report) (plain : a.flags.cloexec = false)
    {found : Except Errno Nat} (fresh : ∀ file, found = .ok file → ¬ alien file) :
    Agrees report writeEnd alien v (performOpen limit fds found a.fd a.flags)
      (a.apply limit report found v) := by
  have other : a.fd ≠ report := fun same => unnamed (.inl same)
  simp only [SpawnAction.apply, type]
  by_cases full : limit ≤ fds.lowest 0
  · have result : Spawn.performOpen limit fds found a.fd a.flags = (fds, .error .EMFILE) := by
      simp [Spawn.performOpen, openFile, Nat.not_lt.mpr full]
    rw [if_pos (tracks.full_iff.mpr full), result]
    exact ⟨rfl, tracks⟩
  · rw [if_neg fun taken => full (tracks.full_iff.mp taken)]
    have room : fds.lowest 0 < limit := Nat.lt_of_not_le full
    cases found with
    | error e =>
      have result : Spawn.performOpen limit fds (.error e) a.fd a.flags = (fds, .error e) := by
        simp [Spawn.performOpen, openFile, room]
      rw [result]
      exact ⟨rfl, tracks⟩
    | ok file =>
      have native := fresh file rfl
      have opened : openFile limit fds (.ok file) a.flags =
          .ok (fds.lowest 0, fds.put (fds.lowest 0) ⟨file, false⟩) := by
        simp [openFile, room, Fds.allocate, plain]
      by_cases here : fds.lowest 0 = a.fd
      · -- The lowest free number is the one asked for, and below the limit with it.
        have result : Spawn.performOpen limit fds (.ok file) a.fd a.flags =
            (fds.put a.fd ⟨file, false⟩, .ok ()) := by
          simp only [Spawn.performOpen, opened, here, if_true]
        simp only [here ▸ room, if_true]
        rw [result]
        exact ⟨rfl, tracks.put a.fd_lt other native⟩
      · have read : (fds.put (fds.lowest 0) ⟨file, false⟩).entry (fds.lowest 0) =
            some ⟨file, false⟩ := by simp
        by_cases inside : a.fd < limit
        · have result : Spawn.performOpen limit fds (.ok file) a.fd a.flags =
              (((fds.put (fds.lowest 0) ⟨file, false⟩).put a.fd ⟨file, false⟩).close
                (fds.lowest 0), .ok ()) := by
            simp only [Spawn.performOpen, opened, here, if_false, dup2, read, inside, if_true]
          simp only [inside, if_true]
          rw [result]
          exact ⟨rfl, tracks.moved a.fd_lt other here native false⟩
        · have result : Spawn.performOpen limit fds (.ok file) a.fd a.flags =
              ((fds.put (fds.lowest 0) ⟨file, false⟩).close (fds.lowest 0), .error .EBADF) := by
            simp only [Spawn.performOpen, opened, here, if_false, dup2, read, inside]
          simp only [inside, if_false]
          rw [result]
          refine ⟨rfl, fun n => ?_, tracks.unused, tracks.small, tracks.foreign⟩
          rw [← tracks.entry]
          by_cases first : n = fds.lowest 0
          · simp [first, Fds.isOpen_eq_false.mp (fds.lowest_free 0)]
          · simp [first]

theorem Tracks.perform (tracks : Tracks report writeEnd alien fds v) {a : SpawnAction}
    (unnamed : ¬ a.Names report) (plain : a.type = .openFile → a.flags.cloexec = false)
    {found : Except Errno Nat} (fresh : ∀ file, found = .ok file → ¬ alien file) :
    Agrees report writeEnd alien v (a.perform limit report found fds)
      (a.apply limit report found v) := by
  rw [SpawnAction.perform, if_neg unnamed]
  cases type : a.type with
  | dup2 => exact tracks.performDup2 type unnamed found
  | openFile => exact tracks.performOpen type unnamed (plain type) fresh
  | close =>
    have other : a.fd ≠ report := fun same => unnamed (.inl same)
    simp only [SpawnAction.apply, type]
    refine ⟨rfl, ?_⟩
    have removed := tracks.remove (· = a.fd) (fds.close a.fd) fun n => by
      by_cases here : n = a.fd
      · simp [here, other]
      · simp [here]
    have same : Function.update v a.fd none = fun n => if n = a.fd then none else v n :=
      funext fun n => Function.update_apply v a.fd none n
    rw [same]
    exact removed
  | closefrom =>
    simp only [SpawnAction.apply, type]
    exact ⟨rfl, tracks.closefrom a.fd a.fd_lt⟩

end Tracks

end LashOs.Spawn
