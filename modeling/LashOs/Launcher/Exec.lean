import Mathlib.Tactic.IntervalCases
import LashOs.Launcher.Cleanup

/-!
# What crosses into the virtual machine monitor

`launch_qemu` runs in the child with a copy of the launcher's table. It moves four descriptors to
the numbers that the command line of QEMU names, closes the rest and puts `/dev/null` on the
standard streams. The numbers 2 to 5 may be taken by anything, also by one of the four.

That `/dev/null` does not stay open under a number of its own, or close a standard stream again,
rests on 0 and 1 being open before: the launcher itself owns enough descriptors at that time.
-/
namespace LashOs.Launcher

open Base Holder

/-- The calls of `launch_qemu` that the kernel can refuse. -/
inductive QemuCall where
  | keepShare | keepChannel | keepSerial | keepErrors
  | placeShare | placeChannel | placeSerial | placeErrors
  | root
  -- The parent is alive, and every limit and restriction is set.
  | confine
  | closeRange | null | placeInput | placeOutput
  deriving DecidableEq, Repr

/-- `fcntl(fd, F_DUPFD_CLOEXEC, minimum)`. -/
def dupFd (d : Fds Descriptor) (fd minimum : Nat) (ok : Bool) : Option (Nat × Fds Descriptor) :=
  match d.entry fd with
  | none => none
  | some x => if ok then some (d.allocate minimum { x with cloexec := true }) else none

def dup2 (d : Fds Descriptor) (old new : Nat) (ok : Bool) : Option (Fds Descriptor) :=
  match d.entry old with
  | none => none
  | some x =>
    if !ok then none
    else if old = new then some d
    else some (d.put new { x with cloexec := false })

def openFile (d : Fds Descriptor) (file : Opened) (ok : Bool) : Option (Nat × Fds Descriptor) :=
  if ok then some (d.allocate 0 ⟨file, true⟩) else none

theorem closeRange_closed (d : Fds Descriptor) (first n : Nat) (above : d.bound ≤ n) :
    (if n < first then d.entry n else none) = none := by
  split
  · exact d.closed n above
  · rfl

/-- `close_range(first, ~0U, 0)`. -/
def closeRange (d : Fds Descriptor) (first : Nat) : Fds Descriptor where
  entry n := if n < first then d.entry n else none
  bound := d.bound
  closed := closeRange_closed d first

/-- The copies of the four descriptors above all numbers that matter, and the table with them. -/
structure Copies where
  share : Nat
  channel : Nat
  serial : Nat
  errors : Nat
  fds : Fds Descriptor

/-- The first statements of `launch_qemu`. -/
def keepDescriptors (d : Fds Descriptor) (share channel serial errors : Nat)
    (ok : QemuCall → Bool) : Option Copies := do
  let (keptShare, d) ← dupFd d share 10 (ok .keepShare)
  let (keptChannel, d) ← dupFd d channel 10 (ok .keepChannel)
  let (keptSerial, d) ← dupFd d serial 10 (ok .keepSerial)
  let (keptErrors, d) ← dupFd d errors 10 (ok .keepErrors)
  some ⟨keptShare, keptChannel, keptSerial, keptErrors, d⟩

/-- The copies take the numbers that QEMU expects. -/
def placeDescriptors (c : Copies) (ok : QemuCall → Bool) : Option (Fds Descriptor) := do
  let d ← dup2 c.fds c.share 3 (ok .placeShare)
  let d ← dup2 d c.channel 4 (ok .placeChannel)
  let d ← dup2 d c.serial 5 (ok .placeSerial)
  dup2 d c.errors 2 (ok .placeErrors)

/-- The null device on the standard streams, and what `execve` keeps. -/
def nullStreams (d : Fds Descriptor) (ok : QemuCall → Bool) : Option (Fds Descriptor) := do
  let (null, d) ← openFile d .null (ok .null)
  let d ← dup2 d null 0 (ok .placeInput)
  let d ← dup2 d null 1 (ok .placeOutput)
  some ((d.close null).keep fun x => !x.cloexec)

/-- The rest, up to and with `execve`. -/
def enterQemu (d : Fds Descriptor) (ok : QemuCall → Bool) : Option (Fds Descriptor) := do
  let (_, d) ← openFile d .privateRoot (ok .root)
  if !ok .confine || !ok .closeRange then none else nullStreams (closeRange d 6) ok

/-- The table with which QEMU starts, if it starts. -/
def launchQemu (d : Fds Descriptor) (share channel serial errors : Nat) (ok : QemuCall → Bool) :
    Option (Fds Descriptor) := do
  let copies ← keepDescriptors d share channel serial errors ok
  let d ← placeDescriptors copies ok
  enterQemu d ok

/-- The descriptors that the command line of QEMU refers to. -/
def exported : Nat → Option Descriptor
  | 0 => some ⟨.null, false⟩
  | 1 => some ⟨.null, false⟩
  | 2 => some ⟨.errors true, false⟩
  | 3 => some ⟨.share, false⟩
  | 4 => some ⟨.channel true, false⟩
  | 5 => some ⟨.serial true, false⟩
  | _ => none

/-! ### The four that are kept -/

def Extends (d d' : Fds Descriptor) : Prop := ∀ n x, d.entry n = some x → d'.entry n = some x

theorem Extends.trans {d d' d'' : Fds Descriptor} (first : Extends d d') (second : Extends d' d'') :
    Extends d d'' :=
  fun n x here => second n x (first n x here)

theorem Extends.isOpen {d d' : Fds Descriptor} (ext : Extends d d') {n : Nat}
    (here : d.isOpen n = true) : d'.isOpen n = true := by
  obtain ⟨x, found⟩ := Option.isSome_iff_exists.mp here
  rw [Fds.isOpen, ext n x found]
  rfl

theorem extends_allocate (d : Fds Descriptor) (minimum : Nat) (x : Descriptor) :
    Extends d (d.allocate minimum x).2 := by
  intro n y here
  have free := d.lowest_free minimum
  have other : n ≠ d.lowest minimum := by
    rintro rfl
    rw [Fds.isOpen, here] at free
    cases free
  simpa [Fds.allocate, other] using here

theorem dupFd_spec {d : Fds Descriptor} {fd : Nat} {x : Descriptor} (here : d.entry fd = some x) :
    ∃ n d', dupFd d fd 10 true = some (n, d') ∧ 10 ≤ n ∧
      d'.entry n = some { x with cloexec := true } ∧ Extends d d' := by
  refine ⟨_, _, ?_, d.le_lowest 10, ?_, extends_allocate d 10 { x with cloexec := true }⟩
  · rw [dupFd, here]
    rfl
  · simp [Fds.allocate]

theorem dup2_eq {d : Fds Descriptor} {old new : Nat} {x : Descriptor}
    (here : d.entry old = some x) (other : old ≠ new) :
    dup2 d old new true = some (d.put new { x with cloexec := false }) := by
  simp [dup2, here, other]

/-- The numbers that QEMU expects, once they are in place. -/
structure Placed (d : Fds Descriptor) : Prop where
  input : d.isOpen 0 = true
  output : d.isOpen 1 = true
  errors : d.entry 2 = exported 2
  share : d.entry 3 = exported 3
  channel : d.entry 4 = exported 4
  serial : d.entry 5 = exported 5

theorem Placed.of_extends {d d' : Fds Descriptor} (placed : Placed d) (ext : Extends d d') :
    Placed d' :=
  ⟨ext.isOpen placed.input, ext.isOpen placed.output, ext 2 _ placed.errors, ext 3 _ placed.share,
    ext 4 _ placed.channel, ext 5 _ placed.serial⟩

theorem Placed.lowest_closeRange {d : Fds Descriptor} (placed : Placed d) :
    (closeRange d 6).lowest 0 = 6 := by
  have taken : ∀ n < 6, (closeRange d 6).isOpen n = true := by
    intro n below
    rw [Fds.isOpen, closeRange]
    dsimp only
    rw [if_pos below]
    interval_cases n
    · exact placed.input
    · exact placed.output
    · rw [placed.errors]; rfl
    · rw [placed.share]; rfl
    · rw [placed.channel]; rfl
    · rw [placed.serial]; rfl
  refine Nat.le_antisymm (Fds.lowest_le _ (Nat.zero_le 6) ?_) ((Fds.le_lowest_iff _ 6).mpr taken)
  simp [Fds.isOpen, closeRange]

section Launch

variable {d d' : Fds Descriptor} {share channel serial errors : Nat} {ok : QemuCall → Bool}

/-- The four numbers that the launcher passes refer to what they should. -/
structure Passed (d : Fds Descriptor) (share channel serial errors : Nat) : Prop where
  input : d.isOpen 0 = true
  output : d.isOpen 1 = true
  share : d.entry share = some ⟨.share, true⟩
  channel : d.entry channel = some ⟨.channel true, true⟩
  serial : d.entry serial = some ⟨.serial true, true⟩
  errors : d.entry errors = some ⟨.errors true, true⟩

/-- The copies are open above all numbers that are replaced, and nothing else has changed. -/
structure Copied (d : Fds Descriptor) (c : Copies) : Prop where
  share : 10 ≤ c.share ∧ c.fds.entry c.share = some ⟨.share, true⟩
  channel : 10 ≤ c.channel ∧ c.fds.entry c.channel = some ⟨.channel true, true⟩
  serial : 10 ≤ c.serial ∧ c.fds.entry c.serial = some ⟨.serial true, true⟩
  errors : 10 ≤ c.errors ∧ c.fds.entry c.errors = some ⟨.errors true, true⟩
  stays : Extends d c.fds

theorem keepDescriptors_copied (passed : Passed d share channel serial errors) :
    ∃ c, keepDescriptors d share channel serial errors (fun _ => true) = some c ∧ Copied d c := by
  obtain ⟨a, d₁, first, highA, keptA, ext₁⟩ := dupFd_spec passed.share
  obtain ⟨b, d₂, second, highB, keptB, ext₂⟩ := dupFd_spec (ext₁ _ _ passed.channel)
  have ext₁₂ := ext₁.trans ext₂
  obtain ⟨c, d₃, third, highC, keptC, ext₃⟩ := dupFd_spec (ext₁₂ _ _ passed.serial)
  have ext₁₃ := ext₁₂.trans ext₃
  obtain ⟨e, d₄, fourth, highE, keptE, ext₄⟩ := dupFd_spec (ext₁₃ _ _ passed.errors)
  refine ⟨⟨a, b, c, e, d₄⟩, by simp [keepDescriptors, first, second, third, fourth], ?_⟩
  exact ⟨⟨highA, ext₄ _ _ (ext₃ _ _ (ext₂ _ _ keptA))⟩, ⟨highB, ext₄ _ _ (ext₃ _ _ keptB)⟩,
    ⟨highC, ext₄ _ _ keptC⟩, ⟨highE, keptE⟩, ext₁₃.trans ext₄⟩

def placedTable (d : Fds Descriptor) : Fds Descriptor :=
  (((d.put 3 ⟨.share, false⟩).put 4 ⟨.channel true, false⟩).put 5 ⟨.serial true, false⟩).put 2
    ⟨.errors true, false⟩

theorem placeDescriptors_eq {c : Copies} (copied : Copied d c) :
    placeDescriptors c (fun _ => true) = some (placedTable c.fds) := by
  have highChannel := copied.channel.1
  have highSerial := copied.serial.1
  have highErrors := copied.errors.1
  rw [placeDescriptors, dup2_eq copied.share.2 (by have := copied.share.1; omega)]
  simp only [Option.bind_eq_bind, Option.bind_some]
  rw [dup2_eq (x := ⟨.channel true, true⟩)
    (by simpa [show c.channel ≠ 3 by omega] using copied.channel.2) (by omega), Option.bind_some]
  rw [dup2_eq (x := ⟨.serial true, true⟩)
    (by simpa [show c.serial ≠ 3 by omega, show c.serial ≠ 4 by omega] using copied.serial.2)
    (by omega), Option.bind_some]
  exact dup2_eq (x := ⟨.errors true, true⟩)
    (by simpa [show c.errors ≠ 3 by omega, show c.errors ≠ 4 by omega, show c.errors ≠ 5 by omega]
      using copied.errors.2)
    (by omega)

theorem Copied.placed {c : Copies} (copied : Copied d c)
    (passed : Passed d share channel serial errors) : Placed (placedTable c.fds) where
  input := by simp [placedTable, copied.stays.isOpen passed.input]
  output := by simp [placedTable, copied.stays.isOpen passed.output]
  errors := by simp [placedTable, exported]
  share := by simp [placedTable, exported]
  channel := by simp [placedTable, exported]
  serial := by simp [placedTable, exported]

def nullTable (d : Fds Descriptor) : Fds Descriptor :=
  ((((d.put 6 ⟨.null, true⟩).put 0 ⟨.null, false⟩).put 1 ⟨.null, false⟩).close 6).keep
    fun x => !x.cloexec

theorem nullStreams_eq (next : d.lowest 0 = 6) :
    nullStreams d (fun _ => true) = some (nullTable d) := by
  have first : dup2 (d.put 6 ⟨.null, true⟩) 6 0 true =
      some ((d.put 6 ⟨.null, true⟩).put 0 ⟨.null, false⟩) :=
    dup2_eq (x := ⟨.null, true⟩) (by simp) (by omega)
  have second : dup2 ((d.put 6 ⟨.null, true⟩).put 0 ⟨.null, false⟩) 6 1 true =
      some (((d.put 6 ⟨.null, true⟩).put 0 ⟨.null, false⟩).put 1 ⟨.null, false⟩) :=
    dup2_eq (x := ⟨.null, true⟩) (by simp) (by omega)
  simp [nullStreams, openFile, Fds.allocate, next, first, second, nullTable]

theorem Placed.entry_nullTable (placed : Placed d) (n : Nat) :
    (nullTable (closeRange d 6)).entry n = exported n := by
  by_cases below : n < 6
  · have kept : (closeRange d 6).entry n = d.entry n := if_pos below
    simp only [nullTable, Fds.keep, Fds.entry_close, Fds.entry_put, kept]
    interval_cases n
    · rfl
    · rfl
    · simp [placed.errors, exported]
    · simp [placed.share, exported]
    · simp [placed.channel, exported]
    · simp [placed.serial, exported]
  · have gone : (closeRange d 6).entry n = none := if_neg below
    have nothing : exported n = none := by
      rw [exported.eq_def]
      split <;> first | omega | rfl
    simp only [nullTable, Fds.keep, Fds.entry_close, Fds.entry_put, gone, nothing]
    by_cases six : n = 6
    · simp [six]
    · simp [six, show n ≠ 0 by omega, show n ≠ 1 by omega]

theorem enterQemu_exports (placed : Placed d) :
    ∃ d', enterQemu d (fun _ => true) = some d' ∧ d'.entry = exported := by
  have still := placed.of_extends (extends_allocate d 0 ⟨.privateRoot, true⟩)
  exact ⟨_, nullStreams_eq still.lowest_closeRange, funext still.entry_nullTable⟩

theorem dupFd_ok {fd minimum : Nat} {granted : Bool} {kept : Nat × Fds Descriptor}
    (done : dupFd d fd minimum granted = some kept) : granted = true := by
  rw [dupFd] at done
  split at done
  · cases done
  · exact (Option.ite_none_right_eq_some.mp done).1

theorem dup2_ok {old new : Nat} {granted : Bool} (done : dup2 d old new granted = some d') :
    granted = true := by
  rw [dup2] at done
  split at done
  · cases done
  · simpa using (Option.ite_none_left_eq_some.mp done).1

theorem openFile_ok {file : Opened} {granted : Bool} {opened : Nat × Fds Descriptor}
    (done : openFile d file granted = some opened) : granted = true :=
  (Option.ite_none_right_eq_some.mp done).1

/-- QEMU starts only if no call fails. -/
theorem launchQemu_ok (launched : launchQemu d share channel serial errors ok = some d') :
    ok = fun _ => true := by
  obtain ⟨c, kept, launched⟩ := Option.bind_eq_some_iff.mp launched
  obtain ⟨d₁, placed, entered⟩ := Option.bind_eq_some_iff.mp launched
  simp only [keepDescriptors, Option.bind_eq_bind, Option.bind_eq_some_iff] at kept
  simp only [placeDescriptors, Option.bind_eq_bind, Option.bind_eq_some_iff] at placed
  simp only [enterQemu, nullStreams, Option.bind_eq_bind, Option.bind_eq_some_iff,
    Option.ite_none_left_eq_some, Bool.or_eq_true, Bool.not_eq_true', not_or,
    Bool.not_eq_false] at entered
  obtain ⟨_, share, _, channel, _, serial, _, errors, -⟩ := kept
  obtain ⟨_, share', _, channel', _, serial', errors'⟩ := placed
  obtain ⟨_, root, ⟨confine, closeRange⟩, _, null, _, input, _, output, -⟩ := entered
  funext call
  cases call with
  | keepShare => exact dupFd_ok share
  | keepChannel => exact dupFd_ok channel
  | keepSerial => exact dupFd_ok serial
  | keepErrors => exact dupFd_ok errors
  | placeShare => exact dup2_ok share'
  | placeChannel => exact dup2_ok channel'
  | placeSerial => exact dup2_ok serial'
  | placeErrors => exact dup2_ok errors'
  | root => exact openFile_ok root
  | confine => exact confine
  | closeRange => exact closeRange
  | null => exact openFile_ok null
  | placeInput => exact dup2_ok input
  | placeOutput => exact dup2_ok output

theorem launchQemu_exports (passed : Passed d share channel serial errors) :
    (∀ ok d', launchQemu d share channel serial errors ok = some d' → d'.entry = exported) ∧
    (launchQemu d share channel serial errors fun _ => true).isSome = true := by
  obtain ⟨c, kept, copied⟩ := keepDescriptors_copied passed
  obtain ⟨d', entered, exports⟩ := enterQemu_exports (copied.placed passed)
  have launched : launchQemu d share channel serial errors (fun _ => true) = some d' := by
    simp [launchQemu, kept, placeDescriptors_eq copied, entered]
  refine ⟨fun ok d'' started => ?_, by rw [launched]; rfl⟩
  obtain rfl := launchQemu_ok started
  rw [launched] at started
  cases started
  exact exports

end Launch

namespace Launch

def forkSlots : List Slot :=
  [.share, .root, .channel false, .channel true, .serial true, .errors true, .log false, .log true]

/-- When the launcher forks, the numbers that it passes are the right ones, and the standard
streams are open, if only with its own descriptors. -/
theorem Inv.passed {w : Grants} {entry s : Launch} (inv : Inv w entry s) (here : s.pc = .fork) :
    ∃ share channel serial errors, s.table.var .share = some share ∧
      s.table.var (.channel true) = some channel ∧ s.table.var (.serial true) = some serial ∧
      s.table.var (.errors true) = some errors ∧
      Passed s.table.fds share channel serial errors := by
  have at_ : At w s 19 := by simpa [here, Pc.stage] using inv.at_
  obtain ⟨kept, owns, -⟩ := inv.core.owns
  have holding : ∀ slot ∈ forkSlots, s.table.var slot ≠ none := by
    intro slot member
    refine at_.holding slot ?_ ?_
    all_goals
      revert slot
      decide
  have filled {n : Nat} (few : n < 8) : s.table.fds.isOpen n = true :=
    (at_.filled (by omega)).isOpen_of_lt owns forkSlots (by decide) holding few
  obtain ⟨share, first⟩ := Option.ne_none_iff_exists'.mp (holding .share (by decide))
  obtain ⟨channel, second⟩ := Option.ne_none_iff_exists'.mp (holding (.channel true) (by decide))
  obtain ⟨serial, third⟩ := Option.ne_none_iff_exists'.mp (holding (.serial true) (by decide))
  obtain ⟨errors, fourth⟩ := Option.ne_none_iff_exists'.mp (holding (.errors true) (by decide))
  refine ⟨share, channel, serial, errors, first, second, third, fourth, filled (by omega),
    filled (by omega), owns.held _ _ first, owns.held _ _ second, owns.held _ _ third,
    owns.held _ _ fourth⟩

/-- Whatever descriptors the launcher was started with, QEMU gets the null device, the diagnostics,
the shared folder, the console and the serial log under their numbers and nothing else. -/
theorem forked_exports {entry : Launch} (start : Entry entry) (choices : List Choice)
    (here : (run Launch.next entry choices).pc = .fork) :
    ∃ share channel serial errors,
      (run Launch.next entry choices).table.var .share = some share ∧
      (run Launch.next entry choices).table.var (.channel true) = some channel ∧
      (run Launch.next entry choices).table.var (.serial true) = some serial ∧
      (run Launch.next entry choices).table.var (.errors true) = some errors ∧
      (∀ ok d, launchQemu (run Launch.next entry choices).table.fds share channel serial errors ok =
        some d → d.entry = exported) ∧
      (launchQemu (run Launch.next entry choices).table.fds share channel serial errors
        fun _ => true).isSome = true := by
  have inv := (start.run_inv (permits_of_forall fun c _ s => allows_nothing s c)).resolve_left
    (by rw [here]; simp)
  obtain ⟨share, channel, serial, errors, first, second, third, fourth, passed⟩ := inv.passed here
  exact ⟨share, channel, serial, errors, first, second, third, fourth, launchQemu_exports passed⟩

/-- The launcher was started without any descriptor. -/
theorem forked_exports_fresh :
    ∃ share channel serial errors d,
      launchQemu (run Launch.next fresh (List.replicate 34 (.call smooth))).table.fds share channel
        serial errors (fun _ => true) = some d ∧ d.entry = exported := by
  obtain ⟨share, channel, serial, errors, -, -, -, -, exports, starts⟩ :=
    forked_exports fresh_entry (List.replicate 34 (.call smooth)) (by decide +kernel)
  obtain ⟨d, launched⟩ := Option.isSome_iff_exists.mp starts
  exact ⟨share, channel, serial, errors, d, launched, exports _ d launched⟩

end Launch

end LashOs.Launcher
