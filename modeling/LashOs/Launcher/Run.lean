import LashOs.Base.Ownership
import LashOs.Base.Run
import LashOs.Launcher.Removal

/-!
# A launch from start to return

`sandbox_run` as a machine. Each step is one statement of the source with the kernel's answers to
its calls, and between any two of them a signal can arrive. The state is what outlives the call if
nothing takes it back: the table of descriptors, the signal actions, the mode of the terminal, the
private directory, the child.

What a called function opens and closes itself is not in the table; what `remove_contents` leaves
open is. The relay is reduced to what it does to this state; the messages that it carries are
modelled with the console.
-/
namespace LashOs.Launcher

open Base

/-! ### Signals -/

inductive HandledSignal where
  | int | term | hup | quit | usr1 | usr2 | alrm | xcpu | xfsz | vtalrm | prof | winch | tstp | cont
  | pipe
  deriving DecidableEq, Repr

def HandledSignal.number : HandledSignal → Nat
  | .int => 2 | .term => 15 | .hup => 1 | .quit => 3 | .usr1 => 10 | .usr2 => 12 | .alrm => 14
  | .xcpu => 24 | .xfsz => 25 | .vtalrm => 26 | .prof => 27 | .winch => 28 | .tstp => 20
  | .cont => 18 | .pipe => 13

def handledSignals : List HandledSignal :=
  [.int, .term, .hup, .quit, .usr1, .usr2, .alrm, .xcpu, .xfsz, .vtalrm, .prof, .winch, .tstp,
    .cont, .pipe]

/-- What can arrive: a signal that the launcher handles, or another one, `SIGKILL` and `SIGABRT`
among them. The launcher leaves the actions of the others alone, so that all that matters is
whether it ends the process. -/
inductive Signal where
  | handled (signal : HandledSignal)
  | other (ends : Bool)
  deriving DecidableEq, Repr

/-- An action as it is inherited over `execve`, or the launcher's handler. -/
inductive Action where
  | default | ignored | caught
  deriving DecidableEq, Repr

/-- The action that `install_handlers` sets. -/
def installedAction (signal : HandledSignal) : Action :=
  if signal = .pipe then .ignored else .caught

/-- The default action ends the process, except for these. -/
def HandledSignal.endsByDefault : HandledSignal → Bool
  | .winch => false
  | .tstp => false
  | .cont => false
  | _ => true

/-- The signal actions, `struct sb_handlers` and the flags of `caught_signal`. -/
structure Handling where
  actions : HandledSignal → Action
  -- The actions that were replaced; `count` is their number.
  old : List Action
  -- How many of them `restore_handlers` has put back.
  restored : Nat
  interrupted : Option HandledSignal
  resized : Bool
  suspended : Bool
  continued : Bool

def Handling.set (h : Handling) (signal : HandledSignal) (action : Action) : Handling :=
  { h with actions := Function.update h.actions signal action }

/-- The first statement of `install_handlers`. -/
def Handling.clear (h : Handling) : Handling :=
  { h with interrupted := none, resized := false, suspended := false, continued := false }

def caughtSignal (h : Handling) (signal : HandledSignal) : Handling :=
  match signal with
  | .winch => { h with resized := true }
  | .tstp => { h with suspended := true }
  | .cont => { h with continued := true }
  | signal => { h with interrupted := h.interrupted.or (some signal) }

/-- One round of the loop of `install_handlers`. -/
def installHandler (h : Handling) (signal : HandledSignal) : Handling :=
  { h.set signal (installedAction signal) with old := h.old ++ [h.actions signal] }

/-- One round of the loop of `restore_handlers`. -/
def restoreHandler (h : Handling) (signal : HandledSignal) (action : Action) : Handling :=
  { h.set signal action with restored := h.restored + 1 }

/-! ### The terminal -/

/-- Modes of the terminal: one that the caller set, or the launcher's. -/
inductive TerminalMode where
  | callers | raw
  deriving DecidableEq, Repr

/-- The terminal and `struct sb_terminal`. -/
structure Terminal where
  mode : TerminalMode
  active : Bool
  raw : Bool

def terminalRaw (t : Terminal) (set : Bool) : Terminal :=
  if set then { t with mode := .raw, raw := true } else t

def terminalRestore (t : Terminal) (set : Bool) : Terminal :=
  if t.raw && set then { t with mode := .callers, raw := false } else t

/-! ### Private files -/

inductive RuntimeBase where
  | tmp | varTmp
  deriving DecidableEq, Repr

/-- What `mkdtemp` made of `lash-os-XXXXXX`. -/
structure Directory where
  base : RuntimeBase
  suffix : Nat
  deriving DecidableEq, Repr

abbrev Contents : Type := Forest (List UInt8) FileLeaf

/-- The directories of this pattern in the file system, and the variable `directory`. -/
structure Files where
  contents : Directory → Option Contents
  name : Option Directory

def Files.set (f : Files) (d : Directory) (c : Option Contents) : Files :=
  { f with contents := Function.update f.contents d c }

/-- The answers while `private_directory` tries one base. -/
structure Candidate where
  -- The base opens and is usable.
  usable : Bool
  -- The suffix that `mkdtemp` finds.
  suffix : Option Nat
  -- The new directory opens and is usable as well.
  created : Bool
  -- The kernel removes it again.
  removed : Bool

/-- One round of the loop of `private_directory`; `name` is set when it returns. -/
def tryBase (base : RuntimeBase) (c : Candidate) (f : Files) : Files :=
  match c.suffix with
  | none => f
  | some suffix =>
    let d : Directory := ⟨base, suffix⟩
    -- `mkdtemp` makes a new directory or none.
    if !c.usable || (f.contents d).isSome then f
    else if c.created then { f.set d (some .nil) with name := some d }
    else if c.removed then f
    else f.set d (some .nil)

def privateDirectory (tmp varTmp : Candidate) (f : Files) : Files :=
  let tried := tryBase .tmp tmp f
  if tried.name.isSome then tried else tryBase .varTmp varTmp tried

def Files.change (f : Files) (change : Contents → Contents) : Files :=
  match f.name with
  | none => f
  | some d => f.set d ((f.contents d).map change)

/-- `rmdir(directory)` succeeds on an empty directory if the kernel does not refuse. -/
def removePrivate (f : Files) (removed : Bool) : Files :=
  match f.name with
  | none => f
  | some d =>
    if removed && ((f.contents d).map fun c => c.names.isEmpty) == some true then
      { f.set d none with name := none }
    else f

/-! ### Descriptors -/

/-- What a descriptor refers to. The second end of a pair is the one for the child. -/
inductive Opened where
  | callers (file : Nat)
  | kvm | share | privateRoot
  | channel (second : Bool) | serial (second : Bool) | errors (second : Bool)
  | stream (i : Fin 3)
  | null
  -- A directory below the private one, and what `remove_contents` gives to `fdopendir`.
  | privateEntry | privateCopy
  deriving DecidableEq, Repr

structure Descriptor where
  file : Opened
  cloexec : Bool
  deriving DecidableEq, Repr

/-- The variables that hold descriptors. A variable that is closed for the last time counts as
empty, although the source does not assign it. -/
inductive Slot where
  | kvm | share | root
  | channel (second : Bool) | serial (second : Bool) | errors (second : Bool)
  | log (second : Bool)
  | stream (i : Fin 3)
  deriving DecidableEq, Repr

/-- What is opened for a variable; a log has the end of a pair that is read. -/
def Slot.file : Slot → Opened
  | .kvm => .kvm
  | .share => .share
  | .root => .privateRoot
  | .channel second => .channel second
  | .serial second => .serial second
  | .errors second => .errors second
  | .log second => if second then .errors false else .serial false
  | .stream i => .stream i

/-- Everything is opened with `O_CLOEXEC` or `SOCK_CLOEXEC`. -/
def Slot.descriptor (slot : Slot) : Descriptor := ⟨slot.file, true⟩

/-- The result of `dup` in `remove_contents`. -/
def copyDescriptor : Descriptor := ⟨.privateCopy, false⟩

abbrev Table : Type := Holder Slot Descriptor

def openSlot (t : Table) (slot : Slot) : Table := t.openInto slot slot.descriptor

def openPair (t : Table) (slot : Bool → Slot) : Table :=
  openSlot (openSlot t (slot false)) (slot true)

/-- `stream_open`: a pipe or a terminal that reopens as the same file gets a description of its
own; in every other case the caller's descriptor is used. -/
def streamOpen (t : Table) (reopens : Fin 3 → Bool) (i : Fin 3) : Table :=
  if reopens i then openSlot t (.stream i) else t

def openStreams (t : Table) (reopens : Fin 3 → Bool) : Table :=
  [0, 1, 2].foldl (streamOpen · reopens) t

def streamSlots : List Slot := [.stream 0, .stream 1, .stream 2]

def pairSlots : List Slot :=
  [.channel false, .serial false, .errors false, .channel true, .serial true, .errors true]

def logSlots : List Slot := [.log false, .log true]

/-- The logs that `log_drain` closes. -/
def drainedSlots (drained : Bool → Bool) : List Slot :=
  ([false, true].filter drained).map Slot.log

/-! ### The machine -/

inductive Pc where
  | logs | privileges | kvm | kvmVersion | landlock | handlers | share | hostRoot | directory | root
  | extract | modules | configure | channel | serial | errors | nonblock | terminal | streams | fork
  | ends | relay
  | fail | done
  | reap (round : Nat) | kill
  | restoreTerminal | restoreHandlers | closeStreams | closePairs | closeLogs
  | removeContents | removeDirectory | closeShare
  | returned
  -- A signal has ended the process.
  | killed
  deriving DecidableEq, Repr

/-- The value of `step` where the launch is, for the message of a failure. -/
def Pc.step : Pc → String
  | .logs => "allocating launcher state"
  | .privileges => "dropping host privileges"
  | .kvm | .kvmVersion =>
    "checking KVM access (enable virtualization and grant this user /dev/kvm access)"
  | .landlock => "checking Landlock ABI 6 support (required for sandbox mode)"
  | .handlers => "installing signal handlers"
  | .share | .hostRoot => "opening the launch directory"
  | .directory | .root =>
    "creating private VM files outside the launch folder (tried /tmp and /var/tmp)"
  | .extract | .modules => "extracting the bundled VM"
  | .configure | .channel | .serial | .errors | .nonblock => "preparing VM arguments"
  | .terminal => "configuring the terminal"
  | _ => "starting the VM"

inductive ChildState where
  | none | running | reaped
  deriving DecidableEq, Repr

structure Launch where
  pc : Pc
  table : Table
  handling : Handling
  terminal : Terminal
  files : Files
  child : ChildState
  step : String
  printed : List String
  failed : Bool
  result : Nat

/-- The answers to the calls of one step; a step reads those of its own calls. -/
structure Answers where
  -- The calls of the step succeed.
  ok : Bool
  -- The launch directory is the root of the host.
  hostRoot : Bool
  tmp : Candidate
  varTmp : Candidate
  -- What the private directory holds after the step.
  contents : Contents
  isatty : Bool
  foreground : Bool
  -- `tcsetattr` to the raw mode succeeds.
  raw : Bool
  -- `tcsetattr` to the saved mode succeeds before the launcher stops itself.
  stopRestored : Bool
  reopens : Fin 3 → Bool
  -- A log is at its end.
  drained : Bool → Bool
  -- The relay ends with this result, and whether the guest sent its exit status.
  finish : Option (Nat × Bool)
  -- `tcsetattr` to the saved mode succeeds at the end.
  restored : Bool
  refusals : Refusals (List UInt8)
  -- The private directory can be removed when it is empty.
  rmdir : Bool

inductive Choice where
  | signal (signal : Signal)
  | call (answers : Answers)

namespace Launch

def goto (s : Launch) (pc : Pc) : Launch := { s with pc := pc }

/-- `goto fail`. -/
def giveUp (s : Launch) : Launch := { s with pc := .fail, step := s.pc.step }

/-- The next statement if the calls of this one succeed. -/
def check (s : Launch) (ok : Bool) (pc : Pc) : Launch := if ok then s.goto pc else s.giveUp

def acquire (s : Launch) (ok : Bool) (table : Table) (pc : Pc) : Launch :=
  if ok then { s with table := table, pc := pc } else s.giveUp

def isInterrupted (s : Launch) : Bool := s.handling.interrupted.isSome

/-- One round of the loop of `install_handlers`. -/
def install (s : Launch) (ok : Bool) : Launch :=
  match handledSignals[s.handling.old.length]? with
  | none => s.goto .share
  | some signal =>
    if ok then { s with handling := installHandler s.handling signal } else s.giveUp

/-- One round of the loop of `restore_handlers`. -/
def restore (s : Launch) : Launch :=
  match handledSignals[s.handling.restored]?, s.handling.old[s.handling.restored]? with
  | some signal, some action => { s with handling := restoreHandler s.handling signal action }
  | _, _ => s.goto .closeStreams

def makeDirectory (s : Launch) (a : Answers) : Launch :=
  if s.isInterrupted then s.giveUp
  else
    let files := privateDirectory a.tmp a.varTmp s.files
    { s with files := files, pc := if files.name.isSome then .root else .fail, step := s.pc.step }

/-- A step that writes to the private directory, also when it fails. -/
def write (s : Launch) (a : Answers) (pc : Pc) : Launch :=
  if s.isInterrupted then s.giveUp
  else
    let s := { s with files := s.files.change fun _ => a.contents }
    s.check a.ok pc

def setTerminal (s : Launch) (a : Answers) : Launch :=
  if !s.terminal.active then s.goto .streams
  else if !a.ok then s.giveUp
  else if a.foreground then
    let s' := { s with terminal := terminalRaw s.terminal a.raw }
    if a.raw then s'.goto .streams else s.giveUp
  else s.goto .streams

def startChild (s : Launch) (ok : Bool) : Launch :=
  if s.isInterrupted || !ok then s.giveUp else { s with child := .running, pc := .ends }

/-- The end of `console_relay`. -/
def leaveRelay (s : Launch) (result : Nat) (receivedExit : Bool) : Launch :=
  { s with result := result, failed := s.failed || (!receivedExit && result == 125), pc := .done }

/-- What a stopped and continued launcher does with the terminal. -/
def resume (s : Launch) (a : Answers) : Launch :=
  let s :=
    if s.handling.suspended then
      { s with terminal := terminalRestore s.terminal a.stopRestored,
               handling := { s.handling with suspended := false, continued := true } }
    else s
  if s.handling.continued then
    let raw := s.terminal.active && a.foreground && a.raw
    { s with terminal := terminalRaw s.terminal raw,
             handling := { s.handling with continued := false,
                                           resized := s.handling.resized || raw } }
  else s

/-- One round of the loop of `console_relay`. -/
def relay (s : Launch) (a : Answers) : Launch :=
  match s.handling.interrupted with
  | some signal => s.leaveRelay (128 + signal.number) true
  | none =>
    let s := s.resume a
    let s := { s with table := s.table.closeAll (drainedSlots a.drained) }
    match a.finish with
    | none => s
    | some (result, receivedExit) => s.leaveRelay result receivedExit

def reportFailure (s : Launch) : Launch :=
  match s.handling.interrupted with
  | some signal => { s with result := 128 + signal.number, pc := .done }
  | none =>
    { s with failed := true, printed := s.printed ++ ["lash-os: " ++ s.step], pc := .done }

/-- The kernel's answer to `waitpid` with `WNOHANG`, up to fifty times. -/
def reap (s : Launch) (round : Nat) (ok : Bool) : Launch :=
  if ok then { s with child := .reaped, pc := .restoreTerminal }
  else if round + 1 < 50 then s.goto (.reap (round + 1)) else s.goto .kill

/-- `remove_contents(root)` and `close(root)`. -/
def emptyDirectory (s : Launch) (refusals : Refusals (List UInt8)) : Launch :=
  let contents := (s.files.name.bind s.files.contents).getD .nil
  let fds := walkContents ⟨.privateEntry, true⟩ copyDescriptor refusals contents s.table.fds
  { s with files := s.files.change (Launcher.removeContents refusals),
           table := { s.table with fds := fds }.closeOf .root, pc := .removeDirectory }

/-- The next statement of `sandbox_run`. -/
def call (s : Launch) (a : Answers) : Launch :=
  match s.pc with
  | .logs => s.check a.ok .privileges
  | .privileges => s.check a.ok .kvm
  | .kvm => s.acquire a.ok (openSlot s.table .kvm) .kvmVersion
  | .kvmVersion => s.acquire a.ok (s.table.closeOf .kvm) .landlock
  | .landlock =>
    if a.ok then { s with handling := s.handling.clear, pc := .handlers } else s.giveUp
  | .handlers => s.install a.ok
  | .share => s.acquire a.ok (openSlot s.table .share) .hostRoot
  | .hostRoot =>
    if !a.ok then s.giveUp
    else if a.hostRoot then
      { s with pc := .done, printed := s.printed ++
        ["lash-os: choose a working folder; sharing the host root is refused"] }
    else s.goto .directory
  | .directory => s.makeDirectory a
  | .root => s.acquire a.ok (openSlot s.table .root) .extract
  | .extract => s.write a .modules
  | .modules => { s with files := s.files.change fun _ => a.contents }.check a.ok .configure
  | .configure => { s with terminal := { s.terminal with active := a.isatty } }.write a .channel
  | .channel => s.acquire a.ok (openPair s.table .channel) .serial
  | .serial => s.acquire a.ok (openPair s.table .serial) .errors
  | .errors => s.acquire a.ok (openPair s.table .errors) .nonblock
  | .nonblock =>
    s.acquire a.ok ((s.table.move (.serial false) (.log false)).move (.errors false) (.log true))
      .terminal
  | .terminal => s.setTerminal a
  | .streams => { s with table := openStreams s.table a.reopens, pc := .fork }
  | .fork => s.startChild a.ok
  | .ends =>
    let s := { s with table := s.table.closeAll [.serial true, .errors true, .channel true] }
    -- `console_relay` fails at once when it cannot allocate its queues.
    if a.ok then s.goto .relay else s.leaveRelay 125 false
  | .relay => s.relay a
  | .fail => s.reportFailure
  | .done => if s.child = .running then s.goto (.reap 0) else s.goto .restoreTerminal
  | .reap round => s.reap round a.ok
  -- `waitpid` is repeated while a signal interrupts it.
  | .kill => if a.ok then { s with child := .reaped, pc := .restoreTerminal } else s
  | .restoreTerminal =>
    { s with terminal := terminalRestore s.terminal a.restored, pc := .restoreHandlers }
  | .restoreHandlers => s.restore
  | .closeStreams => { s with table := s.table.closeAll streamSlots, pc := .closePairs }
  | .closePairs => { s with table := s.table.closeAll pairSlots, pc := .closeLogs }
  -- A log that `log_drain` has not closed at its end is closed after sixteen rounds.
  | .closeLogs => { s with table := s.table.closeAll logSlots, pc := .removeContents }
  | .removeContents =>
    if (s.table.var .root).isSome then s.emptyDirectory a.refusals else s.goto .removeDirectory
  | .removeDirectory => { s with files := removePrivate s.files a.rmdir, pc := .closeShare }
  | .closeShare => { s with table := s.table.closeAll [.share, .kvm], pc := .returned }
  | .returned => s
  | .killed => s

def deliver (s : Launch) (signal : Signal) : Launch :=
  if s.pc = .returned then s
  else
    match signal with
    | .other ends => if ends then s.goto .killed else s
    | .handled signal =>
      match s.handling.actions signal with
      | .ignored => s
      | .caught => { s with handling := caughtSignal s.handling signal }
      | .default => if signal.endsByDefault then s.goto .killed else s

def next (s : Launch) : Choice → Launch
  | .signal signal => s.deliver signal
  | .call a => s.call a

/-- The state in which `sandbox_run` is entered. -/
structure Entry (s : Launch) : Prop where
  pc : s.pc = .logs
  empty : ∀ slot, s.table.var slot = none
  handlers : s.handling.old = [] ∧ s.handling.restored = 0
  terminal : s.terminal.mode = .callers ∧ s.terminal.raw = false
  name : s.files.name = none
  child : s.child = .none

end Launch

end LashOs.Launcher
