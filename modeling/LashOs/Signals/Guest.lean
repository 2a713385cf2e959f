import LashOs.Base.Run
import LashOs.Errno
import LashOs.Signals.Machine

/-!
# The guest's side of signals

`signal_guest.h` and `ppoll` together with the requests they make of the loader. The guest's
own code is arbitrary: it calls any of these functions, makes any other bridge call, returns
from the handler that runs or jumps to an active frame with `longjmp`. The dispatcher takes
one round of its loop at a time, since a handler runs between two rounds. The loader has the
control while a request is served; it publishes then, and Linux delivers at any time.

`owedPending` and `owedPublished` record history: the signals of either queue that were
recorded for a handler and whose handler the guest has not replaced by `SIG_DFL` or
`SIG_IGN` since.
-/
namespace LashOs.Signals

open Base

/-! ### Actions -/

/-- `sa_handler`; a function is known by its address. -/
inductive Handler where
  | default
  | ignore
  | function (address : Nat)
  deriving DecidableEq, Repr

def Handler.isFunction : Handler → Bool
  | .function _ => true
  | _ => false

@[simp] theorem Handler.isFunction_default : Handler.default.isFunction = false := rfl

@[simp] theorem Handler.isFunction_ignore : Handler.ignore.isFunction = false := rfl

/-- The guest's `sa_flags`. -/
abbrev ActionFlags : Type := BitVec 32

/-- `SA_RESETHAND` -/
def ActionFlags.resetHand (flags : ActionFlags) : Bool := flags.getLsbD 2

/-- `SA_NODEFER` -/
def ActionFlags.noDefer (flags : ActionFlags) : Bool := flags.getLsbD 6

/-- The guest's `struct sigaction`. -/
structure SigAction where
  handler : Handler
  mask : SigSet
  flags : ActionFlags

def SigAction.OneShot (a : SigAction) : Prop :=
  a.handler.isFunction = true ∧ a.flags.resetHand = true

def SigAction.guard (a : SigAction) (n : Signal) : SigSet :=
  fun m => a.mask m || (!a.flags.noDefer && m == n)

/-- The mode of a `struct bridge_signal_action`, and of a native action: its handler can only
be `record_signal`. -/
inductive Mode where
  | default
  | ignore
  | handler
  deriving DecidableEq, Repr

def Handler.mode : Handler → Mode
  | .default => .default
  | .ignore => .ignore
  | .function _ => .handler

/-- `struct bridge_signal_action` -/
structure PackedAction where
  mask : SigSet
  mode : Mode
  flags : ActionFlags

/-- The native `sa_flags`. -/
structure NativeFlags where
  noCldStop : Bool
  onStack : Bool
  resetHand : Bool
  restart : Bool
  sigInfo : Bool
  noCldWait : Bool
  noDefer : Bool
  deriving DecidableEq, Repr

def nativeActionFlags (flags : ActionFlags) : NativeFlags where
  noCldStop := flags.getLsbD 0
  onStack := flags.getLsbD 1
  resetHand := flags.getLsbD 2
  restart := flags.getLsbD 3
  sigInfo := flags.getLsbD 4
  noCldWait := flags.getLsbD 5
  noDefer := flags.getLsbD 6

def guestActionFlags (f : NativeFlags) : ActionFlags :=
  (BitVec.ofBoolListLE
    [f.noCldStop, f.onStack, f.resetHand, f.restart, f.sigInfo, f.noCldWait, f.noDefer]).setWidth 32

structure NativeAction where
  mode : Mode
  mask : SigSet
  flags : NativeFlags

/-- The second pointer of `sigaction` and `sigprocmask`: it may be the first one again. -/
inductive OldPointer where
  | null
  | apart
  | same
  deriving DecidableEq, Repr

/-! ### The process -/

/-- A bridge call that is followed by a dispatch. `previous` is the guest's mask to restore. -/
inductive BridgeCall where
  | other
  | suspend (mask previous : SigSet)
  | poll (mask : Option SigSet) (previous : SigSet)

/-- The guest's mask that the call restores when it returns. -/
def BridgeCall.previous? : BridgeCall → Option SigSet
  | .other => none
  | .suspend _ previous => some previous
  | .poll _ previous => some previous

/-- The mask under which the loader waits, if it is not the process's own. -/
def BridgeCall.waitMask : BridgeCall → Option SigSet
  | .other => none
  | .suspend mask _ => some mask
  | .poll mask _ => mask

/-- An activation of `linux_bash_poll_signals`: the errno it restores, and the bridge call
with its error that it belongs to, unless the guest polls by itself. -/
structure Poll where
  savedErrno : Errno
  caller : Option (BridgeCall × Option Errno)

/-- A running handler: the action it was started from, the `previous` of its dispatcher, and
the activation that goes on when it returns. -/
structure Frame where
  signal : Signal
  action : SigAction
  previous : SigSet
  poll : Poll

inductive Phase where
  -- The guest's code runs: the innermost handler, or the program.
  | code
  -- `BR_SIGACTION` was served, and `sigaction` has not gone on.
  | installing (n : Signal) (action : Option SigAction) (old : OldPointer) (previous : PackedAction)
  -- `BR_SIGMASK` was served, and `sigprocmask` has not gone on.
  | masking (how : Int) (set : Option SigSet) (old : OldPointer) (previous : SigSet)
  -- The loader serves any other request.
  | calling (call : BridgeCall)
  -- The dispatcher is about to look at signal number `next + 1`.
  | polling (poll : Poll) (next : Nat)

def Phase.inLoader : Phase → Bool
  | .installing _ _ _ _ => true
  | .masking _ _ _ _ => true
  | .calling _ => true
  | _ => false

/-- The dispatcher's place in its loop. -/
def Phase.next? : Phase → Option Nat
  | .polling _ next => some next
  | _ => none

theorem Phase.exists_polling {phase : Phase} {next : Nat} (scans : phase.next? = some next) :
    ∃ poll, phase = .polling poll next := by
  cases phase with
  | polling poll at_ =>
    obtain rfl : at_ = next := by simpa [Phase.next?] using scans
    exact ⟨poll, rfl⟩
  | _ => simp [Phase.next?] at scans

/-- The native mask and dispositions, the loader's `pending_signals[]` and
`installed_signal_flags[]`, the mailbox's `pending_signals`, the variables of the guest, and
the running handlers, innermost first. -/
structure Process where
  mask : SigSet
  native : Signal → NativeAction
  pending : SigSet
  installedSignalFlags : Signal → ActionFlags
  published : SigSet
  guestActions : Signal → SigAction
  guestSignalMask : SigSet
  dispatchBlocked : SigSet
  errno : Errno
  phase : Phase
  frames : List Frame
  owedPending : SigSet
  owedPublished : SigSet

/-! ### Linux and the loader -/

/-- A signal is held back by the process's mask, unless the loader waits under another one. -/
def Process.holds (p : Process) (n : Signal) : Bool :=
  p.mask n &&
    match p.phase with
    | .calling call => (call.waitMask.map fun mask => mask n).getD true
    | _ => true

/-- A signal arrives. Linux resets a one-shot action when it delivers, and `record_signal`
stores the signal. -/
def Process.deliver (p : Process) (n : Signal) : Process :=
  if blockable n = true ∧ p.holds n = false ∧ (p.native n).mode = .handler then
    { p with
      pending := Function.update p.pending n true
      owedPending := Function.update p.owedPending n true
      native :=
        if (p.native n).flags.resetHand then
          Function.update p.native n { p.native n with mode := .default }
        else p.native }
  else p

/-- `publish_signals`, which blocks all signals. -/
def Process.publishSignals (p : Process) : Process :=
  { p with
    published := fun n => p.published n || p.pending n
    pending := fun _ => false
    owedPublished := fun n => p.owedPublished n || p.owedPending n
    owedPending := fun _ => false }

def PackedAction.unpack (a : PackedAction) : NativeAction where
  mode := a.mode
  mask := installed (unpackSignalMask a.mask)
  flags :=
    match a.mode with
    | .handler => { nativeActionFlags a.flags with sigInfo := true }
    | _ => nativeActionFlags a.flags

/-- The action that `BR_SIGACTION` reports. -/
def Process.packedAction (p : Process) (n : Signal) : PackedAction where
  mask := packSignalMask (p.native n).mask
  mode := (p.native n).mode
  flags :=
    if (p.native n).mode = .handler then p.installedSignalFlags n
    else guestActionFlags (p.native n).flags

/-- `BR_SIGACTION`. The native call refuses the signals of libc, and a new action for the two
that cannot be handled. -/
def brSigaction (p : Process) (n : Signal) (action : Option PackedAction) :
    Except Errno (Process × PackedAction) :=
  match action with
  | none => if reserved n then .error .EINVAL else .ok (p, p.packedAction n)
  | some a =>
    if blockable n then
      .ok ({ p with
        native := Function.update p.native n a.unpack
        installedSignalFlags := Function.update p.installedSignalFlags n a.flags }, p.packedAction n)
    else .error .EINVAL

theorem brSigaction_ok {p q : Process} {n : Signal} {action : Option PackedAction}
    {previous : PackedAction} (served : brSigaction p n action = .ok (q, previous)) :
    ∃ native flags, q = { p with native, installedSignalFlags := flags } := by
  cases action with
  | none =>
    simp only [brSigaction] at served
    split at served
    · cases served
    · cases served
      exact ⟨_, _, rfl⟩
  | some a =>
    simp only [brSigaction] at served
    split at served
    · cases served
      exact ⟨_, _, rfl⟩
    · cases served

theorem blockable_of_brSigaction {p q : Process} {n : Signal} {a previous : PackedAction}
    (served : brSigaction p n (some a) = .ok (q, previous)) : blockable n = true := by
  simp only [brSigaction] at served
  split at served
  next handled => exact handled
  · cases served

/-- `how` of `sigprocmask`, 0 to 2: set, block, unblock. -/
def maskChange (how : Int) (mask set : SigSet) : Option SigSet :=
  if how = 0 then some set
  else if how = 1 then some fun n => mask n || set n
  else if how = 2 then some fun n => mask n && !set n
  else none

/-- `BR_SIGMASK`. -/
def brSigmask (p : Process) (how : Int) (set : Option SigSet) :
    Except Errno (Process × SigSet) :=
  match set with
  | none => .ok (p, packSignalMask p.mask)
  | some packed =>
    match maskChange how p.mask (installed (unpackSignalMask packed)) with
    | some mask => .ok ({ p with mask }, packSignalMask p.mask)
    | none => .error .EINVAL

theorem brSigmask_ok {p q : Process} {how : Int} {set : Option SigSet} {previous : SigSet}
    (served : brSigmask p how set = .ok (q, previous)) :
    previous = p.mask ∧ ∃ mask, q = { p with mask } := by
  cases set with
  | none =>
    cases served
    exact ⟨rfl, p.mask, rfl⟩
  | some packed =>
    simp only [brSigmask] at served
    split at served
    next mask _ =>
      cases served
      exact ⟨rfl, mask, rfl⟩
    · cases served

/-! ### The guest's functions -/

def SigAction.pack (a : SigAction) : PackedAction where
  mask := a.mask
  mode := a.handler.mode
  flags := a.flags

/-- What `sigaction` stores through `old`. -/
def reported (guest : SigAction) (previous : PackedAction) : SigAction where
  mask := previous.mask
  flags := previous.flags
  handler :=
    match previous.mode with
    | .default => .default
    | .ignore => .ignore
    | .handler => guest.handler

/-- The guest installs `SIG_DFL` or `SIG_IGN`. -/
def givesUp (action : Option SigAction) : Bool :=
  match action with
  | some a => !a.handler.isFunction
  | none => false

/-- `sigaction` up to the loader's answer. -/
def Process.sigaction (p : Process) (number : Int) (action : Option SigAction) (old : OldPointer) :
    Process :=
  if outside : number < 1 ∨ 64 < number then { p with errno := .EINVAL }
  else
    let n : Signal := ⟨(number - 1).toNat, by omega⟩
    match brSigaction p n (action.map SigAction.pack) with
    | .error e => { p with errno := e }
    | .ok (q, previous) =>
      { q with
        phase := .installing n action old previous
        owedPending := if givesUp action then Function.update q.owedPending n false else q.owedPending
        owedPublished :=
          if givesUp action then Function.update q.owedPublished n false else q.owedPublished }

/-- The rest of `sigaction`. It stores through `old` before it reads `*action`. -/
def Process.sigactionReturn (p : Process) (n : Signal) (action : Option SigAction)
    (old : OldPointer) (previous : PackedAction) : Process :=
  match action with
  | none => { p with phase := .code }
  | some a =>
    let stored := if old = .same then reported (p.guestActions n) previous else a
    { p with guestActions := Function.update p.guestActions n stored, phase := .code }

/-- `sigprocmask` up to the loader's answer. -/
def Process.sigprocmask (p : Process) (how : Int) (set : Option SigSet) (old : OldPointer) :
    Process :=
  match brSigmask p how set with
  | .error e => { p with errno := e }
  | .ok (q, previous) => { q with phase := .masking how set old previous }

/-- The guest's mask after `sigprocmask`. It too stores through `old` before it reads `*set`. -/
def maskReturned (how : Int) (set : Option SigSet) (old : OldPointer) (previous : SigSet) :
    SigSet :=
  match set with
  | none => previous
  | some set => (maskChange how previous (if old = .same then previous else set)).getD previous

def Process.sigsuspend (p : Process) (set : SigSet) : Process :=
  let mask : SigSet := fun n => set n || p.dispatchBlocked n
  { p with guestSignalMask := mask, phase := .calling (.suspend mask p.guestSignalMask) }

/-- The arguments that `ppoll` refuses by itself; a timeout is seconds and nanoseconds. -/
def ppollRefuses (count : Nat) (timeout : Option (Int × Int)) : Bool :=
  256 < count ||
    match timeout with
    | none => false
    | some (seconds, nanoseconds) => seconds < 0 || nanoseconds < 0 || 1000000000 ≤ nanoseconds

/-- The mask that `ppoll` passes on. -/
def Process.effective (p : Process) (mask : Option SigSet) : Option SigSet :=
  if ∃ n, p.dispatchBlocked n = true then
    some fun n => mask.getD p.guestSignalMask n || p.dispatchBlocked n
  else mask

def Process.ppoll (p : Process) (count : Nat) (timeout : Option (Int × Int))
    (mask : Option SigSet) : Process :=
  if ppollRefuses count timeout then { p with errno := .EINVAL }
  else
    { p with
      guestSignalMask := (p.effective mask).getD p.guestSignalMask
      phase := .calling (.poll (p.effective mask) p.guestSignalMask) }

/-- `linux_bash_signal_longjmp` and the jump, which leaves the innermost `left` handlers. -/
def Process.longjmp (p : Process) (left : Nat) : Process :=
  { p with dispatchBlocked := fun _ => false, frames := p.frames.drop left }

def Process.handlerReturn (p : Process) : Process :=
  match p.frames with
  | [] => p
  | f :: rest =>
    { p with
      dispatchBlocked := f.previous, frames := rest, phase := .polling f.poll (f.signal.val + 1) }

def Process.dispatch (p : Process) (poll : Poll) (n : Signal) : Process :=
  let action := p.guestActions n
  let p :=
    { p with
      published := Function.update p.published n false
      owedPublished := Function.update p.owedPublished n false }
  if action.handler.isFunction then
    { p with
      guestActions :=
        if action.flags.resetHand then
          Function.update p.guestActions n { action with handler := .default }
        else p.guestActions
      dispatchBlocked := fun m => p.dispatchBlocked m || action.guard n m
      frames := ⟨n, action, p.dispatchBlocked, poll⟩ :: p.frames
      phase := .code }
  else { p with phase := .polling poll (n.val + 1) }

/-- The end of `linux_bash_poll_signals`. -/
def Process.restoreErrno (p : Process) (poll : Poll) : Process := { p with errno := poll.savedErrno }

def Process.callReturn (p : Process) : Option (BridgeCall × Option Errno) → Process
  | none => { p with phase := .code }
  | some (call, error) =>
    { p with
      errno := error.getD p.errno
      guestSignalMask := call.previous?.getD p.guestSignalMask
      phase := .code }

/-- One round of the loop of `linux_bash_poll_signals`. -/
def Process.scan (p : Process) (poll : Poll) (next : Nat) : Process :=
  if inside : next < 64 then
    if p.published ⟨next, inside⟩ && !(p.guestSignalMask ⟨next, inside⟩ ||
        p.dispatchBlocked ⟨next, inside⟩) then
      p.dispatch poll ⟨next, inside⟩
    else { p with phase := .polling poll (next + 1) }
  else (p.restoreErrno poll).callReturn poll.caller

/-- The next round of the dispatcher takes a signal. -/
def Process.Takes (p : Process) (n : Signal) : Prop :=
  (∃ poll, p.phase = .polling poll n.val) ∧ p.published n = true ∧
    p.guestSignalMask n = false ∧ p.dispatchBlocked n = false

/-! ### Steps -/

inductive Act where
  | sigaction (number : Int) (action : Option SigAction) (old : OldPointer)
  | sigprocmask (how : Int) (set : Option SigSet) (old : OldPointer)
  | sigsuspend (set : SigSet)
  | ppoll (count : Nat) (timeout : Option (Int × Int)) (mask : Option SigSet)
  -- Any other bridge call.
  | bridge
  -- The guest calls `linux_bash_poll_signals` itself.
  | pollSignals
  | longjmp (left : Nat)
  | handlerReturn
  | setErrno (e : Errno)

/-- `signal` -/
def Act.signal (number : Int) (handler : Handler) : Act :=
  .sigaction number (some ⟨handler, fun _ => false, 8⟩) .apart

def Process.act (p : Process) : Act → Process
  | .sigaction number action old => p.sigaction number action old
  | .sigprocmask how set old => p.sigprocmask how set old
  | .sigsuspend set => p.sigsuspend set
  | .ppoll count timeout mask => p.ppoll count timeout mask
  | .bridge => { p with phase := .calling .other }
  | .pollSignals => { p with phase := .polling ⟨p.errno, none⟩ 0 }
  | .longjmp left => p.longjmp left
  | .handlerReturn => p.handlerReturn
  | .setErrno e => { p with errno := e }

/-- The error of a call; `suspend_signals` always ends with `EINTR`. -/
def BridgeCall.error (call : BridgeCall) (error : Option Errno) : Option Errno :=
  match call with
  | .suspend _ _ => some .EINTR
  | _ => error

def Process.resume (p : Process) (error : Option Errno) : Process :=
  match p.phase with
  | .installing n action old previous => p.sigactionReturn n action old previous
  | .masking how set old previous =>
    { p with guestSignalMask := maskReturned how set old previous, phase := .code }
  | .calling call => { p with phase := .polling ⟨p.errno, some (call, call.error error)⟩ 0 }
  | _ => p

inductive Move where
  | act (a : Act)
  | resume (error : Option Errno)
  -- A round of the dispatcher.
  | scan
  | publish
  | deliver (n : Signal)

def Process.step (p : Process) : Move → Process
  | .act a => match p.phase with
    | .code => p.act a
    | _ => p
  | .resume error => p.resume error
  | .scan => match p.phase with
    | .polling poll next => p.scan poll next
    | _ => p
  | .publish => if p.phase.inLoader then p.publishSignals else p
  | .deliver n => p.deliver n

theorem Process.scan_cases {p : Process} {poll : Poll} {next : Nat}
    (phase : p.phase = .polling poll next) :
    (∃ n : Signal, n.val = next ∧ p.Takes n ∧ p.scan poll next = p.dispatch poll n) ∨
    p.scan poll next = { p with phase := .polling poll (next + 1) } ∨
    p.scan poll next = (p.restoreErrno poll).callReturn poll.caller := by
  unfold Process.scan
  split
  next inside =>
    split
    next test =>
      simp only [Bool.and_eq_true, Bool.not_eq_true', Bool.or_eq_false_iff] at test
      have here : p.phase = .polling poll (⟨next, inside⟩ : Signal).val := phase
      exact .inl ⟨⟨next, inside⟩, rfl, ⟨⟨poll, here⟩, test.1, test.2.1, test.2.2⟩, rfl⟩
    · exact .inr (.inl rfl)
  · exact .inr (.inr rfl)

theorem act_keeps (p : Process) (a : Act) :
    (p.act a).published = p.published ∧ (p.act a).guestActions = p.guestActions := by
  cases a with
  | sigaction number action old =>
    simp only [Process.act, Process.sigaction]
    split
    · exact ⟨rfl, rfl⟩
    · split
      · exact ⟨rfl, rfl⟩
      next served =>
        obtain ⟨native, flags, rfl⟩ := brSigaction_ok served
        exact ⟨rfl, rfl⟩
  | sigprocmask how set old =>
    simp only [Process.act, Process.sigprocmask]
    split
    · exact ⟨rfl, rfl⟩
    next served =>
      obtain ⟨-, mask, rfl⟩ := brSigmask_ok served
      exact ⟨rfl, rfl⟩
  | ppoll count timeout mask =>
    simp only [Process.act, Process.ppoll]
    split <;> exact ⟨rfl, rfl⟩
  | handlerReturn =>
    simp only [Process.act, Process.handlerReturn]
    split <;> exact ⟨rfl, rfl⟩
  | _ => exact ⟨rfl, rfl⟩

/-- The guest's program starts with nothing blocked and no action but the default. -/
def Process.fresh : Process where
  mask _ := false
  native _ := ⟨.default, fun _ => false, nativeActionFlags 0⟩
  pending _ := false
  installedSignalFlags _ := 0
  published _ := false
  guestActions _ := ⟨.default, fun _ => false, 0⟩
  guestSignalMask _ := false
  dispatchBlocked _ := false
  errno := .other 0
  phase := .code
  frames := []
  owedPending _ := false
  owedPublished _ := false

def installMoves (n : Signal) (a : SigAction) : List Move :=
  [.act (.sigaction (n.val + 1) (some a) .null), .resume none]

/-- A bridge call, and `count` rounds of its dispatcher. -/
def bridgeMoves (count : Nat) : List Move :=
  [.act .bridge, .publish, .resume none] ++ List.replicate count .scan

end LashOs.Signals
