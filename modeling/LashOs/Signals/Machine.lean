import LashOs.Base.Handlers

/-!
# Blocking bridge calls and signal delivery

`interruptible_transfer`, `suspend_signals` and `poll_descriptors` as machines that take one
instruction at a time, with the handler `record_signal`, `publish_signals` and the assembly
of `signal_io_syscall`. Between any two instructions a signal that is not blocked may be
delivered, also to a running handler. `recorded` and `completed` record history.

Signal number `n + 1` is `n : Signal`. A packed mask is known by its bits.
-/
namespace LashOs.Signals

open Base

abbrev Signal : Type := Fin 64

/-- `SIGUSR1` -/
def usr1 : Signal := 9

/-- `SIGUSR2` -/
def usr2 : Signal := 11

abbrev SigSet : Type := Signal → Bool

/-- The two signals that libc keeps for itself, 32 and 33. -/
def reserved (n : Signal) : Bool := n.val == 31 || n.val == 32

/-- `SIGKILL` and `SIGSTOP`, 9 and 19, cannot be blocked or handled either. -/
def blockable (n : Signal) : Bool := !(n.val == 8 || n.val == 18 || reserved n)

/-- `sigfillset` -/
def sigfillset : SigSet := fun n => !reserved n

/-- What remains of a set when it becomes the native mask. -/
def installed (set : SigSet) : SigSet := fun n => set n && blockable n

def NativeMask : Type := { set : SigSet // installed set = set }

def emptyMask : NativeMask := ⟨fun _ => false, rfl⟩

/-- `unpack_signal_mask`; `sigaddset` refuses the reserved signals. -/
def unpackSignalMask (packed : SigSet) : SigSet := fun n => packed n && !reserved n

/-- `pack_signal_mask` -/
def packSignalMask (set : SigSet) : SigSet := set

/-- The instructions of `record_signal` and `interrupt_signal_io`. -/
inductive Stage where
  -- `pending_signals[guest] = 1`
  | record
  -- `if (!signal_io_active) return`
  | test
  -- `signal_io_interrupted = 1`
  | flag
  -- The interrupted program counter is compared and replaced.
  | redirect
  | done
  deriving DecidableEq, Repr

/-- The instructions of `publish_signals`. -/
inductive Publish where
  | block
  | test (i : Nat)
  | merge (i : Signal)
  | clear (i : Signal)
  | restore
  deriving DecidableEq, Repr

/-- The recorded signals, `pending_signals[]`, the mailbox's `pending_signals`, and the mask
and handlers of the process. `inner` is the mask that `publish_signals` restores. -/
structure Queues where
  signals : SignalState Signal Stage
  pending : SigSet
  published : SigSet
  inner : SigSet

/-- `sigprocmask(SIG_SETMASK, &set, NULL)`; it fails for invalid arguments only. -/
def Queues.setMask (q : Queues) (set : SigSet) : Queues :=
  { q with signals := { q.signals with mask := installed set } }

/-- `sigprocmask(SIG_BLOCK, &all, ...)` -/
def Queues.blockAll (q : Queues) : Queues :=
  q.setMask fun n => q.signals.mask n || sigfillset n

/-- One instruction of `publish_signals`, and the next one unless it returns. -/
def publishSignals (q : Queues) : Publish → Queues × Option Publish
  | .block => ({ q.blockAll with inner := q.signals.mask }, some (.test 0))
  | .test i =>
    if inside : i < 64 then
      (q, some (if q.pending ⟨i, inside⟩ then .merge ⟨i, inside⟩ else .test (i + 1)))
    else (q, some .restore)
  | .merge i => ({ q with published := Function.update q.published i true }, some (.clear i))
  | .clear i => ({ q with pending := Function.update q.pending i false }, some (.test (i.val + 1)))
  | .restore => (q.setMask q.inner, none)

def Queues.PublishedFirst (q : Queues) : Publish → Prop
  | .clear i => q.published i = true
  | _ => True

def Queues.Holds (q : Queues) (n : Signal) : Prop := q.pending n = true ∨ q.published n = true

theorem publishSignals_holds (q : Queues) (stage : Publish) (first : q.PublishedFirst stage)
    (n : Signal) (held : q.Holds n) : (publishSignals q stage).1.Holds n := by
  cases stage with
  | block => exact held
  | test i =>
    simp only [publishSignals]
    split
    · exact held
    · exact held
  | merge i =>
    rcases held with pending | published
    · exact Or.inl pending
    · right
      by_cases same : n = i <;> simp [publishSignals, same, published]
  | clear i =>
    by_cases same : n = i
    · subst same
      exact Or.inr first
    · simpa [publishSignals, Queues.Holds, same] using held
  | restore => exact held

/-- What holds of a signal at the instructions that move it. -/
def Queues.Ready (q : Queues) : Publish → Prop
  | .merge i => q.pending i = true
  | .clear i => q.published i = true
  | _ => True

theorem Queues.Ready.record {q : Queues} {stage : Publish} (ready : q.Ready stage) (n : Signal) :
    ({ q with pending := Function.update q.pending n true } : Queues).Ready stage := by
  cases stage with
  | merge i =>
    by_cases same : i = n
    · simp [Queues.Ready, same]
    · simpa [Queues.Ready, same] using ready
  | _ => exact ready

theorem publishSignals_ready (q : Queues) (stage next : Publish)
    (goesOn : (publishSignals q stage).2 = some next) : (publishSignals q stage).1.Ready next := by
  cases stage with
  | block =>
    obtain rfl : .test 0 = next := by simpa [publishSignals] using goesOn
    trivial
  | test i =>
    simp only [publishSignals] at goesOn ⊢
    split at goesOn
    next inside =>
      simp only [Option.some.injEq] at goesOn
      rw [dif_pos inside, ← goesOn]
      split
      next pending => exact pending
      · trivial
    next outside =>
      simp only [Option.some.injEq] at goesOn
      rw [dif_neg outside, ← goesOn]
      trivial
  | merge i =>
    obtain rfl : .clear i = next := by simpa [publishSignals] using goesOn
    simp [publishSignals, Queues.Ready]
  | clear i =>
    obtain rfl : .test (i.val + 1) = next := by simpa [publishSignals] using goesOn
    trivial
  | restore => simp [publishSignals] at goesOn

theorem publishSignals_holds_iff (q : Queues) (stage : Publish) (ready : q.Ready stage)
    (n : Signal) : (publishSignals q stage).1.Holds n ↔ q.Holds n := by
  constructor
  · intro held
    cases stage with
    | block => exact held
    | test i =>
      simp only [publishSignals] at held
      split at held
      · exact held
      · exact held
    | merge i =>
      by_cases same : n = i
      · exact Or.inl (same ▸ ready)
      · simpa [publishSignals, Queues.Holds, same] using held
    | clear i =>
      by_cases same : n = i
      · exact Or.inr (same ▸ ready)
      · simpa [publishSignals, Queues.Holds, same] using held
    | restore => exact held
  · apply publishSignals_holds
    cases stage with
    | clear i => exact ready
    | _ => trivial

inductive Call where
  | transfer (count : Nat)
  | suspend (mask : SigSet)
  | poll (count : Nat) (mask : Option SigSet)

/-- Where `publish_signals` returns to. -/
inductive After where
  | check | restore
  deriving DecidableEq, Repr

inductive Pc where
  | start
  -- A transfer of no bytes, which does not wait.
  | zero
  | block
  | publish (after : After) (stage : Publish)
  | check
  -- `signal_io_interrupted = 0`
  | reset
  -- `signal_io_active = 1`
  | arm
  | unmask
  -- `signal_io_syscall` up to the label `signal_io_begin`.
  | enter
  | begin_
  -- The conditional jump, after `signal_io_interrupted` was read.
  | branch (interrupted : Bool)
  | syscall
  -- Inside `read` or `write`.
  | kernel
  | end_
  | cancel
  -- `signal_io_active = 0`
  | leave
  -- The call of `sigsuspend` or `ppoll`.
  | wait
  | waiting
  | restore
  | returned
  deriving DecidableEq, Repr

/-- From `signal_io_begin` to before `signal_io_end`. -/
def Pc.inWindow : Pc → Bool
  | .begin_ => true
  | .branch _ => true
  | .syscall => true
  | _ => false

/-- `held` is the mask that the kernel keeps during `sigsuspend` and `ppoll`; `rc` is a
result or a negated error number. -/
structure Machine extends Queues where
  call : Call
  pc : Pc
  active : Bool
  interrupted : Bool
  previous : SigSet
  held : SigSet
  rc : Int
  recorded : SigSet
  completed : List Int

/-- `-EINTR` -/
def eintr : Int := -4

/-- The call starts, with any mask and any signals recorded or published before. -/
def Machine.start (call : Call) (caller : NativeMask) (pending published : SigSet)
    (interrupted : Bool) : Machine :=
  { call, pc := .start, signals := ⟨caller.1, []⟩, pending, published, active := false, interrupted,
    previous := fun _ => false, inner := fun _ => false, held := fun _ => false, rc := 0,
    recorded := fun n => pending n || published n, completed := [] }

/-- The set that pending signals are checked against before the call blocks. -/
def Machine.checked (m : Machine) : SigSet :=
  match m.call with
  | .transfer _ => packSignalMask m.previous
  | .suspend mask => mask
  | .poll _ (some mask) => packSignalMask (unpackSignalMask mask)
  | .poll _ none => packSignalMask m.previous

/-- The mask that `sigsuspend` or `ppoll` installs. -/
def Machine.desired (m : Machine) : SigSet :=
  match m.call with
  | .transfer _ => m.previous
  | .suspend mask => unpackSignalMask mask
  | .poll _ (some mask) => unpackSignalMask mask
  | .poll _ none => m.previous

/-- What follows a check that found a signal, or the wait. -/
def Call.afterWait : Call → Pc
  | .transfer _ => .publish .restore .block
  | .suspend _ => .restore
  | .poll _ _ => .publish .restore .block

def Call.onClear : Call → Pc
  | .transfer _ => .reset
  | .suspend _ => .wait
  | .poll _ _ => .wait

def After.next : After → Pc
  | .check => .check
  | .restore => .restore

def publishStep (m : Machine) (after : After) (stage : Publish) : Machine :=
  match publishSignals m.toQueues stage with
  | (q, some next) => { m with toQueues := q, pc := .publish after next }
  | (q, none) => { m with toQueues := q, pc := after.next }

theorem publishStep_inside (m : Machine) (after : After) {i : Nat} (inside : i < 64) :
    publishStep m after (.test i) =
      { m with
        pc := .publish after (if m.pending ⟨i, inside⟩ then .merge ⟨i, inside⟩ else .test (i + 1)) } := by
  simp [publishStep, publishSignals, inside]

theorem publishStep_outside (m : Machine) (after : After) {i : Nat} (outside : ¬i < 64) :
    publishStep m after (.test i) = { m with pc := .publish after .restore } := by
  simp [publishStep, publishSignals, outside]

theorem publishStep_holds (m : Machine) (after : After) (stage : Publish)
    (first : m.PublishedFirst stage) (n : Signal) (held : m.Holds n) :
    (publishStep m after stage).Holds n := by
  have moved := publishSignals_holds m.toQueues stage first n held
  unfold publishStep
  split
  next q next result => rwa [result] at moved
  next q result => rwa [result] at moved

/-- One instruction of the call; `result` is what a system call returns by itself. -/
def mainStep (m : Machine) (result : Int) : Machine :=
  match m.pc with
  | .start =>
    match m.call with
    | .transfer count => { m with pc := if count = 0 then .zero else .block }
    | .suspend _ => { m with pc := .block }
    | .poll count _ =>
      if count > 256 then { m with rc := -22, pc := .returned } else { m with pc := .block }
  | .zero => { m with rc := result, pc := .returned }
  | .block => { m with toQueues := m.blockAll, previous := m.signals.mask, pc := .publish .check .block }
  | .publish after stage => publishStep m after stage
  | .check =>
    if ∃ n, m.published n = true ∧ m.checked n = false then
      { m with rc := eintr, pc := m.call.afterWait }
    else { m with pc := m.call.onClear }
  | .reset => { m with interrupted := false, pc := .arm }
  | .arm => { m with active := true, pc := .unmask }
  | .unmask => { m with toQueues := m.setMask m.previous, pc := .enter }
  | .enter => { m with pc := .begin_ }
  | .begin_ => { m with pc := .branch m.interrupted }
  | .branch interrupted => { m with pc := if interrupted then .cancel else .syscall }
  | .syscall => { m with pc := .kernel }
  | .kernel => { m with rc := result, completed := m.completed ++ [result], pc := .end_ }
  | .end_ => { m with pc := .leave }
  | .cancel => { m with rc := eintr, pc := .leave }
  | .leave => { m with active := false, pc := .publish .restore .block }
  | .wait => { m with toQueues := m.setMask m.desired, held := m.signals.mask, pc := .waiting }
  | .waiting =>
    match m.call with
    | .poll _ _ => { m with toQueues := m.setMask m.held, rc := result, pc := m.call.afterWait }
    -- `sigsuspend` returns after a handler only.
    | _ => m
  | .restore => { m with toQueues := m.setMask m.previous, pc := .returned }
  | .returned => m

/-- One instruction of the innermost handler, which interrupted another one if `nested`. The
context it redirects is then that handler's, and never inside the window. -/
def handlerStep (m : Machine) (f : HandlerFrame Signal Stage) (nested : Bool) : Machine :=
  match f.stage with
  | .record =>
    { m with
      pending := Function.update m.pending f.signal true
      recorded := Function.update m.recorded f.signal true
      signals := m.signals.advance .test }
  | .test => { m with signals := m.signals.advance (if m.active then .flag else .done) }
  | .flag => { m with interrupted := true, signals := m.signals.advance .redirect }
  | .redirect =>
    { m with
      pc := if !nested && m.pc.inWindow then .cancel else m.pc
      signals := m.signals.advance .done }
  | .done => { m with signals := m.signals.pop }

/-- How a transfer that a signal found in the kernel goes on: its result was there already,
it fails with `EINTR`, or the kernel rewinds to the system call instruction. -/
inductive Resume where
  | completed (result : Int)
  | interrupted
  | restarted
  deriving DecidableEq, Repr

/-- The interrupted call as the handler's context has it, and the mask that the handler's
return restores. -/
def interruptedCall (m : Machine) (resume : Resume) : Machine × SigSet :=
  match m.pc with
  | .kernel =>
    match resume with
    | .completed result =>
      ({ m with rc := result, completed := m.completed ++ [result], pc := .end_ }, m.signals.mask)
    | .interrupted => ({ m with rc := eintr, pc := .end_ }, m.signals.mask)
    | .restarted => ({ m with pc := .syscall }, m.signals.mask)
  | .waiting => ({ m with rc := eintr, pc := m.call.afterWait }, m.held)
  | _ => (m, m.signals.mask)

/-- A signal arrives whose disposition is `record_signal`; `held` are the signals that the
action blocks while the handler runs. Nothing happens while it is blocked. -/
def deliver (m : Machine) (n : Signal) (held : SigSet) (resume : Resume) : Machine :=
  if blockable n = false ∨ m.signals.mask n = true then m
  else
    let (m, saved) := interruptedCall m resume
    { m with signals := m.signals.push n .record held saved }

inductive Choice where
  | run (result : Int)
  | deliver (n : Signal) (held : SigSet) (resume : Resume)

def Machine.step (m : Machine) : Choice → Machine
  | .run result =>
    match m.signals.frames with
    | [] => mainStep m result
    | f :: rest => handlerStep m f (!rest.isEmpty)
  | .deliver n held resume => Signals.deliver m n held resume

/-- The next instruction enters a system call that may wait. -/
def Machine.AboutToBlock (m : Machine) : Prop :=
  m.signals.frames = [] ∧ (m.pc = .syscall ∨ m.pc = .wait)

def Call.effective (call : Call) (caller : SigSet) : SigSet :=
  match call with
  | .transfer _ => caller
  | .suspend mask => mask
  | .poll _ (some mask) => mask
  | .poll _ none => caller

end LashOs.Signals
