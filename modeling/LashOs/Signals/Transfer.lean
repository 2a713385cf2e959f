import LashOs.Signals.Wakeup

/-!
# Interrupted transfers

What `interruptible_transfer` returns, whatever is delivered around its system call. Linux
rewinds to the system call instruction only if no byte was transferred, so a system call that
transferred anything is in `completed`.
-/
namespace LashOs.Signals

open Base

variable {m : Machine}

def Pc.settled : Pc → Bool
  | .end_ => true
  | .leave => true
  | .publish .restore _ => true
  | .restore => true
  | .returned => true
  | _ => false

/-- A transfer of at least one byte never comes here. -/
def Pc.foreign : Pc → Bool
  | .zero => true
  | .wait => true
  | .waiting => true
  | _ => false

/-- Until the result is known no system call has completed; then it is the one that did, or
`EINTR`. -/
structure Machine.Transferring (m : Machine) : Prop where
  call : ∃ count, m.call = .transfer count ∧ 0 < count
  own : m.pc.foreign = false
  open_ : m.pc.settled = false → m.completed = []
  closed : m.pc.settled = true → m.completed = [m.rc] ∨ m.completed = [] ∧ m.rc = eintr

theorem Machine.Transferring.none_completed (transferring : m.Transferring) {pc : Pc}
    (at_ : m.pc = pc) (early : pc.settled = false) : m.completed = [] :=
  transferring.open_ (at_ ▸ early)

theorem Machine.Transferring.move {m' : Machine} (transferring : m.Transferring)
    (call : m'.call = m.call) (completed : m'.completed = m.completed) (rc : m'.rc = m.rc)
    (own : m'.pc.foreign = false) (same : m'.pc.settled = m.pc.settled) : m'.Transferring where
  call := call ▸ transferring.call
  own := own
  open_ early := completed.trans (transferring.open_ (same ▸ early))
  closed late := by
    rw [completed, rc]
    exact transferring.closed (same ▸ late)

theorem Machine.Transferring.settle {m' : Machine} (transferring : m.Transferring)
    (call : m'.call = m.call) (own : m'.pc.foreign = false) (late : m'.pc.settled = true)
    (result : m'.completed = [m'.rc] ∨ m'.completed = [] ∧ m'.rc = eintr) : m'.Transferring where
  call := call ▸ transferring.call
  own := own
  open_ early := by simp [late] at early
  closed _ := result

theorem publishStep_transferring (transferring : m.Transferring) (after : After) (stage : Publish)
    (at_ : m.pc = .publish after stage) : (publishStep m after stage).Transferring := by
  have settled : m.pc.settled = (Pc.publish after stage).settled := by rw [at_]
  unfold publishStep
  split
  · cases after with
    | check => exact transferring.move rfl rfl rfl rfl settled.symm
    | restore => exact transferring.move rfl rfl rfl rfl settled.symm
  · cases after with
    | check => exact transferring.move rfl rfl rfl rfl settled.symm
    | restore => exact transferring.move rfl rfl rfl rfl settled.symm

theorem mainStep_transferring (transferring : m.Transferring) (result : Int) :
    (mainStep m result).Transferring := by
  obtain ⟨count, call, positive⟩ := transferring.call
  have own := transferring.own
  have interrupted : m.call.afterWait = .publish .restore .block := by rw [call]; rfl
  have clear : m.call.onClear = .reset := by rw [call]; rfl
  unfold mainStep
  cases pc : m.pc <;> simp only [interrupted, clear]
  case start =>
    split
    next count' same =>
      obtain rfl : count = count' := by simpa [call] using same
      rw [if_neg (by omega)]
      exact transferring.move rfl rfl rfl rfl (by rw [pc]; rfl)
    next same => simp [call] at same
    next same => simp [call] at same
  case publish after stage => exact publishStep_transferring transferring after stage pc
  case check =>
    split
    · exact transferring.settle rfl rfl rfl (.inr ⟨transferring.none_completed pc rfl, rfl⟩)
    · exact transferring.move rfl rfl rfl rfl (by rw [pc]; rfl)
  case branch interrupted =>
    cases interrupted with
    | true => exact transferring.move rfl rfl rfl rfl (by rw [pc]; rfl)
    | false => exact transferring.move rfl rfl rfl rfl (by rw [pc]; rfl)
  case kernel =>
    -- The one system call that completes.
    refine transferring.settle rfl rfl rfl (.inl ?_)
    simp [transferring.none_completed pc rfl]
  case cancel =>
    exact transferring.settle rfl rfl rfl (.inr ⟨transferring.none_completed pc rfl, rfl⟩)
  case zero => simp [pc, Pc.foreign] at own
  case wait => simp [pc, Pc.foreign] at own
  case waiting => simp [pc, Pc.foreign] at own
  case returned => exact transferring
  all_goals exact transferring.move rfl rfl rfl rfl (by rw [pc]; rfl)

theorem handlerStep_transferring (transferring : m.Transferring) (f : HandlerFrame Signal Stage)
    (nested : Bool) : (handlerStep m f nested).Transferring := by
  unfold handlerStep
  split
  next => exact transferring.move rfl rfl rfl transferring.own rfl
  next => exact transferring.move rfl rfl rfl transferring.own rfl
  next => exact transferring.move rfl rfl rfl transferring.own rfl
  next =>
    by_cases inside : (!nested && m.pc.inWindow) = true
    · -- The window ends before the result.
      have early : m.pc.settled = false := by
        cases pc : m.pc <;> simp_all [Pc.inWindow, Pc.settled]
      refine transferring.move rfl rfl rfl ?_ ?_
      · simp [inside, Pc.foreign]
      · rw [early]
        simp only [inside, if_true]
        rfl
    · refine transferring.move rfl rfl rfl ?_ ?_
      · simpa [inside] using transferring.own
      · simp [inside]
  next => exact transferring.move rfl rfl rfl transferring.own rfl

theorem deliver_transferring (transferring : m.Transferring) (n : Signal) (held : SigSet)
    (resume : Resume) : (deliver m n held resume).Transferring := by
  have own := transferring.own
  unfold deliver
  split
  · exact transferring
  · unfold interruptedCall
    cases pc : m.pc with
    | kernel =>
      have none := transferring.none_completed pc rfl
      cases resume with
      | completed result => exact transferring.settle rfl rfl rfl (.inl (by simp [none]))
      | interrupted => exact transferring.settle rfl rfl rfl (.inr ⟨none, rfl⟩)
      | restarted => exact transferring.move rfl rfl rfl rfl (by rw [pc]; rfl)
    | waiting => simp [pc, Pc.foreign] at own
    | _ => exact transferring.move rfl rfl rfl own rfl

theorem step_transferring (transferring : m.Transferring) (choice : Choice) :
    (m.step choice).Transferring := by
  unfold Machine.step
  cases choice with
  | run result =>
    cases m.signals.frames with
    | nil => exact mainStep_transferring transferring result
    | cons f rest => exact handlerStep_transferring transferring f _
  | deliver n held resume => exact deliver_transferring transferring n held resume

/-! ### The transfer returns -/

def Stage.left : Stage → Nat
  | .record => 5
  | .test => 4
  | .flag => 3
  | .redirect => 2
  | .done => 1

/-- A bound on the instructions that are left of `publish_signals`. -/
def Publish.left : Publish → Nat
  | .block => 196
  | .test i => 3 * (64 - i) + 3
  | .merge i => 3 * (64 - i.val) + 2
  | .clear i => 3 * (64 - i.val) + 1
  | .restore => 2

/-- A bound on the instructions that are left of the call once the result is known. -/
def Pc.left : Pc → Nat
  | .end_ => 198
  | .leave => 197
  | .publish .restore stage => stage.left
  | .restore => 1
  | _ => 0

def Machine.left (m : Machine) : Nat :=
  m.pc.left + m.signals.frames.foldr (fun f total => f.stage.left + total) 0

theorem publishSignals_left (q : Queues) (stage next : Publish)
    (goesOn : (publishSignals q stage).2 = some next) : next.left < stage.left := by
  cases stage with
  | block =>
    obtain rfl : .test 0 = next := by simpa [publishSignals] using goesOn
    simp [Publish.left]
  | test i =>
    simp only [publishSignals] at goesOn
    split at goesOn
    next inside =>
      simp only [Option.some.injEq] at goesOn
      subst goesOn
      split
      · simp [Publish.left]
      · simp only [Publish.left]
        omega
    next outside =>
      obtain rfl : .restore = next := by simpa using goesOn
      simp only [Publish.left]
      omega
  | merge i =>
    obtain rfl : .clear i = next := by simpa [publishSignals] using goesOn
    simp [Publish.left]
  | clear i =>
    obtain rfl : .test (i.val + 1) = next := by simpa [publishSignals] using goesOn
    simp only [Publish.left]
    omega
  | restore => simp [publishSignals] at goesOn

theorem handlerStep_left (settled : m.pc.settled = true) {f : HandlerFrame Signal Stage}
    {rest : List (HandlerFrame Signal Stage)} (running : m.signals.frames = f :: rest) (nested : Bool) :
    (handlerStep m f nested).pc = m.pc ∧ (handlerStep m f nested).left < m.left := by
  have outside : m.pc.inWindow = false := by
    cases pc : m.pc <;> simp_all [Pc.inWindow, Pc.settled]
  unfold handlerStep
  split
  next stage => simp [Machine.left, SignalState.advance, running, stage, Stage.left]
  next stage =>
    cases active : m.active <;>
      simp [Machine.left, SignalState.advance, running, stage, Stage.left]
  next stage => simp [Machine.left, SignalState.advance, running, stage, Stage.left]
  next stage => simp [Machine.left, SignalState.advance, running, stage, Stage.left, outside]
  next stage => simp [Machine.left, SignalState.pop, running, stage, Stage.left]

theorem mainStep_left (settled : m.pc.settled = true) (idle : m.signals.frames = [])
    (running : m.pc ≠ .returned) :
    (mainStep m 0).pc.settled = true ∧ (mainStep m 0).left < m.left := by
  cases pc : m.pc with
  | end_ => simp [mainStep, pc, Machine.left, idle, Pc.settled, Pc.left]
  | leave => simp [mainStep, pc, Machine.left, idle, Pc.settled, Pc.left, Publish.left]
  | publish after stage =>
    cases after with
    | check => simp [pc, Pc.settled] at settled
    | restore =>
      have frames : ∀ q : Queues, (publishSignals m.toQueues stage).1 = q → q.signals.frames = [] := by
        rintro q rfl
        cases stage with
        | test i =>
          simp only [publishSignals]
          split <;> exact idle
        | _ => exact idle
      simp only [mainStep, pc, publishStep]
      split
      next q next result =>
        have less := publishSignals_left m.toQueues stage next (by rw [result])
        simp [Machine.left, frames q (by rw [result]), idle, pc, Pc.settled, Pc.left, less]
      next q result =>
        have some : 1 < stage.left := by
          cases stage <;> simp only [Publish.left] <;> omega
        simp [Machine.left, frames q (by rw [result]), idle, pc, Pc.settled, Pc.left, After.next, some]
  | restore => simp [mainStep, pc, Machine.left, idle, Pc.settled, Pc.left, Queues.setMask]
  | returned => exact absurd pc running
  | _ => simp [pc, Pc.settled] at settled

theorem step_left (settled : m.pc.settled = true) (running : m.pc ≠ .returned) :
    (m.step (.run 0)).pc.settled = true ∧ (m.step (.run 0)).left < m.left := by
  simp only [Machine.step]
  split
  next idle => exact mainStep_left settled idle running
  next f rest frames =>
    obtain ⟨same, less⟩ := handlerStep_left settled frames (!rest.isEmpty)
    exact ⟨same ▸ settled, less⟩

theorem step_rc (settled : m.pc.settled = true) : (m.step (.run 0)).rc = m.rc := by
  simp only [Machine.step]
  split
  · cases pc : m.pc with
    | publish after stage =>
      simp only [mainStep, pc, publishStep]
      split <;> rfl
    | end_ => simp [mainStep, pc]
    | leave => simp [mainStep, pc]
    | restore => simp [mainStep, pc]
    | returned => simp [mainStep, pc]
    | _ => simp [pc, Pc.settled] at settled
  · unfold handlerStep
    split <;> rfl

theorem Machine.Transferring.returns (transferring : m.Transferring) {r : Int}
    (completed : m.completed = [r]) :
    ∃ count, (run Machine.step m (List.replicate count (.run 0))).pc = .returned ∧
      (run Machine.step m (List.replicate count (.run 0))).rc = r := by
  have late : m.pc.settled = true := by
    by_contra early
    have none := transferring.open_ (by simpa using early)
    simp [none] at completed
  have same : m.rc = r := by
    rcases transferring.closed late with one | ⟨none, -⟩
    · simpa [completed, eq_comm] using one
    · simp [none] at completed
  obtain ⟨count, ⟨-, result⟩, returned⟩ := exists_run_of_decreasing Machine.step (.run 0)
    (fun m => m.pc.settled = true ∧ m.rc = r) (fun m => m.pc = .returned) Machine.left
    (fun m holds => by
      by_cases returned : m.pc = .returned
      · exact .inl returned
      · obtain ⟨settled, less⟩ := step_left holds.1 returned
        exact .inr ⟨⟨settled, (step_rc holds.1).trans holds.2⟩, less⟩) m ⟨late, same⟩
  exact ⟨count, returned, result⟩

theorem syscall_idle {choice : Choice} (at_ : m.pc = .syscall) (entered : (m.step choice).pc = .kernel) :
    m.signals.frames = [] := by
  cases choice with
  | run result =>
    cases frames : m.signals.frames with
    | nil => rfl
    | cons f rest =>
      simp only [Machine.step, frames, handlerStep] at entered
      split at entered
      next => simp [at_] at entered
      next => simp [at_] at entered
      next => simp [at_] at entered
      next =>
        dsimp only at entered
        split at entered
        · cases entered
        · simp [at_] at entered
      next => simp [at_] at entered
  | deliver n held resume =>
    simp only [Machine.step, deliver, interruptedCall, at_] at entered
    split at entered <;> simp [at_] at entered

/-- A transfer of at least one byte, with any deliveries: at most one system call completes, and
the transfer returns its result; if it returns `EINTR` no byte was transferred; and the system
call is entered only if no signal that the caller does not block was recorded or published. -/
theorem transfer_keeps_data (count : Nat) (positive : 0 < count) (caller : NativeMask)
    (pending published : SigSet) (interrupted : Bool) (choices : List Choice) :
    let m := run Machine.step
      (Machine.start (.transfer count) caller pending published interrupted) choices
    m.completed.length ≤ 1 ∧
    (∀ r, m.completed = [r] → (m.pc = .returned → m.rc = r) ∧
      ∃ count, (run Machine.step m (List.replicate count (.run 0))).pc = .returned ∧
        (run Machine.step m (List.replicate count (.run 0))).rc = r) ∧
    (m.pc = .returned → m.rc = eintr → ∀ r ∈ m.completed, r ≤ 0) ∧
    (∀ choice, m.pc = .syscall → (m.step choice).pc = .kernel →
      ∀ n, caller.1 n = false → m.recorded n = false) := by
  intro m
  obtain ⟨good, call⟩ : Good caller m ∧ m.call = .transfer count :=
    run_good (.transfer count) caller pending published interrupted choices
  have transferring : m.Transferring :=
    run_invariant Machine.step (fun _ => True) Machine.Transferring
      (fun m choice _ holds => step_transferring holds choice) choices (fun _ _ => trivial) _
      { call := ⟨count, rfl, positive⟩, own := rfl, open_ := fun _ => rfl, closed := by rintro ⟨⟩ }
  have shape : m.completed = [] ∨ m.completed = [m.rc] := by
    cases late : m.pc.settled with
    | true => exact (transferring.closed late).symm.imp And.left id
    | false => exact .inl (transferring.open_ late)
  refine ⟨?_, ?_, ?_, ?_⟩
  · rcases shape with none | one
    · simp [none]
    · simp [one]
  · intro r completed
    refine ⟨fun _ => ?_, transferring.returns completed⟩
    rcases shape with none | one
    · simp [none] at completed
    · simpa [one] using completed
  · intro _ failed r member
    rcases shape with none | one
    · simp [none] at member
    · obtain rfl : r = m.rc := by simpa [one] using member
      rw [failed]
      decide
  · intro choice at_ entered n unmasked
    by_contra recorded
    -- Only the main program executes the system call, and only when no handler runs.
    have about : m.AboutToBlock := ⟨syscall_idle at_ entered, .inl at_⟩
    obtain ⟨pending, published⟩ := good.none_waiting about n (by rw [call]; exact unmasked)
    rcases good.kept n (by simpa using recorded) with kept | kept
    · simp [pending] at kept
    · simp [published] at kept

/-- `SIGUSR1` arrives when the system call has transferred 5 bytes. -/
def partialSignal : List Choice :=
  List.replicate 77 (.run 0) ++
    .deliver usr1 (fun _ => false) (.completed 5) :: List.replicate 160 (.run 0)

def partialTransfer : Machine :=
  run Machine.step (.start (.transfer 8) emptyMask (fun _ => false) (fun _ => false) false)
    partialSignal

theorem partialTransfer_returned : partialTransfer.recorded usr1 = true ∧ partialTransfer.rc = 5 := by
  have runs : partialTransfer.recorded usr1 = true ∧ partialTransfer.completed = [5] ∧
      partialTransfer.pc = .returned := by
    decide +kernel
  have safe := transfer_keeps_data 8 (by decide) emptyMask (fun _ => false) (fun _ => false) false
    partialSignal
  have same : run Machine.step (.start (.transfer 8) emptyMask (fun _ => false) (fun _ => false)
      false) partialSignal = partialTransfer := rfl
  simp only [same] at safe
  exact ⟨runs.1, (safe.2.1 5 runs.2.1).1 runs.2.2⟩

end LashOs.Signals
