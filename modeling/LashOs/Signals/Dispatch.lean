import LashOs.Signals.Reentry

/-!
# One activation of the dispatcher

`linux_bash_poll_signals` from its entry to its return, whatever the handlers do that it
starts: they make bridge calls, which dispatch again, and jump about among themselves, as long
as the activation is not left by a jump.
-/
namespace LashOs.Signals

open Base

variable {p q : Process} {n : Signal}

/-- A step takes a published signal out of the mailbox. -/
def Process.Clears (p : Process) (m : Move) (n : Signal) : Prop :=
  p.published n = true ∧ (p.step m).published n = false

/-- A step starts the handler of one signal and nothing else. -/
def Process.Invokes (p : Process) (m : Move) (n : Signal) : Prop :=
  (p.guestActions n).handler.isFunction = true ∧ (p.step m).phase = .code ∧
    ∃ f, f.signal = n ∧ f.action = p.guestActions n ∧ (p.step m).frames = f :: p.frames

/-- The dispatcher looks at a signal that a mask holds. -/
def Process.PassesOver (p : Process) (n : Signal) : Prop :=
  (∃ poll, p.phase = .polling poll n.val) ∧
    (p.guestSignalMask n = true ∨ p.dispatchBlocked n = true)

/-- A step enters the dispatcher: the guest calls it, or the loader has answered a bridge call.
`caller` is the call with its error that goes on when the dispatcher returns. -/
inductive Process.Enters (p : Process) : Move → Option (BridgeCall × Option Errno) → Prop
  | polled : p.phase = .code → p.Enters (.act .pollSignals) none
  | answered (call : BridgeCall) (error : Option Errno) : p.phase = .calling call →
      p.Enters (.resume error) (some (call, call.error error))

/-- The activation above `depth` handlers has looked at all signals; its next round returns. -/
def Process.Returns (p : Process) (depth : Nat) : Prop :=
  p.frames.length = depth ∧ ∃ poll next, p.phase = .polling poll next ∧ 64 ≤ next

/-- A step ends the activation above `depth` handlers: the dispatcher returns, or a jump leaves
all the handlers it started. -/
def Process.Ends (p : Process) (depth : Nat) (m : Move) : Prop :=
  (m = .scan ∧ p.Returns depth) ∨
    ∃ left, m = .act (.longjmp left) ∧ p.phase = .code ∧ p.frames.length - left ≤ depth

/-- errno behind a dispatcher that was entered with `errno`, and behind the bridge call that it
belongs to: only an error of that call changes it. -/
def returnedErrno (errno : Errno) : Option (BridgeCall × Option Errno) → Errno
  | none => errno
  | some (_, none) => errno
  | some (_, some error) => error

/-! ### Signals -/

theorem scan_published (p : Process) (poll : Poll) (next : Nat)
    (phase : p.phase = .polling poll next) :
    (p.scan poll next).published = p.published ∨
      ∃ n, p.Takes n ∧ n.val = next ∧ p.scan poll next = p.dispatch poll n := by
  rcases Process.scan_cases phase with ⟨n, at_, takes, dispatched⟩ | passed | returned
  · exact .inr ⟨n, takes, at_, dispatched⟩
  · rw [passed]
    exact .inl rfl
  · rw [returned]
    left
    unfold Process.callReturn Process.restoreErrno
    split <;> rfl

/-- A signal leaves the mailbox only when the dispatcher takes it. -/
theorem taken_of_clears {m : Move} (clears : p.Clears m n) :
    m = .scan ∧ p.Takes n ∧ ∃ poll, p.step m = p.dispatch poll n := by
  obtain ⟨before, after⟩ := clears
  cases m with
  | act a =>
    simp only [Process.step] at after
    split at after
    · simp [(act_keeps p a).1, before] at after
    · simp [before] at after
  | resume error =>
    simp only [Process.step, Process.resume] at after
    split at after
    · unfold Process.sigactionReturn at after
      split at after <;> simp [before] at after
    · simp [before] at after
    · simp [before] at after
    · simp [before] at after
  | scan =>
    cases phase : p.phase with
    | polling poll next =>
      have stepped : p.step .scan = p.scan poll next := by simp [Process.step, phase]
      rw [stepped] at after ⊢
      rcases scan_published p poll next phase with same | ⟨taken, takes, -, dispatched⟩
      · simp [same, before] at after
      · -- The dispatch clears the signal it takes and no other.
        obtain rfl : n = taken := by
          by_contra other
          rw [dispatched] at after
          dsimp only [Process.dispatch] at after
          split at after <;> simp [other, before] at after
        exact ⟨rfl, takes, poll, dispatched⟩
    | _ => simp [Process.step, phase, before] at after
  | publish =>
    simp only [Process.step] at after
    split at after
    · simp [Process.publishSignals, before] at after
    · simp [before] at after
  | deliver n =>
    simp only [Process.step, Process.deliver] at after
    split at after <;> simp [before] at after

theorem invokes_or_discards {m : Move} (clears : p.Clears m n) :
    p.Invokes m n ∨ (p.guestActions n).handler.isFunction = false := by
  obtain ⟨rfl, takes, poll, stepped⟩ := taken_of_clears clears
  cases handler : (p.guestActions n).handler.isFunction with
  | false => exact .inr rfl
  | true =>
    left
    refine ⟨handler, ?_, ⟨n, p.guestActions n, p.dispatchBlocked, poll⟩, rfl, rfl, ?_⟩
    · simp [stepped, Process.dispatch, handler]
    · simp [stepped, Process.dispatch, handler]

theorem stays_published {m : Move} (passes : p.PassesOver n) (before : p.published n = true) :
    (p.step m).published n = true := by
  by_contra cleared
  obtain ⟨-, takes, -⟩ := taken_of_clears ⟨before, by simpa using cleared⟩
  obtain ⟨-, -, unmasked, unblocked⟩ := takes
  rcases passes.2 with masked | blocked
  · simp [unmasked] at masked
  · simp [unblocked] at blocked

/-! ### The guard -/

/-- The activation that `poll` entered with `blocked` above the handlers `base` either runs
itself, or the last of its handlers has not returned and will restore `blocked`. -/
def Process.Activated (p : Process) (poll : Poll) (base : List Frame) (blocked : SigSet) : Prop :=
  (p.frames = base ∧ p.dispatchBlocked = blocked ∧ ∃ next, p.phase = .polling poll next) ∨
    ∃ above f, p.frames = above ++ f :: base ∧ f.previous = blocked ∧ f.poll = poll

theorem step_polling (p : Process) (m : Move) {poll : Poll} {next : Nat}
    (phase : p.phase = .polling poll next) :
    ((p.step m).frames = p.frames ∧ (p.step m).dispatchBlocked = p.dispatchBlocked ∧
        ∃ next, (p.step m).phase = .polling poll next) ∨
      (∃ f, (p.step m).frames = f :: p.frames ∧ f.previous = p.dispatchBlocked ∧ f.poll = poll) ∨
      m = .scan ∧ 64 ≤ next := by
  cases m with
  | act a => exact .inl (by simp [Process.step, phase])
  | resume error => exact .inl (by simp [Process.step, Process.resume, phase])
  | scan =>
    have stepped : p.step .scan = p.scan poll next := by simp [Process.step, phase]
    rw [stepped]
    unfold Process.scan
    split
    next inside =>
      split
      · dsimp only [Process.dispatch]
        split
        · exact .inr (.inl ⟨_, rfl, rfl, rfl⟩)
        · exact .inl ⟨rfl, rfl, _, rfl⟩
      · exact .inl ⟨rfl, rfl, _, rfl⟩
    next outside => exact .inr (.inr ⟨rfl, by omega⟩)
  | publish => exact .inl (by simp [Process.step, phase, Phase.inLoader])
  | deliver n =>
    left
    simp only [Process.step, Process.deliver]
    split <;> exact ⟨rfl, rfl, next, phase⟩

theorem step_activated {poll : Poll} {base : List Frame} {blocked : SigSet} (p : Process) (m : Move)
    (goesOn : ¬p.Ends base.length m) (activated : p.Activated poll base blocked) :
    (p.step m).Activated poll base blocked := by
  rcases activated with ⟨frames, same, next, phase⟩ | ⟨above, f, frames, previous, own⟩
  · rcases step_polling p m phase with ⟨kept, stays, polling⟩ | ⟨f, pushed, previous, own⟩ |
      ⟨rfl, done⟩
    · exact .inl ⟨kept.trans frames, stays.trans same, polling⟩
    · exact .inr ⟨[], f, by rw [pushed, frames]; rfl, previous.trans same, own⟩
    · exact absurd (.inl ⟨rfl, by rw [frames], poll, next, phase, done⟩) goesOn
  · cases step_frames p m with
    | kept kept stays => exact .inr ⟨above, f, kept.trans frames, previous, own⟩
    | pushed n poll next at_ takes handler pushed stays =>
      exact .inr ⟨_ :: above, f, by rw [pushed, frames]; rfl, previous, own⟩
    | popped g top stays phase =>
      rw [top] at frames
      cases above with
      | nil =>
        -- The handler that the activation started itself returns to it.
        obtain ⟨rfl, rest⟩ := List.cons.inj frames
        exact .inl ⟨rest, stays.trans previous, _, own ▸ phase⟩
      | cons g' above => exact .inr ⟨above, f, (List.cons.inj frames).2, previous, own⟩
    | jumped left code dropped stays =>
      have above_left : left ≤ above.length := by
        by_contra beyond
        apply goesOn
        refine .inr ⟨left, rfl, code, ?_⟩
        simp only [frames, List.length_append, List.length_cons]
        omega
      refine .inr ⟨above.drop left, f, ?_, previous, own⟩
      rw [dropped, frames, List.drop_append_of_le_length above_left]

theorem Process.Activated.balanced {poll : Poll} {base : List Frame} {blocked : SigSet}
    (activated : p.Activated poll base blocked) (own : p.frames.length = base.length) :
    p.frames = base ∧ p.dispatchBlocked = blocked ∧ ∃ next, p.phase = .polling poll next := by
  rcases activated with here | ⟨above, f, frames, -, -⟩
  · exact here
  · simp only [frames, List.length_append, List.length_cons] at own
    omega

theorem Process.Enters.activated {enter : Move} {caller : Option (BridgeCall × Option Errno)}
    (enters : p.Enters enter caller) :
    (p.step enter).Activated ⟨p.errno, caller⟩ p.frames p.dispatchBlocked := by
  cases enters with
  | polled code =>
    rw [Process.step, code]
    exact .inl ⟨rfl, rfl, 0, rfl⟩
  | answered call error calling =>
    simp only [Process.step, Process.resume, calling]
    exact .inl ⟨rfl, rfl, 0, rfl⟩

theorem step_returns {poll : Poll} {next : Nat} (phase : p.phase = .polling poll next)
    (done : 64 ≤ next) : p.step .scan = (p.restoreErrno poll).callReturn poll.caller := by
  have outside : ¬ next < 64 := Nat.not_lt.mpr done
  simp only [Process.step, phase, Process.scan, dif_neg outside]

theorem callReturn_keeps (p : Process) (caller : Option (BridgeCall × Option Errno)) :
    (p.callReturn caller).phase = .code ∧ (p.callReturn caller).frames = p.frames ∧
      (p.callReturn caller).dispatchBlocked = p.dispatchBlocked ∧
      (p.callReturn caller).errno = returnedErrno p.errno caller := by
  cases caller with
  | none => exact ⟨rfl, rfl, rfl, rfl⟩
  | some call =>
    obtain ⟨call, error⟩ := call
    cases error <;> exact ⟨rfl, rfl, rfl, rfl⟩

/-- Let the dispatcher be entered in any state. Until it returns, a published signal is taken
only to start its handler or because it has none, and one that a mask holds stays. When it
returns, the handlers that it found are running, and `dispatch_blocked` and errno are what they
were before it was entered. -/
theorem dispatcher_balanced (first : Process) (enter : Move)
    (caller : Option (BridgeCall × Option Errno)) (enters : first.Enters enter caller)
    (moves : List Move)
    (inside : Permits Process.step (fun p m => ¬p.Ends first.frames.length m) (first.step enter)
      moves) :
    Always Process.step (fun p =>
      (∀ m n, p.Clears m n → p.Invokes m n ∨ (p.guestActions n).handler.isFunction = false) ∧
      (∀ m n, p.PassesOver n → p.published n = true → (p.step m).published n = true))
      first (enter :: moves ++ [.scan]) ∧
    ((run Process.step first (enter :: moves)).Returns first.frames.length →
      let after := run Process.step first (enter :: moves ++ [.scan])
      after.phase = .code ∧ after.frames = first.frames ∧
        after.dispatchBlocked = first.dispatchBlocked ∧
        after.errno = returnedErrno first.errno caller) := by
  constructor
  · exact always_of_forall fun p => ⟨fun m n => invokes_or_discards, fun m n => stays_published⟩
  · rintro ⟨own, poll', next', polling, done⟩
    have activated := (inside.always step_activated enters.activated).final
    obtain ⟨frames, blocked, next, phase⟩ := activated.balanced own
    -- the activation that returns is the one that was entered
    rw [run_cons] at polling
    obtain ⟨rfl, rfl⟩ := Phase.polling.inj (phase.symm.trans polling)
    have returned := callReturn_keeps
      ((run Process.step (first.step enter) moves).restoreErrno ⟨first.errno, caller⟩) caller
    simp only [List.cons_append, run_cons, run_append, run_nil, step_returns phase done]
    exact ⟨returned.1, returned.2.1.trans frames, returned.2.2.1.trans blocked, returned.2.2.2⟩

theorem permits_scans (depth count : Nat) (p : Process)
    (left : ∀ poll next, p.phase = .polling poll next → next + count ≤ 64) :
    Permits Process.step (fun p m => ¬p.Ends depth m) p (List.replicate count .scan) := by
  induction count generalizing p with
  | zero => trivial
  | succ count ih =>
    constructor
    · rintro (⟨-, -, poll, next, phase, done⟩ | ⟨_, impossible, -⟩)
      · have := left poll next phase
        omega
      · cases impossible
    · apply ih
      intro poll' next' after
      -- A round of the loop moves on by one, or starts a handler.
      simp only [Process.step] at after
      split at after
      next poll next phase =>
        have room := left poll next phase
        unfold Process.scan at after
        rw [dif_pos (by omega)] at after
        split at after
        · dsimp only [Process.dispatch] at after
          split at after
          · cases after
          · cases after
            exact Nat.le_trans (by omega) room
        · cases after
          omega
      next other => exact absurd after (other poll' next')

/-- `SIGUSR1` is published and has a handler, and errno is `EINTR`. -/
def publishedProcess : Process :=
  { Process.fresh with
    published := fun n => n == usr1
    guestActions := fun _ => ⟨.function 1, fun _ => false, 0⟩
    errno := .EINTR }

/-- The handler is started, sets errno and returns, and the other signals are looked at. -/
def oneHandlerMoves : List Move :=
  List.replicate 10 .scan ++ ([.act (.setErrno .EBADF), .act .handlerReturn] ++
    List.replicate 54 .scan)

/-- The guest polls; errno is `EINTR` again behind the handler. -/
theorem oneHandler_balanced :
    (run Process.step publishedProcess (.act .pollSignals :: oneHandlerMoves ++ [.scan])).errno =
        .EINTR ∧
      (run Process.step publishedProcess
        (.act .pollSignals :: oneHandlerMoves ++ [.scan])).dispatchBlocked =
          publishedProcess.dispatchBlocked := by
  have inside : Permits Process.step (fun p m => ¬p.Ends publishedProcess.frames.length m)
      (publishedProcess.step (.act .pollSignals)) oneHandlerMoves := by
    apply permits_append
    · apply permits_scans
      rintro poll next ⟨⟩
      decide
    apply permits_append
    · refine ⟨?_, ?_, trivial⟩
      · rintro (⟨impossible, -⟩ | ⟨_, impossible, -⟩) <;> cases impossible
      · rintro (⟨impossible, -⟩ | ⟨_, impossible, -⟩) <;> cases impossible
    · apply permits_scans
      rintro poll next ⟨⟩
      decide
  have returned := (dispatcher_balanced publishedProcess (.act .pollSignals) none (.polled rfl)
    oneHandlerMoves inside).2 ⟨by decide +kernel, ⟨.EINTR, none⟩, 64, rfl, Nat.le_refl 64⟩
  exact ⟨returned.2.2.2, returned.2.2.1⟩

end LashOs.Signals
