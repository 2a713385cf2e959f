import LashOs.Signals.Dispositions

/-!
# Handlers are not re-entered

`dispatch_blocked` is one word for all running handlers. Each dispatch adds what its handler
holds back and the handler's return takes it away again, but every `longjmp` clears the word,
also one that stays inside a handler.
-/
namespace LashOs.Signals

open Base

variable {p q : Process} {n : Signal}

/-- A running handler holds a signal back, unless it was installed with `SA_NODEFER`. -/
def Frame.Guards (f : Frame) (n : Signal) : Prop :=
  f.action.flags.noDefer = false ∧ f.action.guard f.signal n = true

/-- No handler was started while one that guards its signal was running. Handlers are pushed
and popped at one end, so the order of the frames is the order of their starts. -/
def Process.NotReentered (p : Process) : Prop :=
  p.frames.Pairwise fun inner outer => ¬outer.Guards inner.signal

instance (f : Frame) (n : Signal) : Decidable (f.Guards n) := inferInstanceAs (Decidable (_ ∧ _))

instance (p : Process) : Decidable p.NotReentered := inferInstanceAs (Decidable (List.Pairwise _ _))

/-- A jump ends in a handler that holds signals back, or in one that such a handler
was interrupted by. -/
def Process.JumpsInside (p : Process) (m : Move) : Prop :=
  p.phase = .code ∧ ∃ left, m = .act (.longjmp left) ∧
    ∃ f ∈ p.frames.drop left, f.action.flags.noDefer = false

/-! ### What a step does to the running handlers -/

inductive FrameStep (p q : Process) : Move → Prop
  | kept {m : Move} (frames : q.frames = p.frames)
      (blocked : q.dispatchBlocked = p.dispatchBlocked) : FrameStep p q m
  | pushed (n : Signal) (poll : Poll) (next : Nat) (at_ : p.phase = .polling poll next)
      (takes : p.Takes n) (handler : (p.guestActions n).handler.isFunction = true)
      (frames : q.frames = ⟨n, p.guestActions n, p.dispatchBlocked, poll⟩ :: p.frames)
      (blocked : q.dispatchBlocked =
        fun m => p.dispatchBlocked m || (p.guestActions n).guard n m) : FrameStep p q .scan
  | popped (f : Frame) (top : p.frames = f :: q.frames)
      (blocked : q.dispatchBlocked = f.previous)
      (phase : q.phase = .polling f.poll (f.signal.val + 1)) : FrameStep p q (.act .handlerReturn)
  | jumped (left : Nat) (code : p.phase = .code) (frames : q.frames = p.frames.drop left)
      (blocked : q.dispatchBlocked = fun _ => false) : FrameStep p q (.act (.longjmp left))

theorem act_frames (p : Process) (code : p.phase = .code) (a : Act) :
    FrameStep p (p.act a) (.act a) := by
  cases a with
  | sigaction number action old =>
    simp only [Process.act, Process.sigaction]
    split
    · exact .kept rfl rfl
    · split
      · exact .kept rfl rfl
      next served =>
        obtain ⟨native, flags, rfl⟩ := brSigaction_ok served
        exact .kept rfl rfl
  | sigprocmask how set old =>
    simp only [Process.act, Process.sigprocmask]
    split
    · exact .kept rfl rfl
    next served =>
      obtain ⟨-, mask, rfl⟩ := brSigmask_ok served
      exact .kept rfl rfl
  | ppoll count timeout mask =>
    simp only [Process.act, Process.ppoll]
    split <;> exact .kept rfl rfl
  | handlerReturn =>
    simp only [Process.act, Process.handlerReturn]
    split
    · exact .kept rfl rfl
    next f rest frames => exact .popped f frames rfl rfl
  | longjmp left => exact .jumped left code rfl rfl
  | _ => exact .kept rfl rfl

theorem scan_frames (p : Process) (poll : Poll) (next : Nat)
    (phase : p.phase = .polling poll next) :
    FrameStep p (p.scan poll next) .scan := by
  rcases Process.scan_cases phase with ⟨n, at_, takes, dispatched⟩ | passed | returned
  · rw [dispatched]
    dsimp only [Process.dispatch]
    split
    next handler => exact .pushed n poll next phase takes handler rfl rfl
    · exact .kept rfl rfl
  · rw [passed]
    exact .kept rfl rfl
  · rw [returned]
    unfold Process.callReturn
    split <;> exact .kept rfl rfl

theorem step_frames (p : Process) (m : Move) :
    FrameStep p (p.step m) m := by
  cases m with
  | act a =>
    simp only [Process.step]
    split
    next code => exact act_frames p code a
    · exact .kept rfl rfl
  | resume error =>
    simp only [Process.step, Process.resume]
    split
    · unfold Process.sigactionReturn
      split <;> exact .kept rfl rfl
    · exact .kept rfl rfl
    · exact .kept rfl rfl
    · exact .kept rfl rfl
  | scan =>
    simp only [Process.step]
    split
    next poll next phase => exact scan_frames p poll next phase
    · exact .kept rfl rfl
  | publish =>
    simp only [Process.step]
    split <;> exact .kept rfl rfl
  | deliver n =>
    simp only [Process.step, Process.deliver]
    split <;> exact .kept rfl rfl

/-! ### The guards -/

/-- `dispatch_blocked` covers the guard of every running handler, and what a handler's return
restores covers those below it. -/
structure Process.Guarded (p : Process) : Prop where
  blocked : ∀ f ∈ p.frames, ∀ n, f.Guards n → p.dispatchBlocked n = true
  saved : p.frames.Pairwise fun inner outer => ∀ n, outer.Guards n → inner.previous n = true
  once : p.NotReentered

theorem step_guarded (p : Process) (m : Move) (outside : ¬p.JumpsInside m) (guarded : p.Guarded) :
    (p.step m).Guarded := by
  cases step_frames p m with
  | kept frames blocked =>
    constructor
    · simpa only [frames, blocked] using guarded.blocked
    · simpa only [frames] using guarded.saved
    · simpa only [Process.NotReentered, frames] using guarded.once
  | pushed n poll next at_ takes handler frames blocked =>
    constructor
    · intro f member m guards
      rw [frames] at member
      rw [blocked]
      rcases List.mem_cons.mp member with rfl | below
      · simp [guards.2]
      · simp [guarded.blocked f below m guards]
    · rw [frames]
      exact List.pairwise_cons.mpr ⟨guarded.blocked, guarded.saved⟩
    · -- The dispatcher has just tested that the signal is not blocked.
      rw [Process.NotReentered, frames]
      refine List.pairwise_cons.mpr ⟨fun f member guards => ?_, guarded.once⟩
      have held := guarded.blocked f member n guards
      simp [takes.2.2.2] at held
  | popped f top blocked phase =>
    have saved := guarded.saved
    have once := guarded.once
    rw [top] at saved
    rw [Process.NotReentered, top] at once
    constructor
    · rw [blocked]
      exact (List.pairwise_cons.mp saved).1
    · exact (List.pairwise_cons.mp saved).2
    · exact (List.pairwise_cons.mp once).2
  | jumped left code frames blocked =>
    constructor
    · intro f member n guards
      rw [frames] at member
      exact absurd ⟨code, left, rfl, f, member, guards.1⟩ outside
    · rw [frames]
      exact guarded.saved.sublist (List.drop_sublist _ _)
    · rw [Process.NotReentered, frames]
      exact guarded.once.sublist (List.drop_sublist _ _)

/-! ### Only signals that can be handled have handlers -/

structure Process.Handleable (p : Process) : Prop where
  installing : ∀ n a old previous, p.phase = .installing n (some a) old previous → blockable n = true
  guest : ∀ n, (p.guestActions n).handler.isFunction = true → blockable n = true
  frames : ∀ f ∈ p.frames, blockable f.signal = true

theorem scan_function {poll : Poll} {next : Nat}
    (handler : ((p.scan poll next).guestActions n).handler.isFunction = true) :
    (p.guestActions n).handler.isFunction = true := by
  unfold Process.scan at handler
  split at handler
  next inside =>
    split at handler
    · dsimp only [Process.dispatch] at handler
      split at handler
      · dsimp only at handler
        split at handler
        · by_cases here : n = ⟨next, inside⟩
          · subst here
            simp at handler
          · simpa [here] using handler
        · exact handler
      · exact handler
    · exact handler
  · unfold Process.callReturn at handler
    split at handler <;> exact handler

theorem step_function {m : Move} (handler : ((p.step m).guestActions n).handler.isFunction = true) :
    (p.guestActions n).handler.isFunction = true ∨
      ∃ a old previous, p.phase = .installing n (some a) old previous := by
  cases m with
  | act a =>
    left
    simp only [Process.step] at handler
    split at handler
    · rwa [(act_keeps p _).2] at handler
    · exact handler
  | resume error =>
    simp only [Process.step, Process.resume] at handler
    split at handler
    next m action old previous phase =>
      cases action with
      | none => exact .inl handler
      | some a =>
        by_cases here : n = m
        · subst here
          exact .inr ⟨a, old, previous, phase⟩
        · left
          simpa [Process.sigactionReturn, here] using handler
    · exact .inl handler
    · exact .inl handler
    · exact .inl handler
  | scan =>
    left
    simp only [Process.step] at handler
    split at handler
    · exact scan_function handler
    · exact handler
  | publish =>
    left
    simp only [Process.step] at handler
    split at handler <;> exact handler
  | deliver m =>
    left
    simp only [Process.step, Process.deliver] at handler
    split at handler <;> exact handler

theorem step_handleable (p : Process) (m : Move) (handleable : p.Handleable) :
    (p.step m).Handleable where
  installing n a old previous after := by
    rcases step_installing after with before | ⟨can, -⟩
    · exact handleable.installing n a old previous before
    · exact can
  guest n handler := by
    rcases step_function handler with before | ⟨a, old, previous, phase⟩
    · exact handleable.guest n before
    · exact handleable.installing n a old previous phase
  frames := by
    cases step_frames p m with
    | kept frames blocked => simpa only [frames] using handleable.frames
    | pushed n poll next at_ takes handler frames blocked =>
      intro f member
      rw [frames] at member
      rcases List.mem_cons.mp member with rfl | below
      · exact handleable.guest n handler
      · exact handleable.frames f below
    | popped f top blocked phase =>
      intro g member
      exact handleable.frames g (by simp [top, member])
    | jumped left code frames blocked =>
      intro f member
      rw [frames] at member
      exact handleable.frames f (List.mem_of_mem_drop member)

/-! ### A jump that stays inside -/

theorem scans_skip (count : Nat) (poll : Poll) (phase : p.phase = .polling poll 0)
    (inside : count ≤ 64) (held : ∀ n : Signal, n.val < count → p.guestSignalMask n = true) :
    run Process.step p (List.replicate count .scan) = { p with phase := .polling poll count } := by
  induction count with
  | zero => rw [← phase]; rfl
  | succ count ih =>
    rw [List.replicate_succ', run_append,
      ih (by omega) fun n lower => held n (by omega)]
    simp [Process.step, Process.scan, show count < 64 by omega, held ⟨count, by omega⟩ (by simp)]

theorem sigaction_succ (p : Process) (n : Signal) (a : SigAction) (old : OldPointer)
    (can : blockable n = true) (function : a.handler.isFunction = true) :
    p.sigaction (n.val + 1) (some a) old =
      { p with
        native := Function.update p.native n a.pack.unpack
        installedSignalFlags := Function.update p.installedSignalFlags n a.flags
        phase := .installing n (some a) old (p.packedAction n) } := by
  have inside : ¬((n.val : Int) + 1 < 1 ∨ 64 < (n.val : Int) + 1) := by omega
  rw [Process.sigaction, dif_neg inside]
  simp [brSigaction, can, givesUp, function, SigAction.pack]

theorem installMoves_run (p : Process) (code : p.phase = .code) (n : Signal) (a : SigAction)
    (can : blockable n = true) (function : a.handler.isFunction = true) :
    run Process.step p (installMoves n a) =
      { p with
        native := Function.update p.native n a.pack.unpack
        installedSignalFlags := Function.update p.installedSignalFlags n a.flags
        guestActions := Function.update p.guestActions n a } := by
  simp [installMoves, Process.step, code, Process.act, sigaction_succ p n a .null can function,
    Process.resume, Process.sigactionReturn]

/-- The guest blocks every other signal, is sent this one, and makes a bridge call. -/
def raiseMoves (n : Signal) : List Move :=
  [.act (.sigprocmask 0 (some fun m => m != n) .null), .resume none, .deliver n, .act .bridge,
    .publish, .resume none]

/-- The dispatcher is about to start its loop, and the signal is the first one it will take. -/
structure Process.Raised (p q : Process) (n : Signal) : Prop where
  phase : ∃ poll, q.phase = .polling poll 0
  mask : q.guestSignalMask = fun m => m != n
  published : q.published n = true
  blocked : q.dispatchBlocked = p.dispatchBlocked
  frames : q.frames = p.frames
  actions : q.guestActions = p.guestActions

theorem raiseMoves_raised (p : Process) (code : p.phase = .code) (n : Signal)
    (can : blockable n = true) (recording : (p.native n).mode = .handler) :
    p.Raised (run Process.step p (raiseMoves n)) n := by
  constructor <;>
    simp [raiseMoves, Process.step, code, Process.act, Process.resume, Process.sigprocmask,
      brSigmask, maskChange, maskReturned, Process.deliver, can, recording, Process.holds,
      installed, unpackSignalMask, Phase.inLoader, Process.publishSignals]

theorem scan_dispatches {poll : Poll} (phase : p.phase = .polling poll n.val)
    (published : p.published n = true) (unmasked : p.guestSignalMask n = false)
    (unblocked : p.dispatchBlocked n = false) (function : (p.guestActions n).handler.isFunction = true) :
    (p.step .scan).frames = ⟨n, p.guestActions n, p.dispatchBlocked, poll⟩ :: p.frames := by
  simp [Process.step, phase, Process.scan, published, unmasked, unblocked, Process.dispatch, function]

theorem raise_dispatches (p : Process) (code : p.phase = .code) (n : Signal)
    (can : blockable n = true) (recording : (p.native n).mode = .handler)
    (function : (p.guestActions n).handler.isFunction = true)
    (unblocked : p.dispatchBlocked n = false) :
    ∃ f, (run Process.step p (raiseMoves n ++ (List.replicate n.val .scan ++ [.scan]))).frames =
      f :: p.frames ∧ f.signal = n := by
  have raised := raiseMoves_raised p code n can recording
  obtain ⟨poll, phase⟩ := raised.phase
  rw [run_append, run_append]
  generalize run Process.step p (raiseMoves n) = q at raised phase
  have others : ∀ m : Signal, m.val < n.val → q.guestSignalMask m = true := by
    intro m lower
    have other : m ≠ n := by
      rintro rfl
      omega
    simpa [raised.mask] using other
  rw [scans_skip n.val poll phase (by omega) others]
  refine ⟨⟨n, q.guestActions n, q.dispatchBlocked, poll⟩, ?_, rfl⟩
  rw [← raised.frames, run_cons, run_nil]
  have unmasked : q.guestSignalMask n = false := by simp [raised.mask]
  have taken : q.dispatchBlocked n = false := by rw [raised.blocked, unblocked]
  exact scan_dispatches (p := { q with phase := .polling poll n.val }) rfl raised.published unmasked
    taken (by rw [raised.actions, function])

theorem exists_dispatched (p : Process) (code : p.phase = .code) (n : Signal)
    (can : blockable n = true) (unblocked : p.dispatchBlocked n = false) :
    ∃ moves f, (run Process.step p moves).frames = f :: p.frames ∧ f.signal = n := by
  have installed := installMoves_run p code n ⟨.function 0, fun _ => false, 0⟩ can rfl
  refine ⟨installMoves n ⟨.function 0, fun _ => false, 0⟩ ++ (raiseMoves n ++
    (List.replicate n.val .scan ++ [.scan])), ?_⟩
  rw [run_append, installed]
  apply raise_dispatches
  · exact code
  · exact can
  · simp [PackedAction.unpack, SigAction.pack, Handler.mode]
  · simp [Handler.isFunction]
  · exact unblocked

/-- No handler runs, and none is installed for a signal that cannot be handled. -/
structure Process.Started (p : Process) : Prop where
  code : p.phase = .code
  idle : p.frames = []
  guest : ∀ n, (p.guestActions n).handler.isFunction = true → blockable n = true

theorem Process.Started.guarded (started : p.Started) : p.Guarded := by
  constructor <;> simp [Process.NotReentered, started.idle]

theorem Process.Started.handleable (started : p.Started) : p.Handleable where
  installing n a old previous phase := by simp [started.code] at phase
  guest := started.guest
  frames := by simp [started.idle]

theorem jumpsInside_reenters (handleable : p.Handleable) {left : Nat}
    (inside : p.JumpsInside (.act (.longjmp left))) :
    ∃ more, ¬(run Process.step p (.act (.longjmp left) :: more)).NotReentered := by
  obtain ⟨code, _, ⟨rfl⟩, f, member, defers⟩ := inside
  have jumped : p.step (.act (.longjmp left)) = p.longjmp left := by
    simp [Process.step, code, Process.act]
  have can : blockable f.signal = true := handleable.frames f (List.mem_of_mem_drop member)
  obtain ⟨moves, g, frames, same⟩ := exists_dispatched (p.longjmp left) code f.signal can rfl
  refine ⟨moves, fun once => ?_⟩
  rw [run_cons, jumped, Process.NotReentered, frames] at once
  -- The new handler stands above `f`, which guards its own signal.
  apply (List.pairwise_cons.mp once).1 f member
  rw [same]
  exact ⟨defers, by simp [SigAction.guard, defers]⟩

/-- As long as no jump stays inside a handler that holds signals back, no handler is entered
while one that guards its signal runs; and any such jump can be followed by one that is. -/
theorem handlers_not_reentered (first : Process) (started : first.Started) (moves : List Move)
    (outside : Permits Process.step (fun p m => ¬p.JumpsInside m) first moves) :
    Always Process.step Process.NotReentered first moves ∧
      ∀ left, (run Process.step first moves).JumpsInside (.act (.longjmp left)) →
        ∃ more, ¬(run Process.step first
          (moves ++ .act (.longjmp left) :: more)).NotReentered := by
  constructor
  · exact (outside.always step_guarded started.guarded).imp fun p guarded => guarded.once
  · intro left inside
    have handleable : (run Process.step first moves).Handleable :=
      run_invariant Process.step (fun _ => True) Process.Handleable
        (fun p m _ => step_handleable p m) moves (fun _ _ => trivial) first started.handleable
    simpa only [run_append] using jumpsInside_reenters handleable inside

theorem fresh_started : Process.fresh.Started where
  code := rfl
  idle := rfl
  guest _ impossible := by simp [Process.fresh] at impossible

/-- The handler of `SIGUSR1` is entered from a bridge call. -/
def enterHandler : List Move := .deliver usr1 :: bridgeMoves 10

def jumpsOut : List Move :=
  installMoves usr1 ⟨.function 1, fun _ => false, 0⟩ ++ enterHandler ++
    [.act (.longjmp 1)] ++ enterHandler

theorem jumpsOut_once : Always Process.step Process.NotReentered Process.fresh jumpsOut := by
  apply (handlers_not_reentered Process.fresh fresh_started jumpsOut ?_).1
  have calm (moves : List Move) (none : ∀ left, .act (.longjmp left) ∉ moves) (p : Process) :
      Permits Process.step (fun p m => ¬p.JumpsInside m) p moves := by
    refine permits_of_forall fun m member p => ?_
    rintro ⟨-, left, rfl, -⟩
    exact none left member
  refine permits_append _ _ (permits_append _ _ (calm _ ?_ _) ⟨?_, trivial⟩) (calm _ ?_ _)
  · simp [installMoves, enterHandler, bridgeMoves]
  · rintro ⟨-, left, ⟨rfl⟩, f, member, -⟩
    have one : (run Process.step Process.fresh
        (installMoves usr1 ⟨.function 1, fun _ => false, 0⟩ ++ enterHandler)).frames.length = 1 := by
      decide +kernel
    rw [List.drop_eq_nil_of_le (Nat.le_of_eq one)] at member
    exact List.not_mem_nil member
  · simp [enterHandler, bridgeMoves]

/-- A handler that jumps to a target of its own is entered again. -/
theorem jump_inside_reenters :
    ¬(run Process.step Process.fresh (installMoves usr1 ⟨.function 1, fun _ => false, 0⟩ ++
      enterHandler ++ [.act (.longjmp 0)] ++ enterHandler)).NotReentered := by
  decide +kernel

end LashOs.Signals
