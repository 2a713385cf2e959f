import LashOs.Signals.Guest

/-!
# The guest's mask and the native one

`guest_signal_mask` follows the native mask. `sigsuspend` and `ppoll` put a temporary mask in
its place and the old value back when they return, while the loader restores the native mask
before the handlers run. When the two masks are the same again.

`found` records history: the native mask that each running handler found when it was started.
-/
namespace LashOs.Signals

open Base

variable {p q : Process}

/-- The masks are equal for the signals that can be blocked. -/
def Mirror (guest native : SigSet) : Prop := ∀ n, blockable n = true → guest n = native n

instance (guest native : SigSet) : Decidable (Mirror guest native) :=
  inferInstanceAs (Decidable (∀ n, blockable n = true → guest n = native n))

def Process.Mirrors (p : Process) : Prop := Mirror p.guestSignalMask p.mask

instance (p : Process) : Decidable p.Mirrors := inferInstanceAs (Decidable (Mirror _ _))

/-! ### Calls in progress -/

/-- The bridge call that a dispatch belongs to; a dispatch of its own counts as any other. -/
def Poll.call (poll : Poll) : BridgeCall := (poll.caller.map Prod.fst).getD .other

def Phase.call : Phase → BridgeCall
  | .calling call => call
  | .polling poll _ => poll.call
  | _ => .other

/-- The call is a `sigsuspend` or a `ppoll`. -/
def BridgeCall.waits (call : BridgeCall) : Bool := call.previous?.isSome

/-- A running handler was dispatched inside a `sigsuspend` or a `ppoll`. -/
def inWait (frames : List Frame) : Bool := frames.any fun f => f.poll.call.waits

/-- A `sigsuspend` or a `ppoll` is in progress. -/
def Process.waits (p : Process) : Bool := p.phase.call.waits || inWait p.frames

def Phase.isMasking : Phase → Bool
  | .masking _ _ _ _ => true
  | _ => false

/-- No `sigsuspend`, `ppoll` or `sigprocmask` is in progress. -/
def Process.Settled (p : Process) : Prop := p.phase.isMasking = false ∧ p.waits = false

instance (p : Process) : Decidable p.Settled := inferInstanceAs (Decidable (_ ∧ _))

/-- The call waits under a mask of its own, and not under the native one. -/
def BridgeCall.Replaces (call : BridgeCall) (native : SigSet) : Prop :=
  ∃ mask, call.waitMask = some mask ∧ ¬Mirror mask native

theorem BridgeCall.not_replaces {call : BridgeCall} (calm : call.waits = false) (native : SigSet) :
    ¬call.Replaces native := by
  rintro ⟨mask, own, -⟩
  cases call with
  | other => cases own
  | suspend => cases calm
  | poll => cases calm

/-! ### Careful programs -/

/-- The process, and the native mask that each running handler found. -/
structure Watched where
  process : Process
  found : List SigSet

def Watched.start (p : Process) : Watched := ⟨p, p.frames.map fun _ => p.mask⟩

/-- A handler that is started finds the native mask, and handlers that end are forgotten. -/
def Watched.step (w : Watched) (m : Move) : Watched where
  process := w.process.step m
  found :=
    if w.process.frames.length < (w.process.step m).frames.length then w.process.mask :: w.found
    else w.found.drop (w.process.frames.length - (w.process.step m).frames.length)

def Watched.handlers (w : Watched) : List (Frame × SigSet) := w.process.frames.zip w.found

/-- A running handler was dispatched inside a call that replaces the mask which it found. -/
def Replaced (handlers : List (Frame × SigSet)) : Prop :=
  ∃ h ∈ handlers, h.1.poll.call.Replaces h.2

/-- `*set` means the same behind a store of the mask through the same pointer. -/
def ReadsAlike (how : Int) (set mask : SigSet) : Prop :=
  ∀ n, blockable n = true →
    if how = 0 then set n = mask n
    else if how = 1 then set n = true → mask n = true
    else if how = 2 then mask n = true → set n = true
    else True

/-- What a program must not do: pass one pointer to `sigprocmask` where that makes a difference,
return from a handler inside a `sigsuspend` or a `ppoll` with another native mask than the handler
found, or jump out of a call that replaces the mask. -/
def Watched.Careful (w : Watched) : Move → Prop
  | .act (.sigprocmask how (some set) .same) =>
    w.process.phase = .code → ReadsAlike how set w.process.mask
  | .act .handlerReturn =>
    w.process.phase = .code → ∀ h ∈ w.handlers.head?, h.1.poll.call.waits = true →
      Mirror w.process.mask h.2
  | .act (.longjmp left) =>
    w.process.phase = .code → Replaced w.handlers → Replaced (w.handlers.drop left)
  | _ => True

/-! ### What a step does to the masks -/

inductive MaskStep (p : Process) : Move → Process → Prop
  | kept {m : Move} {q : Process} (mask : q.mask = p.mask)
      (guest : q.guestSignalMask = p.guestSignalMask) (frames : q.frames = p.frames)
      (call : q.phase.call = p.phase.call)
      (phase : q.phase = p.phase ∨ p.phase.isMasking = false ∧ q.phase.isMasking = false) :
    MaskStep p m q
  | masked (how : Int) (set : Option SigSet) (old : OldPointer) (mask : SigSet)
      (code : p.phase = .code) (served : brSigmask p how set = .ok ({ p with mask }, p.mask)) :
    MaskStep p (.act (.sigprocmask how set old))
      { p with mask, phase := .masking how set old p.mask }
  | returned (error : Option Errno) (how : Int) (set : Option SigSet) (old : OldPointer)
      (previous : SigSet) (phase : p.phase = .masking how set old previous) :
    MaskStep p (.resume error)
      { p with guestSignalMask := maskReturned how set old previous, phase := .code }
  | entered {m : Move} (call : BridgeCall) (code : p.phase = .code)
      (saved : call.previous? = some p.guestSignalMask) :
    MaskStep p m
      { p with
        guestSignalMask := call.waitMask.getD p.guestSignalMask, phase := .calling call }
  | started {m : Move} {q : Process} (f : Frame) (mask : q.mask = p.mask)
      (guest : q.guestSignalMask = p.guestSignalMask) (frames : q.frames = f :: p.frames)
      (call : f.poll.call = p.phase.call) (calm : p.phase.isMasking = false)
      (code : q.phase = .code) : MaskStep p m q
  | popped {q : Process} (f : Frame) (code : p.phase = .code) (mask : q.mask = p.mask)
      (guest : q.guestSignalMask = p.guestSignalMask) (frames : p.frames = f :: q.frames)
      (call : q.phase.call = f.poll.call) (calm : q.phase.isMasking = false) :
    MaskStep p (.act .handlerReturn) q
  | ended {m : Move} {q : Process} (previous : SigSet) (mask : q.mask = p.mask)
      (saved : p.phase.call.previous? = some previous) (guest : q.guestSignalMask = previous)
      (frames : q.frames = p.frames) (code : q.phase = .code) : MaskStep p m q
  | jumped (left : Nat) (code : p.phase = .code) :
    MaskStep p (.act (.longjmp left)) (p.longjmp left)

theorem MaskStep.refl {m : Move} : MaskStep p m p := .kept rfl rfl rfl rfl (.inl rfl)

theorem act_masks (p : Process) (code : p.phase = .code) (a : Act) :
    MaskStep p (.act a) (p.act a) := by
  have calm : p.phase.isMasking = false := by simp [code, Phase.isMasking]
  have call : Phase.code.call = p.phase.call := by rw [code]
  cases a with
  | sigaction number action old =>
    simp only [Process.act, Process.sigaction]
    split
    · exact .kept rfl rfl rfl rfl (.inl rfl)
    · split
      · exact .kept rfl rfl rfl rfl (.inl rfl)
      next served =>
        obtain ⟨native, flags, rfl⟩ := brSigaction_ok served
        exact .kept rfl rfl rfl call (.inr ⟨calm, rfl⟩)
  | sigprocmask how set old =>
    simp only [Process.act, Process.sigprocmask]
    split
    · exact .kept rfl rfl rfl rfl (.inl rfl)
    next served =>
      obtain ⟨rfl, mask, rfl⟩ := brSigmask_ok served
      exact .masked how set old mask code served
  | sigsuspend set => exact .entered (.suspend _ p.guestSignalMask) code rfl
  | ppoll count timeout mask =>
    simp only [Process.act, Process.ppoll]
    split
    · exact .kept rfl rfl rfl rfl (.inl rfl)
    · exact .entered (.poll (p.effective mask) p.guestSignalMask) code rfl
  | bridge => exact .kept rfl rfl rfl call (.inr ⟨calm, rfl⟩)
  | pollSignals => exact .kept rfl rfl rfl call (.inr ⟨calm, rfl⟩)
  | longjmp left => exact .jumped left code
  | handlerReturn =>
    simp only [Process.act, Process.handlerReturn]
    split
    · exact .refl
    next f rest frames => exact .popped f code rfl rfl frames rfl rfl
  | setErrno e => exact .kept rfl rfl rfl rfl (.inl rfl)

theorem resume_masks (p : Process) (error : Option Errno) :
    MaskStep p (.resume error) (p.resume error) := by
  unfold Process.resume
  split
  next n action old previous phase =>
    have calm : p.phase.isMasking = false := by simp [phase, Phase.isMasking]
    have call : Phase.code.call = p.phase.call := by rw [phase]; rfl
    unfold Process.sigactionReturn
    split <;> exact .kept rfl rfl rfl call (.inr ⟨calm, rfl⟩)
  next how set old previous phase => exact .returned error how set old previous phase
  next call phase =>
    refine .kept rfl rfl rfl ?_ (.inr ⟨by simp [phase, Phase.isMasking], rfl⟩)
    rw [phase]
    rfl
  · exact .refl

theorem scan_masks (p : Process) (poll : Poll) (next : Nat) (phase : p.phase = .polling poll next) :
    MaskStep p .scan (p.scan poll next) := by
  have calm : p.phase.isMasking = false := by simp [phase, Phase.isMasking]
  have call : poll.call = p.phase.call := by rw [phase]; rfl
  rcases Process.scan_cases phase with ⟨n, -, -, dispatched⟩ | passed | returned
  · rw [dispatched]
    dsimp only [Process.dispatch]
    split
    · -- The dispatch moves from the phase to the new frame.
      exact .started _ rfl rfl rfl call calm rfl
    · exact .kept rfl rfl rfl call (.inr ⟨calm, rfl⟩)
  · rw [passed]
    exact .kept rfl rfl rfl call (.inr ⟨calm, rfl⟩)
  · rw [returned]
    unfold Process.callReturn Process.restoreErrno
    split
    next caller =>
      refine .kept rfl rfl rfl ?_ (.inr ⟨calm, rfl⟩)
      rw [← call, Poll.call, caller]
      rfl
    next made error caller =>
      have same : poll.call = made := by rw [Poll.call, caller]; rfl
      cases made with
      | other => exact .kept rfl rfl rfl (by rw [← call, same]; rfl) (.inr ⟨calm, rfl⟩)
      | suspend mask previous => exact .ended previous rfl (by rw [← call, same]; rfl) rfl rfl rfl
      | poll mask previous => exact .ended previous rfl (by rw [← call, same]; rfl) rfl rfl rfl

theorem step_masks (p : Process) (m : Move) : MaskStep p m (p.step m) := by
  cases m with
  | act a =>
    simp only [Process.step]
    split
    next code => exact act_masks p code a
    · exact .refl
  | resume error => exact resume_masks p error
  | scan =>
    simp only [Process.step]
    split
    next poll next phase => exact scan_masks p poll next phase
    · exact .refl
  | publish =>
    simp only [Process.step]
    split
    · exact .kept rfl rfl rfl rfl (.inl rfl)
    · exact .refl
  | deliver n =>
    simp only [Process.step, Process.deliver]
    split
    · exact .kept rfl rfl rfl rfl (.inl rfl)
    · exact .refl

/-- `sigprocmask` computes the mask that the loader has installed, unless it reads its set back
through the second pointer. -/
theorem brSigmask_mirror {how : Int} {set : Option SigSet} {old : OldPointer} {previous : SigSet}
    (served : brSigmask p how set = .ok (q, previous))
    (alike : ∀ packed, set = some packed → old = .same → ReadsAlike how packed p.mask) :
    Mirror (maskReturned how set old previous) q.mask := by
  cases set with
  | none =>
    cases served
    exact fun n _ => rfl
  | some packed =>
    simp only [brSigmask] at served
    split at served
    next mask change =>
      cases served
      intro n can
      have free : reserved n = false := by
        simp only [blockable, Bool.not_eq_true', Bool.or_eq_false_iff] at can
        exact can.2
      have kept : installed (unpackSignalMask packed) n = packed n := by
        simp [installed, unpackSignalMask, free, can]
      have read : old = .same → if how = 0 then packed n = p.mask n
          else if how = 1 then packed n = true → p.mask n = true
          else if how = 2 then p.mask n = true → packed n = true else True :=
        fun same => alike packed rfl same n can
      simp only [maskReturned, packSignalMask]
      generalize p.mask = native at *
      unfold maskChange at *
      -- One case for each `how`; a set that is read back is the old mask.
      by_cases aliased : old = .same
      · have read := read aliased
        rw [if_pos aliased]
        split at change
        · cases change
          simp_all
        split at change
        · cases change
          cases here : packed n <;> simp_all
        split at change
        · cases change
          cases here : native n <;> simp_all
        · cases change
      · rw [if_neg aliased]
        split at change
        · cases change
          simp_all
        split at change
        · cases change
          simp_all
        split at change
        · cases change
          simp_all
        · cases change
    · cases served

/-! ### What a step does to the record -/

variable {w : Watched}

theorem Watched.handlers_kept {m : Move} (frames : (w.process.step m).frames = w.process.frames) :
    (w.step m).handlers = w.handlers := by
  simp [Watched.handlers, Watched.step, frames]

theorem Watched.handlers_started {m : Move} {f : Frame}
    (frames : (w.process.step m).frames = f :: w.process.frames) :
    (w.step m).handlers = (f, w.process.mask) :: w.handlers := by
  simp [Watched.handlers, Watched.step, frames]

theorem Watched.handlers_popped {m : Move} {f : Frame}
    (frames : w.process.frames = f :: (w.process.step m).frames)
    (each : w.found.length = w.process.frames.length) :
    ∃ mask, w.handlers = (f, mask) :: (w.step m).handlers := by
  rw [frames, List.length_cons] at each
  obtain ⟨mask, found, record⟩ := List.exists_cons_of_length_eq_add_one each
  have shorter : ¬ (w.process.step m).frames.length + 1 < (w.process.step m).frames.length := by
    omega
  refine ⟨mask, ?_⟩
  simp [Watched.handlers, Watched.step, frames, record, shorter]

theorem Watched.handlers_jumped {m : Move} {left : Nat}
    (frames : (w.process.step m).frames = w.process.frames.drop left)
    (each : w.found.length = w.process.frames.length) :
    (w.step m).handlers = w.handlers.drop left := by
  have shorter : ¬ w.process.frames.length < w.process.frames.length - left := by omega
  have dropped : w.found.drop (w.process.frames.length - (w.process.frames.length - left)) =
      w.found.drop left := by
    by_cases all : left ≤ w.process.frames.length
    · rw [Nat.sub_sub_self all]
    · rw [List.drop_of_length_le (by omega), List.drop_of_length_le (by omega)]
  simp only [Watched.handlers, Watched.step, frames, List.length_drop, if_neg shorter, dropped]
  exact List.drop_zipWith.symm

theorem Watched.each_step (m : Move) (each : w.found.length = w.process.frames.length) :
    (w.step m).found.length = (w.step m).process.frames.length := by
  have stepped := step_masks w.process m
  simp only [Watched.step]
  generalize w.process.step m = q at stepped
  cases stepped with
  | kept _ _ frames | ended _ _ _ _ frames => simp [frames, each]
  | started f _ _ frames => simp [frames, each]
  | popped f _ _ _ frames =>
    rw [frames, List.length_cons] at each ⊢
    rw [if_neg (by omega), List.length_drop]
    omega
  | masked | returned | entered => simp [each]
  | jumped left =>
    simp only [Process.longjmp, List.length_drop]
    rw [if_neg (by omega), List.length_drop]
    omega

/-! ### Every run -/

/-- A handler that was dispatched inside a `sigsuspend` or a `ppoll`: the guest's mask to restore
is the native one that the handler found, unless a call below has replaced the guest's. -/
def Restores : List (Frame × SigSet) → Prop
  | [] => True
  | h :: below =>
    (∀ previous, h.1.poll.call.previous? = some previous → ¬Replaced below →
      Mirror previous h.2) ∧ Restores below

variable {handlers : List (Frame × SigSet)}

theorem Restores.drop (restores : Restores handlers) (left : Nat) :
    Restores (handlers.drop left) := by
  induction left generalizing handlers with
  | zero => exact restores
  | succ left ih =>
    cases handlers with
    | nil => trivial
    | cons h below => exact ih restores.2

/-- While no call in progress replaces the mask, the masks agree; so does what the current call
will restore, and what `sigprocmask` is about to store. -/
structure Mirrored (p : Process) (handlers : List (Frame × SigSet)) : Prop where
  restores : Restores handlers
  current : p.phase.isMasking = false → ¬p.phase.call.Replaces p.mask → ¬Replaced handlers →
    p.Mirrors
  saved : ∀ previous, p.phase.call.previous? = some previous → ¬Replaced handlers →
    Mirror previous p.mask
  masking : ∀ how set old previous, p.phase = .masking how set old previous →
    Mirror (maskReturned how set old previous) p.mask

theorem mirrored_of_code (code : p.phase = .code) (restores : Restores handlers)
    (current : ¬Replaced handlers → p.Mirrors) : Mirrored p handlers := by
  refine ⟨restores, fun _ _ => current, ?_, ?_⟩
  · intro previous saved
    rw [code] at saved
    cases saved
  · intro how set old previous at_
    rw [code] at at_
    cases at_

theorem Mirrored.of_code (mirrored : Mirrored p handlers) (code : p.phase = .code) :
    ¬Replaced handlers → p.Mirrors := by
  apply mirrored.current
  · rw [code]
    rfl
  · rw [code]
    rintro ⟨_, own, -⟩
    cases own

section Steps

variable {handlers : List (Frame × SigSet)}

theorem Mirrored.kept (mirrored : Mirrored p handlers) (mask : q.mask = p.mask)
    (guest : q.guestSignalMask = p.guestSignalMask) (call : q.phase.call = p.phase.call)
    (phase : q.phase = p.phase ∨ p.phase.isMasking = false ∧ q.phase.isMasking = false) :
    Mirrored q handlers := by
  refine ⟨mirrored.restores, ?_, ?_, ?_⟩
  · intro calm own
    rw [call, mask] at own
    rw [Process.Mirrors, mask, guest]
    refine mirrored.current ?_ own
    rcases phase with same | ⟨before, -⟩
    · exact same ▸ calm
    · exact before
  · rw [call, mask]
    exact mirrored.saved
  · intro how set old previous at_
    rw [mask]
    rcases phase with same | ⟨-, calm⟩
    · exact mirrored.masking how set old previous (same ▸ at_)
    · simp [at_, Phase.isMasking] at calm

theorem Mirrored.masked (mirrored : Mirrored p handlers) (how : Int) (set : Option SigSet)
    (old : OldPointer) (mask : SigSet) (agree : Mirror (maskReturned how set old p.mask) mask) :
    Mirrored { p with mask, phase := .masking how set old p.mask } handlers := by
  refine ⟨mirrored.restores, ?_, ?_, ?_⟩
  · intro impossible
    cases impossible
  · intro previous impossible
    cases impossible
  · rintro _ _ _ _ ⟨⟩
    exact agree

theorem Mirrored.entered (mirrored : Mirrored p handlers) (call : BridgeCall)
    (code : p.phase = .code) (saved : call.previous? = some p.guestSignalMask) :
    Mirrored { p with
      guestSignalMask := call.waitMask.getD p.guestSignalMask, phase := .calling call } handlers := by
  refine ⟨mirrored.restores, ?_, ?_, ?_⟩
  · -- A mask that is not a replacement agrees with the native one.
    intro _ own below
    cases wait : call.waitMask with
    | none =>
      simp only [Process.Mirrors, Option.getD_none]
      exact mirrored.of_code code below
    | some mask =>
      simp only [Process.Mirrors, Option.getD_some]
      by_contra differs
      exact own ⟨mask, wait, differs⟩
  · intro previous same below
    obtain rfl : previous = p.guestSignalMask := Option.some.inj (same.symm.trans saved)
    exact mirrored.of_code code below
  · rintro _ _ _ _ ⟨⟩

theorem Mirrored.started (mirrored : Mirrored p handlers) (f : Frame) (mask : q.mask = p.mask)
    (guest : q.guestSignalMask = p.guestSignalMask) (call : f.poll.call = p.phase.call)
    (calm : p.phase.isMasking = false) (code : q.phase = .code) :
    Mirrored q ((f, p.mask) :: handlers) := by
  apply mirrored_of_code code
  · refine ⟨?_, mirrored.restores⟩
    rw [call]
    exact mirrored.saved
  · intro none_
    rw [Process.Mirrors, mask, guest]
    apply mirrored.current calm
    · intro replaces
      exact none_ ⟨(f, p.mask), List.mem_cons_self, call ▸ replaces⟩
    · rintro ⟨h, member, replaces⟩
      exact none_ ⟨h, List.mem_cons_of_mem _ member, replaces⟩

theorem Mirrored.popped {f : Frame} {found : SigSet} (mirrored : Mirrored p ((f, found) :: handlers))
    (careful : f.poll.call.waits = true → Mirror p.mask found) (code : p.phase = .code)
    (mask : q.mask = p.mask) (guest : q.guestSignalMask = p.guestSignalMask)
    (call : q.phase.call = f.poll.call) (calm : q.phase.isMasking = false) :
    Mirrored q handlers := by
  refine ⟨mirrored.restores.2, ?_, ?_, ?_⟩
  · intro _ own below
    rw [Process.Mirrors, mask, guest]
    apply mirrored.of_code code
    rintro ⟨h, member, replaces⟩
    rcases List.mem_cons.mp member with rfl | later
    · -- The call replaces the mask that the handler found, and that is the native one still.
      obtain ⟨own', wait, differs⟩ := replaces
      have waits : f.poll.call.waits = true := by
        by_contra calm
        exact BridgeCall.not_replaces (by simpa using calm) found ⟨own', wait, differs⟩
      refine own ⟨own', call ▸ wait, fun agrees => differs fun n can => ?_⟩
      rw [agrees n can, mask]
      exact careful waits n can
    · exact below ⟨h, later, replaces⟩
  · intro previous saved below
    rw [call] at saved
    have waits : f.poll.call.waits = true := by rw [BridgeCall.waits, saved]; rfl
    intro n can
    rw [mirrored.restores.1 previous saved below n can, mask]
    exact (careful waits n can).symm
  · intro how set old previous at_
    simp [at_, Phase.isMasking] at calm

end Steps

theorem step_mirrored (w : Watched) (m : Move) (careful : w.Careful m)
    (mirrored : w.found.length = w.process.frames.length ∧ Mirrored w.process w.handlers) :
    (w.step m).found.length = (w.step m).process.frames.length ∧
      Mirrored (w.step m).process (w.step m).handlers := by
  obtain ⟨each, mirrored⟩ := mirrored
  refine ⟨w.each_step m each, ?_⟩
  have stepped := step_masks w.process m
  have kept := @Watched.handlers_kept w m
  have started := @Watched.handlers_started w m
  have popped := @Watched.handlers_popped w m
  have jumped := @Watched.handlers_jumped w m
  change Mirrored (w.process.step m) (w.step m).handlers
  -- From here on only what the step does to the masks counts.
  generalize w.process.step m = q at *
  generalize (w.step m).handlers = handlers at *
  cases stepped with
  | kept mask guest frames call phase =>
    rw [kept frames]
    exact mirrored.kept mask guest call phase
  | masked how set old mask code served =>
    rw [kept rfl]
    refine mirrored.masked how set old mask (brSigmask_mirror served ?_)
    rintro packed rfl rfl
    exact careful code
  | returned error how set old previous phase =>
    rw [kept rfl]
    exact mirrored_of_code rfl mirrored.restores fun _ => mirrored.masking how set old previous phase
  | entered call code saved =>
    rw [kept rfl]
    exact mirrored.entered call code saved
  | started f mask guest frames call calm code =>
    rw [started frames]
    exact mirrored.started f mask guest call calm code
  | popped f code mask guest frames call calm =>
    obtain ⟨found, shape⟩ := popped frames each
    rw [shape] at mirrored
    exact mirrored.popped (careful code (f, found) (by rw [shape]; rfl)) code mask guest call calm
  | ended previous mask saved guest frames code =>
    rw [kept frames]
    refine mirrored_of_code code mirrored.restores fun below => ?_
    rw [Process.Mirrors, mask, guest]
    exact mirrored.saved previous saved below
  | jumped left code =>
    rw [jumped rfl each]
    refine mirrored_of_code code (mirrored.restores.drop left) fun below => ?_
    exact mirrored.of_code code fun replaced => below (careful code replaced)

theorem Process.Settled.mirrors (settled : p.Settled) (within : ∀ h ∈ handlers, h.1 ∈ p.frames)
    (mirrored : Mirrored p handlers) : p.Mirrors := by
  obtain ⟨calm, waits⟩ := settled
  rw [Process.waits, Bool.or_eq_false_iff] at waits
  apply mirrored.current calm
  · exact BridgeCall.not_replaces waits.1 p.mask
  · rintro ⟨h, member, replaces⟩
    have outside : h.1.poll.call.waits = false := by
      simpa using List.any_eq_false.mp waits.2 h.1 (within h member)
    exact BridgeCall.not_replaces outside h.2 replaces

theorem restores_of_outside (outside : ∀ h ∈ handlers, h.1.poll.call.waits = false) :
    Restores handlers := by
  induction handlers with
  | nil => trivial
  | cons h below ih =>
    refine ⟨fun previous saved => ?_, ih fun h member => outside h (List.mem_cons_of_mem _ member)⟩
    have calm := outside h List.mem_cons_self
    rw [BridgeCall.waits, saved] at calm
    cases calm

theorem start_mirrored (settled : p.Settled) (equal : p.Mirrors) :
    Mirrored p (Watched.start p).handlers := by
  obtain ⟨calm, waits⟩ := settled
  rw [Process.waits, Bool.or_eq_false_iff] at waits
  refine ⟨restores_of_outside fun h member => ?_, fun _ _ _ => equal, ?_, ?_⟩
  · simpa using List.any_eq_false.mp waits.2 h.1 (List.of_mem_zip member).1
  · intro previous saved
    rw [BridgeCall.waits, saved] at waits
    cases waits.1
  · intro how set old previous at_
    simp [at_, Phase.isMasking] at calm

/-- From equal masks on, in every run of a careful program, whatever it calls and however its
handlers end, the masks are equal whenever nothing is in progress. -/
theorem masks_mirror (first : Process) (settled : first.Settled) (equal : first.Mirrors)
    (moves : List Move) (careful : Permits Watched.step Watched.Careful (.start first) moves) :
    Always Process.step (fun p => p.Settled → p.Mirrors) first moves := by
  have initial : (Watched.start first).found.length = (Watched.start first).process.frames.length ∧
      Mirrored (Watched.start first).process (Watched.start first).handlers :=
    ⟨List.length_map _, start_mirrored settled equal⟩
  refine (careful.always step_mirrored initial).project Watched.process (fun _ _ => rfl) ?_
  rintro w ⟨-, mirrored⟩ calm
  exact calm.mirrors (fun h member => (List.of_mem_zip member).1) mirrored

/-- `SIGUSR2` alone. -/
def onlyUsr2 : SigSet := fun n => n == usr2

/-- `SIGUSR1` is handled inside a `sigsuspend`. -/
def suspendedHandler (mask : SigSet) : List Move :=
  installMoves usr1 ⟨.function 1, fun _ => false, 0⟩ ++
    [.act (.sigsuspend mask), .deliver usr1, .publish, .resume none] ++ List.replicate 10 .scan

def handlerMoves : List Move :=
  [.act (.sigprocmask 1 (some onlyUsr2) .apart), .resume none,
    .act (.sigprocmask 2 (some onlyUsr2) .apart), .resume none]

theorem suspendedHandler_careful (w : Watched) (mask : SigSet) :
    Permits Watched.step Watched.Careful w (suspendedHandler mask ++ handlerMoves) := by
  refine permits_of_forall fun m member w => ?_
  simp only [suspendedHandler, installMoves, handlerMoves, List.mem_append, List.mem_cons,
    List.not_mem_nil, or_false, List.mem_replicate] at member
  rcases member with (((rfl | rfl) | rfl | rfl | rfl | rfl) | ⟨-, rfl⟩) | rfl | rfl | rfl | rfl <;>
    trivial

/-- Inside a `sigsuspend` a handler blocks a signal, unblocks it and returns. -/
theorem unblocked_mirrors :
    Always Process.step (fun p => p.Settled → p.Mirrors) Process.fresh
      (suspendedHandler (fun _ => false) ++ handlerMoves ++ .act .handlerReturn ::
        List.replicate 55 .scan) := by
  apply masks_mirror Process.fresh ⟨rfl, rfl⟩ (fun _ _ => rfl)
  apply permits_append _ _ (suspendedHandler_careful _ _)
  refine ⟨?_, permits_of_forall fun m member w => ?_⟩
  · -- the handler found the empty mask
    intro _
    decide +kernel
  · obtain rfl := List.eq_of_mem_replicate member
    trivial

def Process.Differs (p : Process) : Prop := p.Settled ∧ ¬p.Mirrors

instance (p : Process) : Decidable p.Differs := inferInstanceAs (Decidable (_ ∧ _))

/-- The handler blocks a signal and returns; the handler jumps out of a `sigsuspend` that
blocked one; and `sigprocmask` is given the same pointer twice. -/
theorem masks_differ :
    (run Process.step Process.fresh (suspendedHandler (fun _ => false) ++
      [.act (.sigprocmask 1 (some onlyUsr2) .null), .resume none, .act .handlerReturn] ++
      List.replicate 55 .scan)).Differs ∧
    (run Process.step Process.fresh (suspendedHandler onlyUsr2 ++ [.act (.longjmp 1)])).Differs ∧
    (run Process.step Process.fresh
      [.act (.sigprocmask 1 (some onlyUsr2) .same), .resume none]).Differs := by
  decide +kernel

end LashOs.Signals
