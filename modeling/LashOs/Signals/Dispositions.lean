import LashOs.Signals.Guest

/-!
# Two copies of every disposition

Linux and the guest each know the action of a signal. Linux resets a one-shot action when it
delivers the signal, the guest when it dispatches it, and a new action may be installed in
between. When the two agree all the same.
-/
namespace LashOs.Signals

open Base

variable {p q : Process} {n : Signal}

def Phase.isInstalling : Phase → Bool
  | .installing _ _ _ _ => true
  | _ => false

/-- Outside of `sigaction`, a signal that the loader records has a handler in the guest. -/
def Process.Agrees (p : Process) : Prop :=
  p.phase.isInstalling = false →
    ∀ n, (p.native n).mode = .handler → (p.guestActions n).handler.isFunction = true

/-- The next round drops a signal that was recorded for a handler, and the guest has not
given that handler up. -/
def Process.Loses (p : Process) (n : Signal) : Prop :=
  p.Takes n ∧ (p.guestActions n).handler.isFunction = false ∧ p.owedPublished n = true

/-- The dispatcher resets a one-shot action that Linux has not reset, or `sigaction` reads
back through its second pointer that the guest had no handler. -/
def Process.Breaks (p : Process) (m : Move) : Prop :=
  (m = .scan ∧ ∃ n, p.Takes n ∧ (p.guestActions n).OneShot ∧ (p.native n).mode = .handler) ∨
    (∃ error n a previous, m = .resume error ∧ p.phase = .installing n (some a) .same previous ∧
      (p.native n).mode = .handler ∧
      (reported (p.guestActions n) previous).handler.isFunction = false)

/-- The guest does not install a one-shot action for a signal that waits to be dispatched, and
does not let `sigaction` overwrite the new action. -/
def Process.Careful (p : Process) (m : Move) : Prop :=
  ∀ number a old, m = .act (.sigaction number (some a) old) → old ≠ .same ∧
    (a.OneShot → ∀ n : Signal, number = n.val + 1 → p.pending n = false ∧ p.published n = false)

/-! ### What a step does to one signal -/

/-- The action that the guest has, or will have when `sigaction` returns. -/
def Process.target (p : Process) (n : Signal) : SigAction :=
  match p.phase with
  | .installing m (some a) _ _ => if n = m then a else p.guestActions n
  | _ => p.guestActions n

theorem target_of_not_installing (outside : p.phase.isInstalling = false) :
    p.target = p.guestActions := by
  funext n
  unfold Process.target
  split
  next same => simp [Phase.isInstalling, same] at outside
  · rfl

structure Slot where
  native : NativeAction
  target : SigAction
  pending : Bool
  published : Bool
  owedPending : Bool
  owedPublished : Bool

def Process.slot (p : Process) (n : Signal) : Slot where
  native := p.native n
  target := p.target n
  pending := p.pending n
  published := p.published n
  owedPending := p.owedPending n
  owedPublished := p.owedPublished n

def Slot.deliver (s : Slot) : Slot :=
  { s with
    pending := true
    owedPending := true
    native := if s.native.flags.resetHand then { s.native with mode := .default } else s.native }

def Slot.publish (s : Slot) : Slot :=
  { s with
    published := s.published || s.pending
    pending := false
    owedPublished := s.owedPublished || s.owedPending
    owedPending := false }

def Slot.install (s : Slot) (a : SigAction) : Slot :=
  { s with
    native := a.pack.unpack
    target := a
    owedPending := s.owedPending && a.handler.isFunction
    owedPublished := s.owedPublished && a.handler.isFunction }

def Slot.take (s : Slot) : Slot :=
  { s with
    published := false
    owedPublished := false
    target :=
      if s.target.handler.isFunction && s.target.flags.resetHand then
        { s.target with handler := .default }
      else s.target }

inductive SlotStep (p : Process) (n : Signal) : Move → Slot → Prop
  | kept {m : Move} : SlotStep p n m (p.slot n)
  | delivered (recording : (p.native n).mode = .handler) :
    SlotStep p n (.deliver n) (p.slot n).deliver
  | published : SlotStep p n .publish (p.slot n).publish
  | installed (code : p.phase = .code) (a : SigAction) (old : OldPointer) :
    SlotStep p n (.act (.sigaction (n.val + 1) (some a) old)) ((p.slot n).install a)
  | taken (takes : p.Takes n) : SlotStep p n .scan (p.slot n).take
  | readBack (error : Option Errno) (a : SigAction) (previous : PackedAction)
      (phase : p.phase = .installing n (some a) .same previous) :
    SlotStep p n (.resume error) { p.slot n with target := reported (p.guestActions n) previous }

theorem SlotStep.of_kept {m : Move} (before : p.phase.isInstalling = false)
    (after : q.phase.isInstalling = false) (native : q.native = p.native)
    (actions : q.guestActions = p.guestActions) (pending : q.pending = p.pending)
    (published : q.published = p.published) (owedPending : q.owedPending = p.owedPending)
    (owedPublished : q.owedPublished = p.owedPublished) : SlotStep p n m (q.slot n) := by
  have same : q.slot n = p.slot n := by
    simp only [Process.slot, target_of_not_installing before, target_of_not_installing after,
      native, actions, pending, published, owedPending, owedPublished]
  rw [same]
  exact .kept

theorem sigaction_slot (p : Process) (code : p.phase = .code) (number : Int)
    (action : Option SigAction) (old : OldPointer) (n : Signal) :
    SlotStep p n (.act (.sigaction number action old)) ((p.sigaction number action old).slot n) := by
  have outside : p.phase.isInstalling = false := by simp [code, Phase.isInstalling]
  unfold Process.sigaction
  split
  · exact .of_kept outside outside rfl rfl rfl rfl rfl rfl
  next inside =>
    obtain ⟨m, same⟩ : ∃ m : Signal, number = m.val + 1 :=
      ⟨⟨(number - 1).toNat, by omega⟩, by simp; omega⟩
    subst same
    have index : (⟨((m.val : Int) + 1 - 1).toNat, by omega⟩ : Signal) = m := by ext; simp
    simp only [index]
    cases action with
    | none =>
      -- A query changes nothing.
      simp only [brSigaction, Option.map_none]
      split
      next failed => exact .of_kept outside outside rfl rfl rfl rfl rfl rfl
      next result =>
        split at result
        · cases result
        · cases result
          have same (old previous) :
              ({ p with phase := .installing m none old previous } : Process).slot n = p.slot n := by
            simp [Process.slot, Process.target, code]
          simpa only [givesUp, Bool.false_eq_true, if_false, same] using .kept
    | some a =>
      simp only [brSigaction, Option.map_some]
      split
      next failed => exact .of_kept outside outside rfl rfl rfl rfl rfl rfl
      next result =>
        split at result
        · cases result
          by_cases here : n = m
          · subst here
            convert SlotStep.installed code a old using 1
            cases function : a.handler.isFunction <;>
              simp [Process.slot, Slot.install, Process.target, givesUp, function]
          · convert SlotStep.kept using 1
            cases function : a.handler.isFunction <;>
              simp [Process.slot, Process.target, code, givesUp, function, here]
        · cases result

theorem act_slot (p : Process) (code : p.phase = .code) (a : Act) (n : Signal) :
    SlotStep p n (.act a) ((p.act a).slot n) := by
  have outside : p.phase.isInstalling = false := by simp [code, Phase.isInstalling]
  cases a with
  | sigaction number action old => exact sigaction_slot p code number action old n
  | sigprocmask how set old =>
    simp only [Process.act, Process.sigprocmask]
    split
    · exact .of_kept outside outside rfl rfl rfl rfl rfl rfl
    next q previous served =>
      obtain ⟨-, mask, rfl⟩ := brSigmask_ok served
      exact .of_kept outside rfl rfl rfl rfl rfl rfl rfl
  | ppoll count timeout mask =>
    simp only [Process.act, Process.ppoll]
    split
    · exact .of_kept outside outside rfl rfl rfl rfl rfl rfl
    · exact .of_kept outside rfl rfl rfl rfl rfl rfl rfl
  | handlerReturn =>
    simp only [Process.act, Process.handlerReturn]
    split
    · exact .kept
    · exact .of_kept outside rfl rfl rfl rfl rfl rfl rfl
  | longjmp left => exact .of_kept outside outside rfl rfl rfl rfl rfl rfl
  | setErrno e => exact .of_kept outside outside rfl rfl rfl rfl rfl rfl
  | _ => exact .of_kept outside rfl rfl rfl rfl rfl rfl rfl

theorem sigactionReturn_slot (p : Process) (m : Signal) (a : SigAction) (old : OldPointer)
    (previous : PackedAction) (phase : p.phase = .installing m (some a) old previous)
    (error : Option Errno) (n : Signal) :
    SlotStep p n (.resume error) ((p.sigactionReturn m (some a) old previous).slot n) := by
  by_cases here : n = m
  · subst here
    by_cases aliased : old = .same
    · subst aliased
      convert SlotStep.readBack error a previous phase using 1
      simp [Process.slot, Process.target, Process.sigactionReturn]
    · convert SlotStep.kept using 1
      simp [Process.slot, Process.target, Process.sigactionReturn, phase, aliased]
  · convert SlotStep.kept using 1
    simp [Process.slot, Process.target, Process.sigactionReturn, phase, here]

theorem resume_slot (p : Process) (error : Option Errno) (n : Signal) :
    SlotStep p n (.resume error) ((p.resume error).slot n) := by
  unfold Process.resume
  split
  next m action old previous phase =>
    cases action with
    | none =>
      convert SlotStep.kept using 1
      simp [Process.slot, Process.target, Process.sigactionReturn, phase]
    | some a => exact sigactionReturn_slot p m a old previous phase error n
  next phase =>
    exact .of_kept (by simp [phase, Phase.isInstalling]) rfl rfl rfl rfl rfl rfl rfl
  next phase =>
    exact .of_kept (by simp [phase, Phase.isInstalling]) rfl rfl rfl rfl rfl rfl rfl
  · exact .kept

theorem dispatch_slot (p : Process) (poll : Poll) (m : Signal) (takes : p.Takes m) (n : Signal) :
    SlotStep p n .scan ((p.dispatch poll m).slot n) := by
  obtain ⟨current, phase⟩ := takes.1
  have before : p.target = p.guestActions :=
    target_of_not_installing (by simp [phase, Phase.isInstalling])
  have after : (p.dispatch poll m).target = (p.dispatch poll m).guestActions := by
    apply target_of_not_installing
    dsimp only [Process.dispatch]
    split <;> rfl
  by_cases here : n = m
  · subst here
    convert SlotStep.taken takes using 1
    simp only [Process.slot, Slot.take, before, after]
    cases function : (p.guestActions n).handler.isFunction <;>
      cases oneShot : (p.guestActions n).flags.resetHand <;>
      simp [Process.dispatch, function, oneShot]
  · convert SlotStep.kept using 1
    simp only [Process.slot, before, after]
    cases function : (p.guestActions m).handler.isFunction <;>
      cases oneShot : (p.guestActions m).flags.resetHand <;>
      simp [Process.dispatch, function, oneShot, here]

theorem scan_slot (p : Process) (poll : Poll) (next : Nat) (phase : p.phase = .polling poll next)
    (n : Signal) : SlotStep p n .scan ((p.scan poll next).slot n) := by
  have outside : p.phase.isInstalling = false := by simp [phase, Phase.isInstalling]
  rcases Process.scan_cases phase with ⟨taken, -, takes, dispatched⟩ | passed | returned
  · rw [dispatched]
    exact dispatch_slot p poll taken takes n
  · rw [passed]
    exact .of_kept outside rfl rfl rfl rfl rfl rfl rfl
  · rw [returned]
    unfold Process.callReturn
    split
    · exact .of_kept outside rfl rfl rfl rfl rfl rfl rfl
    · exact .of_kept outside rfl rfl rfl rfl rfl rfl rfl

theorem deliver_slot (p : Process) (m n : Signal) :
    SlotStep p n (.deliver m) ((p.deliver m).slot n) := by
  unfold Process.deliver
  split
  next recording =>
    by_cases here : n = m
    · subst here
      convert SlotStep.delivered recording.2.2 using 1
      cases oneShot : (p.native n).flags.resetHand <;>
        simp [Process.slot, Slot.deliver, Process.target, oneShot]
    · convert SlotStep.kept using 1
      cases oneShot : (p.native m).flags.resetHand <;>
        simp [Process.slot, Process.target, here]
  · exact .kept

theorem step_slot (p : Process) (m : Move) (n : Signal) : SlotStep p n m ((p.step m).slot n) := by
  cases m with
  | act a =>
    simp only [Process.step]
    split
    next code => exact act_slot p code a n
    · exact .kept
  | resume error => exact resume_slot p error n
  | scan =>
    simp only [Process.step]
    split
    next poll next phase => exact scan_slot p poll next phase n
    · exact .kept
  | publish =>
    simp only [Process.step]
    split
    · exact .published
    · exact .kept
  | deliver m => exact deliver_slot p m n

/-! ### Agreement -/

/-- Linux records a signal for a handler only. -/
def Slot.Agrees (s : Slot) : Prop := s.native.mode = .handler → s.target.handler.isFunction = true

theorem mode_unpack (a : SigAction) : a.pack.unpack.mode = .handler ↔ a.handler.isFunction = true := by
  cases function : a.handler <;>
    simp [PackedAction.unpack, SigAction.pack, Handler.mode, Handler.isFunction, function]

theorem step_agrees (p : Process) (m : Move) (fine : ¬p.Breaks m) (n : Signal)
    (agrees : (p.slot n).Agrees) : ((p.step m).slot n).Agrees := by
  have stepped := step_slot p m n
  generalize (p.step m).slot n = s at stepped
  cases stepped with
  | kept => exact agrees
  | delivered recording =>
    intro stays
    exact agrees recording
  | published => exact agrees
  | installed code a old => exact (mode_unpack a).mp
  | taken takes =>
    intro recording
    obtain ⟨poll, phase⟩ := takes.1
    have same : p.target = p.guestActions :=
      target_of_not_installing (by simp [phase, Phase.isInstalling])
    -- The native action was not reset, so the guest's is not one-shot.
    have kept : ¬(p.guestActions n).OneShot := fun oneShot =>
      fine (.inl ⟨rfl, n, takes, oneShot, recording⟩)
    have handler : (p.guestActions n).handler.isFunction = true := same ▸ agrees recording
    simp only [SigAction.OneShot, handler, true_and, Bool.not_eq_true] at kept
    simpa [Slot.take, Process.slot, same, kept] using handler
  | readBack error a previous phase =>
    intro recording
    by_contra bare
    exact fine (.inr ⟨error, n, a, previous, rfl, phase, recording, by simpa using bare⟩)

theorem agrees_of_slots (slots : ∀ n, (p.slot n).Agrees) : p.Agrees := by
  intro outside n recording
  have handler := slots n recording
  rwa [Process.slot, target_of_not_installing outside] at handler

theorem not_agrees_of_breaks {m : Move} (breaks : p.Breaks m) : ¬(p.step m).Agrees := by
  intro agrees
  rcases breaks with ⟨rfl, n, takes, oneShot, recording⟩ |
    ⟨error, n, a, previous, rfl, phase, recording, bare⟩
  · obtain ⟨⟨poll, phase⟩, published, unmasked, unblocked⟩ := takes
    have stepped : p.step .scan = p.dispatch poll n := by
      simp [Process.step, phase, Process.scan, published, unmasked, unblocked]
    rw [stepped] at agrees
    have handler := agrees (by simp [Process.dispatch, oneShot.1, Phase.isInstalling]) n
      (by simpa [Process.dispatch, oneShot.1] using recording)
    simp [Process.dispatch, oneShot.1, oneShot.2] at handler
  · have stepped : p.step (.resume error) = p.sigactionReturn n (some a) .same previous := by
      simp [Process.step, Process.resume, phase]
    rw [stepped] at agrees
    have handler := agrees rfl n recording
    simp [Process.sigactionReturn, bare] at handler

/-! ### No signal is lost -/

/-- A one-shot action is reset on both sides by one and the same signal. -/
structure Slot.InStep (s : Slot) : Prop where
  agrees : s.Agrees
  flags : s.native.mode = .handler → s.native.flags.resetHand = s.target.flags.resetHand
  fresh : s.target.OneShot → s.native.mode = .handler → s.pending = false ∧ s.published = false
  once : s.target.OneShot → s.pending = true → s.published = false
  owed : s.owedPending = true ∨ s.owedPublished = true → s.target.handler.isFunction = true
  owedPending : s.owedPending = true → s.pending = true
  owedPublished : s.owedPublished = true → s.published = true

theorem Slot.InStep.deliver {s : Slot} (inStep : s.InStep) (recording : s.native.mode = .handler) :
    s.deliver.InStep where
  agrees _ := inStep.agrees recording
  flags stays := by
    cases oneShot : s.native.flags.resetHand with
    | true => simp [Slot.deliver, oneShot] at stays
    | false => simpa [Slot.deliver, oneShot] using inStep.flags recording
  fresh oneShot stays := by
    -- Linux has reset the action.
    have reset : s.native.flags.resetHand = true := (inStep.flags recording).trans oneShot.2
    simp [Slot.deliver, reset] at stays
  once oneShot _ := (inStep.fresh oneShot recording).2
  owed _ := inStep.agrees recording
  owedPending _ := rfl
  owedPublished := inStep.owedPublished

theorem Slot.InStep.publish {s : Slot} (inStep : s.InStep) : s.publish.InStep where
  agrees := inStep.agrees
  flags := inStep.flags
  fresh oneShot stays := by
    obtain ⟨pending, published⟩ := inStep.fresh oneShot stays
    simp [Slot.publish, pending, published]
  once _ impossible := by simp [Slot.publish] at impossible
  owed owed := by
    apply inStep.owed
    simpa [Slot.publish, or_comm] using owed
  owedPending impossible := by simp [Slot.publish] at impossible
  owedPublished owed := by
    simp only [Slot.publish, Bool.or_eq_true] at owed ⊢
    exact owed.imp inStep.owedPublished inStep.owedPending

theorem resetHand_unpack (a : SigAction) : a.pack.unpack.flags.resetHand = a.flags.resetHand := by
  cases function : a.handler <;>
    simp [PackedAction.unpack, SigAction.pack, Handler.mode, nativeActionFlags,
      ActionFlags.resetHand, function]

theorem Slot.InStep.install {s : Slot} (inStep : s.InStep) (a : SigAction)
    (unqueued : a.OneShot → s.pending = false ∧ s.published = false) : (s.install a).InStep where
  agrees := (mode_unpack a).mp
  flags _ := resetHand_unpack a
  fresh oneShot _ := unqueued oneShot
  once oneShot _ := (unqueued oneShot).2
  owed owed := by
    simp only [Slot.install, Bool.and_eq_true] at owed ⊢
    exact owed.elim And.right And.right
  owedPending owed := by
    simp only [Slot.install, Bool.and_eq_true] at owed ⊢
    exact inStep.owedPending owed.1
  owedPublished owed := by
    simp only [Slot.install, Bool.and_eq_true] at owed ⊢
    exact inStep.owedPublished owed.1

theorem Slot.InStep.take {s : Slot} (inStep : s.InStep) (published : s.published = true) :
    s.take.InStep := by
  by_cases oneShot : s.target.OneShot
  · -- Nothing is left of a one-shot action: not in Linux, and not in either queue.
    have pending : s.pending = false := by
      by_contra waiting
      have := inStep.once oneShot (by simpa using waiting)
      simp [published] at this
    have reset : s.native.mode ≠ .handler := by
      intro recording
      have := (inStep.fresh oneShot recording).2
      simp [published] at this
    have unowed : s.owedPending = false := by
      by_contra owed
      have := inStep.owedPending (by simpa using owed)
      simp [pending] at this
    exact
      { agrees := fun recording => absurd recording reset
        flags := fun recording => absurd recording reset
        fresh := fun _ recording => absurd recording reset
        once := fun _ _ => rfl
        owed := by simp [Slot.take, unowed]
        owedPending := by simp [Slot.take, unowed]
        owedPublished := by simp [Slot.take] }
  · have same : s.take = { s with published := false, owedPublished := false } := by
      simp only [SigAction.OneShot] at oneShot
      simp [Slot.take, oneShot]
    rw [same]
    exact
      { agrees := inStep.agrees
        flags := inStep.flags
        fresh := fun one => absurd one oneShot
        once := fun _ _ => rfl
        owed := fun owed => inStep.owed (.inl (by simpa using owed))
        owedPending := inStep.owedPending
        owedPublished := by simp }

/-- Every signal is in step, and no `sigaction` under way was given one pointer twice. -/
structure Process.InStep (p : Process) : Prop where
  slots : ∀ n, (p.slot n).InStep
  apart : ∀ n a previous, p.phase ≠ .installing n (some a) .same previous

theorem step_slot_inStep (p : Process) (m : Move) (careful : p.Careful m) (inStep : p.InStep)
    (n : Signal) : ((p.step m).slot n).InStep := by
  have slot := inStep.slots n
  have stepped := step_slot p m n
  generalize (p.step m).slot n = s at stepped
  cases stepped with
  | kept => exact slot
  | delivered recording => exact slot.deliver recording
  | published => exact slot.publish
  | installed code a old =>
    apply slot.install
    intro oneShot
    exact (careful _ a old rfl).2 oneShot n rfl
  | taken takes => exact slot.take takes.2.1
  | readBack error a previous phase => exact absurd phase (inStep.apart n a previous)

theorem scan_not_installing (p : Process) (poll : Poll) (next : Nat) {action : Option SigAction}
    {old : OldPointer} {previous : PackedAction} :
    (p.scan poll next).phase ≠ .installing n action old previous := by
  unfold Process.scan
  split
  · split
    · dsimp only [Process.dispatch]
      split <;> exact Phase.noConfusion
    · exact Phase.noConfusion
  · unfold Process.callReturn
    split <;> exact Phase.noConfusion

/-- Only `sigaction` itself starts an installation. -/
theorem step_installing {m : Move} {a : SigAction} {old : OldPointer} {previous : PackedAction}
    (after : (p.step m).phase = .installing n (some a) old previous) :
    p.phase = .installing n (some a) old previous ∨
      blockable n = true ∧ ∃ number, m = .act (.sigaction number (some a) old) := by
  -- The other moves keep the phase or lead to one that installs nothing.
  cases m with
  | act act =>
    simp only [Process.step] at after
    split at after
    next code =>
      cases act with
      | sigaction number action pointer =>
        simp only [Process.act, Process.sigaction] at after
        split at after
        · exact .inl after
        · split at after
          · exact .inl after
          next served =>
            simp only [Phase.installing.injEq] at after
            obtain ⟨rfl, rfl, rfl, -⟩ := after
            exact .inr ⟨blockable_of_brSigaction served, number, rfl⟩
      | sigprocmask how set pointer =>
        simp only [Process.act, Process.sigprocmask] at after
        split at after
        · exact .inl after
        · cases after
      | ppoll count timeout mask =>
        simp only [Process.act, Process.ppoll] at after
        split at after
        · exact .inl after
        · cases after
      | handlerReturn =>
        simp only [Process.act, Process.handlerReturn] at after
        split at after
        · exact .inl after
        · cases after
      | longjmp left => exact .inl after
      | setErrno e => exact .inl after
      | _ => cases after
    · exact .inl after
  | resume error =>
    simp only [Process.step, Process.resume] at after
    split at after
    · unfold Process.sigactionReturn at after
      split at after <;> cases after
    · cases after
    · cases after
    · exact .inl after
  | scan =>
    simp only [Process.step] at after
    split at after
    · exact absurd after (scan_not_installing p _ _)
    · exact .inl after
  | publish =>
    simp only [Process.step] at after
    split at after <;> exact .inl after
  | deliver n =>
    simp only [Process.step, Process.deliver] at after
    split at after <;> exact .inl after

theorem step_inStep (p : Process) (m : Move) (careful : p.Careful m) (inStep : p.InStep) :
    (p.step m).InStep where
  slots := step_slot_inStep p m careful inStep
  apart n a previous after := by
    rcases step_installing after with before | ⟨-, number, rfl⟩
    · exact inStep.apart n a previous before
    · exact (careful number a .same rfl).1 rfl

theorem not_loses_of_inStep (inStep : p.InStep) (n : Signal) : ¬p.Loses n := by
  rintro ⟨⟨⟨poll, phase⟩, -⟩, bare, owed⟩
  have handler := (inStep.slots n).owed (.inr owed)
  rw [Process.slot, target_of_not_installing (by simp [phase, Phase.isInstalling])] at handler
  simp [bare] at handler

structure Process.Untouched (p : Process) : Prop where
  code : p.phase = .code
  native : ∀ n, (p.native n).mode ≠ .handler
  guest : ∀ n, (p.guestActions n).handler.isFunction = false
  owedPending : ∀ n, p.owedPending n = false
  owedPublished : ∀ n, p.owedPublished n = false

theorem Process.Untouched.inStep (untouched : p.Untouched) : p.InStep where
  slots n :=
    have bare : (p.target n).handler.isFunction = false := by
      rw [target_of_not_installing (by simp [untouched.code, Phase.isInstalling])]
      exact untouched.guest n
    { agrees := fun recording => absurd recording (untouched.native n)
      flags := fun recording => absurd recording (untouched.native n)
      fresh := fun _ recording => absurd recording (untouched.native n)
      once := fun oneShot => by simp [Process.slot, SigAction.OneShot, bare] at oneShot
      owed := by simp [Process.slot, untouched.owedPending, untouched.owedPublished]
      owedPending := by simp [Process.slot, untouched.owedPending]
      owedPublished := by simp [Process.slot, untouched.owedPublished] }
  apart n a previous := by simp [untouched.code]

/-- Whatever the guest does and whenever signals are delivered, the two sides agree exactly as
long as no step breaks the agreement. If the guest is careful, none does, and the dispatcher
drops no signal whose handler the guest did not give up. -/
theorem dispositions_agree_iff (first : Process) (untouched : first.Untouched) (moves : List Move) :
    (Always Process.step Process.Agrees first moves ↔
      Permits Process.step (fun p m => ¬p.Breaks m) first moves) ∧
    (Permits Process.step Process.Careful first moves →
      Always Process.step (fun p => p.Agrees ∧ ∀ n, ¬p.Loses n) first moves) := by
  refine ⟨⟨fun always => ?_, fun permits => ?_⟩, fun careful => ?_⟩
  · exact always.permits fun p m _ agrees breaks => not_agrees_of_breaks breaks agrees
  · have slots : Always Process.step (fun p => ∀ n, (p.slot n).Agrees) first moves :=
      permits.always (fun p m fine agrees n => step_agrees p m fine n (agrees n))
        fun n => (untouched.inStep.slots n).agrees
    exact slots.imp fun p agrees => agrees_of_slots agrees
  · have inStep : Always Process.step Process.InStep first moves :=
      careful.always step_inStep untouched.inStep
    exact inStep.imp fun p inStep =>
      ⟨agrees_of_slots fun n => (inStep.slots n).agrees, not_loses_of_inStep inStep⟩

theorem fresh_untouched : Process.fresh.Untouched where
  code := rfl
  native _ := Mode.noConfusion
  guest _ := rfl
  owedPending _ := rfl
  owedPublished _ := rfl

/-- `sigaction` with a one-shot handler for `SIGUSR1`. -/
def installOneShot : List Move :=
  [.act (.sigaction 10 (some ⟨.function 1, fun _ => false, 4⟩) .null), .resume none]

/-- One `SIGUSR1` is handled. -/
theorem oneShot_agrees :
    Always Process.step (fun p => p.Agrees ∧ ∀ n, ¬p.Loses n) Process.fresh
      (installOneShot ++ .deliver usr1 :: bridgeMoves 10) := by
  apply (dispositions_agree_iff Process.fresh fresh_untouched _).2
  refine ⟨?_, permits_of_forall ?_⟩
  · rintro number a old ⟨rfl⟩
    exact ⟨OldPointer.noConfusion, fun _ n _ => ⟨rfl, rfl⟩⟩
  · intro m member p number a old same
    subst same
    simp [bridgeMoves] at member

/-- The handler is installed again between the delivery and the dispatch. -/
def reinstalled : List Move :=
  installOneShot ++ .deliver usr1 :: (installOneShot ++ bridgeMoves 10)

/-- The handler returns, and a second `SIGUSR1` is delivered. -/
def secondSignal : List Move :=
  .act .handlerReturn :: List.replicate 55 .scan ++ .deliver usr1 :: bridgeMoves 9

/-- Linux still records the signal and the guest has no handler any more, so that the
dispatcher drops the next one. -/
theorem reinstalled_loses_next :
    ¬(run Process.step Process.fresh reinstalled).Agrees ∧
      (run Process.step (run Process.step Process.fresh reinstalled) secondSignal).Loses usr1 := by
  constructor
  · intro agrees
    have handler := agrees (by decide +kernel) usr1 (by decide +kernel)
    revert handler
    decide +kernel
  · exact ⟨⟨Phase.exists_polling (by decide +kernel), by decide +kernel, by decide +kernel, by decide +kernel⟩,
      by decide +kernel, by decide +kernel⟩

end LashOs.Signals
