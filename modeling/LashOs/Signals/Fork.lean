import LashOs.Base.Run
import LashOs.Signals.Machine

/-!
# Signals and fork

The child of `fork_process` from the native fork until the guest resumes, one instruction at
a time. It starts with a copy of what the parent had recorded, reloads the image, clears
`pending_signals[]` and the mailbox, answers the guest and publishes. Any signal that is not
blocked may be delivered in between.

`delivered`, `early` and `late` record history. A signal is `late` if it was recorded since
its slot was last cleared, and `early` if it was recorded before that.
-/
namespace LashOs.Signals

open Base

/-- `memset` writes the array in an order and a width of its own: each store clears some of
the slots, and every slot is cleared. -/
structure Memset where
  stores : List SigSet
  covers : ∀ n, ∃ store ∈ stores, store n = true

inductive ForkPc where
  -- Inside `restore_process`.
  | reload (left : Nat)
  | memset (left : List SigSet)
  -- `c->pending_signals = 0`
  | forget
  -- The response is stored, and the loop starts again.
  | answer
  | publish (stage : Publish)
  -- The guest is entered.
  | resume
  -- `_exit(125)` after a failed `restore_process`.
  | exited

def ForkPc.isResume : ForkPc → Bool
  | .resume => true
  | _ => false

theorem ForkPc.eq_resume {pc : ForkPc} (resumed : pc.isResume = true) : pc = .resume := by
  cases pc with
  | resume => rfl
  | _ => simp [ForkPc.isResume] at resumed

structure Child extends Queues where
  pc : ForkPc
  delivered : SigSet
  early : SigSet
  late : SigSet

/-- What the child goes on with: the mailbox's `pending_signals` as `save_process` found it,
and how `pending_signals[]` is cleared. -/
structure Image where
  saved : SigSet
  memset : Memset

def Child.start (mask : NativeMask) (pending published : SigSet) (reload : Nat) : Child :=
  { signals := ⟨mask.1, []⟩, pending, published, inner := fun _ => false, pc := .reload reload,
    delivered := fun _ => false, early := fun _ => false, late := fun _ => false }

def Child.clear (c : Child) (store : SigSet) : Child :=
  { c with
    pending := fun n => c.pending n && !store n
    early := fun n => c.early n || (store n && c.late n)
    late := fun n => c.late n && !store n }

/-- One instruction of the main loop; `restored` is the outcome of `restore_process`. -/
def Child.mainStep (image : Image) (c : Child) (restored : Bool) : Child :=
  match c.pc with
  | .reload (left + 1) => { c with pc := .reload left }
  | .reload 0 =>
    if restored then { c with published := image.saved, pc := .memset image.memset.stores }
    else { c with pc := .exited }
  | .memset (store :: left) => { c.clear store with pc := .memset left }
  | .memset [] => { c with pc := .forget }
  | .forget => { c with published := fun _ => false, pc := .answer }
  | .answer => { c with pc := .publish .block }
  | .publish stage =>
    match publishSignals c.toQueues stage with
    | (q, some next) => { c with toQueues := q, pc := .publish next }
    | (q, none) => { c with toQueues := q, pc := .resume }
  | .resume => c
  | .exited => c

/-- One instruction of a handler. `interrupt_signal_io` returns at once, since
`signal_io_active` is clear outside of a transfer. -/
def Child.handlerStep (c : Child) (f : HandlerFrame Signal Stage) : Child :=
  match f.stage with
  | .record =>
    { c with
      pending := Function.update c.pending f.signal true
      delivered := Function.update c.delivered f.signal true
      late := Function.update c.late f.signal true
      signals := c.signals.advance .done }
  | _ => { c with signals := c.signals.pop }

def Child.deliver (c : Child) (n : Signal) (held : SigSet) : Child :=
  if blockable n = false ∨ c.signals.mask n = true then c
  else { c with signals := c.signals.push n .record held c.signals.mask }

inductive ForkChoice where
  | run (restored : Bool)
  | deliver (n : Signal) (held : SigSet)

def Child.step (image : Image) (c : Child) : ForkChoice → Child
  | .run restored =>
    match c.signals.frames with
    | [] => c.mainStep image restored
    | f :: _ => c.handlerStep f
  | .deliver n held => c.deliver n held

/-! ### What the clearing and the publishing leave -/

def Child.Left (c : Child) : ForkPc → Prop
  | .reload _ => True
  -- The slots that no later store clears are as they will be.
  | .memset left => ∀ n, (∀ store ∈ left, store n = false) → c.pending n = c.late n
  | .forget => ∀ n, c.pending n = c.late n
  | .answer => ∀ n, c.Holds n ↔ c.late n = true
  | .publish stage => (∀ n, c.Holds n ↔ c.late n = true) ∧ c.Ready stage
  | .resume => ∀ n, c.Holds n ↔ c.late n = true
  | .exited => True

structure Child.Sound (c : Child) : Prop where
  left : c.Left c.pc
  delivered : ∀ n, c.delivered n = true ↔ c.early n = true ∨ c.late n = true

theorem Child.publish_sound {c : Child} (sound : c.Sound) (image : Image) (restored : Bool)
    (stage : Publish) (at_ : c.pc = .publish stage) : (c.mainStep image restored).Sound := by
  have left := sound.left
  rw [at_] at left
  obtain ⟨held, ready⟩ := left
  have same := publishSignals_holds_iff c.toQueues stage ready
  have next := publishSignals_ready c.toQueues stage
  simp only [Child.mainStep, at_]
  split
  next q following result =>
    rw [result] at same next
    exact ⟨⟨fun n => (same n).trans (held n), next following rfl⟩, sound.delivered⟩
  next q result =>
    rw [result] at same
    exact ⟨fun n => (same n).trans (held n), sound.delivered⟩

theorem Child.clear_delivered {c : Child} (sound : c.Sound) (store : SigSet) (n : Signal) :
    c.delivered n = true ↔ (c.clear store).early n = true ∨ (c.clear store).late n = true := by
  rw [sound.delivered n]
  -- A cleared signal moves from `late` to `early`, so their union stays.
  simp only [Child.clear, Bool.or_eq_true, Bool.and_eq_true, Bool.not_eq_true']
  cases store n <;> simp

theorem Child.mainStep_sound {c : Child} (sound : c.Sound) (image : Image) (restored : Bool) :
    (c.mainStep image restored).Sound := by
  have left := sound.left
  cases pc : c.pc with
  | reload remaining =>
    cases remaining with
    | zero =>
      simp only [Child.mainStep, pc]
      split
      · constructor
        · intro n untouched
          -- Every slot is still to be cleared.
          obtain ⟨store, member, covered⟩ := image.memset.covers n
          simp [untouched store member] at covered
        · exact sound.delivered
      · exact ⟨trivial, sound.delivered⟩
    | succ remaining =>
      simp only [Child.mainStep, pc]
      exact ⟨trivial, sound.delivered⟩
  | memset remaining =>
    rw [pc] at left
    cases remaining with
    | nil =>
      simp only [Child.mainStep, pc]
      exact ⟨fun n => left n (by simp), sound.delivered⟩
    | cons store remaining =>
      simp only [Child.mainStep, pc]
      constructor
      · intro n untouched
        by_cases hit : store n = true
        · simp [Child.clear, hit]
        · have missed : store n = false := by simpa using hit
          simpa [Child.clear, missed] using left n (by simpa [missed] using untouched)
      · exact Child.clear_delivered sound store
  | forget =>
    rw [pc] at left
    simp only [Child.mainStep, pc]
    constructor
    · intro n
      simp [Queues.Holds, left n]
    · exact sound.delivered
  | answer =>
    rw [pc] at left
    simp only [Child.mainStep, pc]
    exact ⟨⟨left, trivial⟩, sound.delivered⟩
  | publish stage => exact Child.publish_sound sound image restored stage pc
  | resume =>
    simp only [Child.mainStep, pc]
    exact sound
  | exited =>
    simp only [Child.mainStep, pc]
    exact sound

/-- Recording a signal sets its slot, whatever is being cleared or published. -/
theorem Child.handlerStep_sound {c : Child} (sound : c.Sound) (f : HandlerFrame Signal Stage) :
    (c.handlerStep f).Sound := by
  have left := sound.left
  cases stage : f.stage with
  | record =>
    simp only [Child.handlerStep, stage]
    -- The signal becomes pending and counts as one that came late.
    have grows : ∀ n, (c.Holds n ↔ c.late n = true) →
        ((Function.update c.pending f.signal true n = true ∨ c.published n = true) ↔
          Function.update c.late f.signal true n = true) := by
      intro n held
      by_cases same : n = f.signal
      · simp [same]
      · simpa [same, Queues.Holds] using held
    have follows : ∀ n, c.pending n = c.late n →
        Function.update c.pending f.signal true n = Function.update c.late f.signal true n := by
      intro n held
      by_cases same : n = f.signal
      · simp [same]
      · simpa [same] using held
    constructor
    · cases pc : c.pc with
      | reload => trivial
      | exited => trivial
      | memset remaining =>
        rw [pc] at left
        exact fun n untouched => follows n (left n untouched)
      | forget =>
        rw [pc] at left
        exact fun n => follows n (left n)
      | answer =>
        rw [pc] at left
        exact fun n => grows n (left n)
      | resume =>
        rw [pc] at left
        exact fun n => grows n (left n)
      | publish stage =>
        rw [pc] at left
        exact ⟨fun n => grows n (left.1 n), left.2.record f.signal⟩
    · intro n
      by_cases same : n = f.signal
      · simp [same]
      · simpa [same] using sound.delivered n
  | test => simpa only [Child.handlerStep, stage] using ⟨left, sound.delivered⟩
  | flag => simpa only [Child.handlerStep, stage] using ⟨left, sound.delivered⟩
  | redirect => simpa only [Child.handlerStep, stage] using ⟨left, sound.delivered⟩
  | done => simpa only [Child.handlerStep, stage] using ⟨left, sound.delivered⟩

theorem Child.step_sound (image : Image) (c : Child) (choice : ForkChoice) (sound : c.Sound) :
    (c.step image choice).Sound := by
  cases choice with
  | run restored =>
    simp only [Child.step]
    split
    · exact Child.mainStep_sound sound image restored
    · exact Child.handlerStep_sound sound _
  | deliver n held =>
    simp only [Child.step, Child.deliver]
    split
    · exact sound
    · exact ⟨sound.left, sound.delivered⟩

/-- The child after the instructions and deliveries of one schedule. -/
def Child.run (image : Image) (mask : NativeMask) (pending published : SigSet) (reload : Nat)
    (choices : List ForkChoice) : Child :=
  Base.run (Child.step image) (Child.start mask pending published reload) choices

theorem Child.run_sound (image : Image) (mask : NativeMask) (pending published : SigSet)
    (reload : Nat) (choices : List ForkChoice) :
    (Child.run image mask pending published reload choices).Sound := by
  apply run_invariant (Child.step image) (fun _ => True) Child.Sound
  · exact fun c choice _ => Child.step_sound image c choice
  · exact fun _ _ => trivial
  · exact ⟨trivial, fun n => by simp [Child.start]⟩

/-- When the guest resumes in the child, nothing of the parent's is pending. What was
delivered to the child is pending, all of it, exactly if each signal that came before its
slot was cleared has come again since. -/
theorem fork_signals_kept_iff (image : Image) (mask : NativeMask) (pending published : SigSet)
    (reload : Nat) (choices : List ForkChoice)
    (resumed : (Child.run image mask pending published reload choices).pc = .resume) :
    let c := Child.run image mask pending published reload choices
    (∀ n, c.Holds n → c.delivered n = true) ∧
    ((∀ n, c.Holds n ↔ c.delivered n = true) ↔ ∀ n, c.early n = true → c.late n = true) := by
  intro c
  have sound : c.Sound := Child.run_sound image mask pending published reload choices
  have held : ∀ n, c.Holds n ↔ c.late n = true := by
    have left := sound.left
    rw [show c.pc = .resume from resumed] at left
    exact left
  constructor
  · intro n holds
    exact (sound.delivered n).mpr (Or.inr ((held n).mp holds))
  · constructor
    · intro exact_ n early
      exact (held n).mp ((exact_ n).mpr ((sound.delivered n).mpr (Or.inl early)))
    · intro again n
      rw [held n, sound.delivered n]
      constructor
      · exact Or.inr
      · rintro (early | late)
        · exact again n early
        · exact late

/-- An image without published signals, cleared by one store. -/
def plainImage : Image :=
  { saved := fun _ => false
    memset := ⟨[fun _ => true], fun _ => ⟨_, List.mem_singleton_self _, rfl⟩⟩ }

/-- A child whose parent had recorded `SIGHUP`. -/
def plainChild (choices : List ForkChoice) : Child :=
  Child.run plainImage emptyMask (fun n => n.val == 0) (fun _ => false) 1 choices

/-- `SIGTERM` is delivered, and its handler runs. -/
def sigterm : List ForkChoice := [.deliver ⟨14, by decide⟩ (fun _ => false), .run true, .run true]

/-- `SIGTERM` is delivered while `restore_process` runs. -/
def earlySchedule : List ForkChoice := sigterm ++ List.replicate 73 (.run true)

/-- `SIGTERM` is delivered while `restore_process` runs and again after the clearing. -/
def repeatedSchedule : List ForkChoice :=
  sigterm ++ List.replicate 5 (.run true) ++ sigterm ++ List.replicate 70 (.run true)

/-- A signal that comes once, while the image is reloaded, is not pending afterwards. -/
theorem earlySignal_lost :
    (plainChild earlySchedule).pc = .resume ∧ (plainChild earlySchedule).delivered 14 = true ∧
    ¬(plainChild earlySchedule).Holds 14 := by
  refine ⟨ForkPc.eq_resume (by decide +kernel), by decide +kernel, ?_⟩
  have none : (plainChild earlySchedule).pending 14 = false ∧
      (plainChild earlySchedule).published 14 = false := by decide +kernel
  simp [Queues.Holds, none]

/-- `SIGTERM` is kept, and the parent's `SIGHUP` is not. -/
theorem repeatedSignal_kept :
    (plainChild repeatedSchedule).Holds 14 ∧ ¬(plainChild repeatedSchedule).Holds 0 := by
  have again : ∀ n, (plainChild repeatedSchedule).early n = true →
      (plainChild repeatedSchedule).late n = true := by decide +kernel
  have resumed : (plainChild repeatedSchedule).pc = .resume :=
    ForkPc.eq_resume (by decide +kernel)
  have delivered : (plainChild repeatedSchedule).delivered 14 = true ∧
      (plainChild repeatedSchedule).delivered 0 = false := by decide +kernel
  unfold plainChild at resumed again delivered ⊢
  have kept := (fork_signals_kept_iff _ _ _ _ _ _ resumed).2.mpr again
  rw [kept 14, kept 0, delivered.1, delivered.2]
  exact ⟨rfl, Bool.false_ne_true⟩

end LashOs.Signals
