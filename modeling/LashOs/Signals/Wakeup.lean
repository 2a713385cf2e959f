import LashOs.Base.Run
import LashOs.Signals.Machine

/-!
# No lost wakeup

What holds at each instruction of a blocking call, whatever is delivered around it: no
recorded signal disappears, and none that could wake the call is overlooked.
-/
namespace LashOs.Signals

open Base

variable {m : Machine} {caller : NativeMask}

def Queues.Quiet (q : Queues) : Prop := q.signals.frames = [] ∧ q.signals.mask = blockable

theorem Queues.blockAll_quiet (q : Queues) (idle : q.signals.frames = []) : q.blockAll.Quiet := by
  refine ⟨idle, ?_⟩
  funext n
  simp only [Queues.blockAll, Queues.setMask, installed, sigfillset, blockable]
  cases reserved n <;> simp

def Queues.NoPending (q : Queues) : Prop := ∀ n, q.pending n = false

/-- No published signal could wake the call. -/
def Machine.Clear (m : Machine) (caller : NativeMask) : Prop :=
  ∀ n, m.published n = true → m.call.effective caller.1 n = true

/-- A signal recorded since the flag was reset has set it, or its handler still will. -/
def Machine.Noticed (m : Machine) : Prop :=
  m.NoPending ∨ m.interrupted = true ∨
    ∃ f ∈ m.signals.frames, f.stage = .record ∨ f.stage = .test ∨ f.stage = .flag

/-- A signal recorded since the flag was read is still being handled: the outermost handler
has not come to the program counter yet, and that is inside the window. -/
def Machine.Caught (m : Machine) : Prop :=
  m.signals.frames = [] ∧ m.NoPending ∨
    ∃ f, m.signals.frames.getLast? = some f ∧ f.stage ≠ .done

/-- What holds at an instruction of `publish_signals`, if everything was blocked before. -/
def PublishFacts (m : Machine) : Publish → Prop
  | .block => True
  | .test i => m.inner = blockable ∧ ∀ j, j.val < i → m.pending j = false
  | .merge i => m.inner = blockable ∧ ∀ j, j.val < i.val → m.pending j = false
  | .clear i =>
    m.inner = blockable ∧ m.published i = true ∧ ∀ j, j.val < i.val → m.pending j = false
  | .restore => m.inner = blockable ∧ m.NoPending

def Facts (caller : NativeMask) (m : Machine) : Pc → Prop
  | .start => m.signals.base = caller.1 ∧ m.active = false
  | .zero => m.signals.base = caller.1
  | .block => m.signals.base = caller.1 ∧ m.active = false
  | .publish .check stage =>
    m.previous = caller.1 ∧ m.Quiet ∧ m.active = false ∧ PublishFacts m stage
  | .publish .restore stage =>
    m.previous = caller.1 ∧ match stage with
      | .clear i => m.published i = true
      | _ => True
  | .check => m.previous = caller.1 ∧ m.Quiet ∧ m.NoPending
  | .reset => m.previous = caller.1 ∧ m.Quiet ∧ m.NoPending ∧ m.Clear caller
  | .arm => m.previous = caller.1 ∧ m.Quiet ∧ m.NoPending ∧ m.Clear caller
  | .unmask =>
    m.previous = caller.1 ∧ m.Quiet ∧ m.NoPending ∧ m.Clear caller ∧ m.active = true
  | .enter => m.previous = caller.1 ∧ m.Clear caller ∧ m.active = true ∧ m.Noticed
  | .begin_ => m.previous = caller.1 ∧ m.Clear caller ∧ m.active = true ∧ m.Noticed
  | .branch true => m.previous = caller.1
  | .branch false => m.previous = caller.1 ∧ m.Clear caller ∧ m.active = true ∧ m.Caught
  | .syscall => m.previous = caller.1 ∧ m.Clear caller ∧ m.active = true ∧ m.Caught
  | .kernel =>
    m.previous = caller.1 ∧ m.Clear caller ∧ m.active = true ∧ m.signals.frames = []
  | .end_ => m.previous = caller.1
  | .cancel => m.previous = caller.1
  | .leave => m.previous = caller.1
  | .wait => m.previous = caller.1 ∧ m.Quiet ∧ m.NoPending ∧ m.Clear caller
  | .waiting => m.previous = caller.1 ∧ m.signals.frames = []
  | .restore => m.previous = caller.1
  | .returned => m.signals.base = caller.1

structure Good (caller : NativeMask) (m : Machine) : Prop where
  kept : ∀ n, m.recorded n = true → m.pending n = true ∨ m.published n = true
  facts : Facts caller m m.pc

variable {m' : Machine}

theorem Good.of_facts (good : Good caller m) (recorded : m'.recorded = m.recorded)
    (pending : m'.pending = m.pending) (published : m'.published = m.published)
    (facts : Facts caller m' m'.pc) : Good caller m' :=
  ⟨by rw [recorded, pending, published]; exact good.kept, facts⟩

/-! ### Instructions of the call -/

theorem Facts.afterWait (call : Call) (previous : m'.previous = caller.1) :
    Facts caller m' call.afterWait := by
  cases call with
  | transfer => exact ⟨previous, trivial⟩
  | suspend => exact previous
  | poll => exact ⟨previous, trivial⟩

theorem Facts.onClear (call : Call) (previous : m'.previous = caller.1) (quiet : m'.Quiet)
    (none : m'.NoPending) (clear : m'.Clear caller) : Facts caller m' call.onClear := by
  cases call with
  | transfer => exact ⟨previous, quiet, none, clear⟩
  | suspend => exact ⟨previous, quiet, none, clear⟩
  | poll => exact ⟨previous, quiet, none, clear⟩

theorem Machine.clear_of_check (m : Machine) (previous : m.previous = caller.1)
    (passed : ¬∃ n, m.published n = true ∧ m.checked n = false) : m.Clear caller := by
  intro n published
  have checked : m.checked n = true := by
    by_contra missed
    exact passed ⟨n, published, by simpa using missed⟩
  unfold Machine.checked at checked
  unfold Call.effective
  cases call : m.call with
  | transfer count => rw [call] at checked; simpa [packSignalMask, previous] using checked
  | suspend mask => rw [call] at checked; exact checked
  | poll count mask =>
    cases mask with
    | none => rw [call] at checked; simpa [packSignalMask, previous] using checked
    | some mask =>
      rw [call] at checked
      simp only [packSignalMask, unpackSignalMask, Bool.and_eq_true] at checked
      exact checked.1

/-- The loop of `publish_signals` clears one pending signal after the other; each is
published before. -/
theorem publishStep_check (good : Good caller m) (stage : Publish)
    (at_ : m.pc = .publish .check stage) : Good caller (publishStep m .check stage) := by
  have facts := good.facts
  rw [at_] at facts
  obtain ⟨previous, quiet, idle, progress⟩ := facts
  -- Nothing is pending below the position of the loop, which moves on behind a cleared signal.
  cases stage with
  | block =>
    refine good.of_facts rfl rfl rfl ⟨previous, m.blockAll_quiet quiet.1, idle, quiet.2, ?_⟩
    intro j small
    exact absurd small (Nat.not_lt_zero _)
  | test i =>
    obtain ⟨inner, done⟩ := progress
    by_cases inside : i < 64
    · rw [publishStep_inside m .check inside]
      split
      · exact good.of_facts rfl rfl rfl ⟨previous, quiet, idle, inner, done⟩
      next clear =>
        refine good.of_facts rfl rfl rfl ⟨previous, quiet, idle, inner, ?_⟩
        intro j small
        rcases Nat.lt_succ_iff_lt_or_eq.mp small with before | here
        · exact done j before
        · have same : j = ⟨i, inside⟩ := Fin.ext here
          rw [same]
          simpa using clear
    · rw [publishStep_outside m .check inside]
      refine good.of_facts rfl rfl rfl ⟨previous, quiet, idle, inner, ?_⟩
      intro j
      exact done j (by omega)
  | merge i =>
    obtain ⟨inner, done⟩ := progress
    refine ⟨fun n recorded => publishStep_holds m .check (.merge i) trivial n (good.kept n recorded),
      previous, quiet, idle, inner, ?_, done⟩
    simp [publishStep, publishSignals]
  | clear i =>
    obtain ⟨inner, published, done⟩ := progress
    refine ⟨fun n recorded => publishStep_holds m .check (.clear i) published n (good.kept n recorded),
      previous, quiet, idle, inner, ?_⟩
    intro j small
    rcases Nat.lt_succ_iff_lt_or_eq.mp small with before | here
    · have other : j ≠ i := fun same => by rw [same] at before; exact Nat.lt_irrefl _ before
      simpa [publishStep, publishSignals, other] using done j before
    · have same : j = i := Fin.ext here
      simp [publishStep, publishSignals, same]
  | restore =>
    obtain ⟨inner, none⟩ := progress
    refine good.of_facts rfl rfl rfl ⟨previous, ?_, none⟩
    refine ⟨quiet.1, ?_⟩
    funext n
    simp [publishStep, publishSignals, Queues.setMask, installed, inner]

theorem publishStep_restore (good : Good caller m) (stage : Publish)
    (at_ : m.pc = .publish .restore stage) : Good caller (publishStep m .restore stage) := by
  have facts := good.facts
  rw [at_] at facts
  obtain ⟨previous, progress⟩ := facts
  cases stage with
  | block => exact good.of_facts rfl rfl rfl ⟨previous, trivial⟩
  | test i =>
    by_cases inside : i < 64
    · rw [publishStep_inside m .restore inside]
      split
      · exact good.of_facts rfl rfl rfl ⟨previous, trivial⟩
      · exact good.of_facts rfl rfl rfl ⟨previous, trivial⟩
    · rw [publishStep_outside m .restore inside]
      exact good.of_facts rfl rfl rfl ⟨previous, trivial⟩
  | merge i =>
    refine ⟨fun n recorded => publishStep_holds m .restore (.merge i) trivial n (good.kept n recorded),
      previous, ?_⟩
    simp [publishStep, publishSignals]
  | clear i =>
    exact ⟨fun n recorded => publishStep_holds m .restore (.clear i) progress n (good.kept n recorded),
      previous, trivial⟩
  | restore => exact good.of_facts rfl rfl rfl previous

theorem Machine.setMask_caller (m : Machine) (previous : m.previous = caller.1) :
    (m.setMask m.previous).signals.mask = caller.1 := by
  rw [previous]
  exact caller.2

theorem mainStep_good (good : Good caller m) (idle : m.signals.frames = []) (result : Int) :
    Good caller (mainStep m result) := by
  have facts := good.facts
  unfold mainStep
  cases pc : m.pc <;> rw [pc] at facts <;> simp only
  case start =>
    cases m.call with
    | transfer count =>
      refine good.of_facts rfl rfl rfl ?_
      dsimp only
      split
      · exact facts.1
      · exact facts
    | suspend mask => exact good.of_facts rfl rfl rfl facts
    | poll count mask =>
      dsimp only
      split
      · exact good.of_facts rfl rfl rfl facts.1
      · exact good.of_facts rfl rfl rfl facts
  case zero => exact good.of_facts rfl rfl rfl facts
  case block =>
    have mask : m.signals.mask = caller.1 := (m.signals.base_idle idle).symm.trans facts.1
    exact good.of_facts rfl rfl rfl ⟨mask, m.blockAll_quiet idle, facts.2, trivial⟩
  case publish after stage =>
    cases after with
    | check => exact publishStep_check good stage pc
    | restore => exact publishStep_restore good stage pc
  case check =>
    obtain ⟨previous, quiet, none⟩ := facts
    split
    · exact good.of_facts rfl rfl rfl (Facts.afterWait _ previous)
    next passed =>
      have clear := m.clear_of_check previous passed
      exact good.of_facts rfl rfl rfl (Facts.onClear _ previous quiet none clear)
  case reset => exact good.of_facts rfl rfl rfl facts
  case arm =>
    obtain ⟨previous, quiet, none, clear⟩ := facts
    exact good.of_facts rfl rfl rfl ⟨previous, quiet, none, clear, rfl⟩
  case unmask =>
    obtain ⟨previous, quiet, none, clear, active⟩ := facts
    exact good.of_facts rfl rfl rfl ⟨previous, clear, active, Or.inl none⟩
  case enter => exact good.of_facts rfl rfl rfl facts
  case begin_ =>
    obtain ⟨previous, clear, active, noticed⟩ := facts
    refine good.of_facts rfl rfl rfl ?_
    cases read : m.interrupted with
    | true => exact previous
    | false =>
      -- No handler runs, so what was recorded has set the flag that was just read.
      refine ⟨previous, clear, active, Or.inl ⟨idle, ?_⟩⟩
      rcases noticed with none | flagged | ⟨f, member, -⟩
      · exact none
      · rw [read] at flagged; cases flagged
      · rw [idle] at member; cases member
  case branch interrupted =>
    refine good.of_facts rfl rfl rfl ?_
    cases interrupted with
    | true => exact facts
    | false => exact facts
  case syscall =>
    obtain ⟨previous, clear, active, -⟩ := facts
    exact good.of_facts rfl rfl rfl ⟨previous, clear, active, idle⟩
  case kernel => exact good.of_facts rfl rfl rfl facts.1
  case end_ => exact good.of_facts rfl rfl rfl facts
  case cancel => exact good.of_facts rfl rfl rfl facts
  case leave => exact good.of_facts rfl rfl rfl ⟨facts, trivial⟩
  case wait => exact good.of_facts rfl rfl rfl ⟨facts.1, idle⟩
  case waiting =>
    cases call : m.call with
    | transfer => exact good
    | suspend => exact good
    | poll count mask =>
      exact good.of_facts rfl rfl rfl (Facts.afterWait (.poll count mask) facts.1)
  case restore =>
    refine good.of_facts rfl rfl rfl ?_
    exact ((m.setMask m.previous).signals.base_idle idle).trans (m.setMask_caller facts)
  case returned => exact good

/-! ### Handlers and deliveries -/

/-- What a handler or a delivery can change leaves the facts of the call alone, given what
it does to the two conditions about handlers. -/
theorem Facts.around {pc : Pc} (facts : Facts caller m pc) (loud : ¬m.Quiet)
    (outside : m.signals.frames = [] → pc ≠ .kernel ∧ pc ≠ .waiting) (call : m'.call = m.call)
    (previous : m'.previous = m.previous) (published : m'.published = m.published)
    (active : m'.active = m.active) (base : m'.signals.base = m.signals.base)
    (noticed : m.active = true → m.Noticed → m'.Noticed)
    (caught : pc.inWindow = true → m.active = true → m.Caught → m'.Caught) :
    Facts caller m' pc := by
  have clear : m.Clear caller → m'.Clear caller := by
    unfold Machine.Clear
    rw [call, published]
    exact id
  have same {P : Prop} (old : m.previous = caller.1 ∧ P) : m'.previous = caller.1 :=
    previous.trans old.1
  -- No handler runs where everything is blocked, so these cases are void.
  cases pc with
  | start => exact ⟨base.trans facts.1, active.trans facts.2⟩
  | zero => exact base.trans facts
  | block => exact ⟨base.trans facts.1, active.trans facts.2⟩
  | publish after stage =>
    cases after with
    | check => exact absurd facts.2.1 loud
    | restore =>
      refine ⟨same facts, ?_⟩
      cases stage with
      | clear i => exact (congrFun published i).trans facts.2
      | _ => trivial
  | check => exact absurd facts.2.1 loud
  | reset => exact absurd facts.2.1 loud
  | arm => exact absurd facts.2.1 loud
  | unmask => exact absurd facts.2.1 loud
  | wait => exact absurd facts.2.1 loud
  | enter =>
    exact ⟨same facts, clear facts.2.1, active.trans facts.2.2.1, noticed facts.2.2.1 facts.2.2.2⟩
  | begin_ =>
    exact ⟨same facts, clear facts.2.1, active.trans facts.2.2.1, noticed facts.2.2.1 facts.2.2.2⟩
  | branch interrupted =>
    cases interrupted with
    | true => exact previous.trans facts
    | false =>
      exact ⟨same facts, clear facts.2.1, active.trans facts.2.2.1, caught rfl facts.2.2.1 facts.2.2.2⟩
  | syscall =>
    exact ⟨same facts, clear facts.2.1, active.trans facts.2.2.1, caught rfl facts.2.2.1 facts.2.2.2⟩
  | kernel => exact absurd rfl (outside facts.2.2.2).1
  | waiting => exact absurd rfl (outside facts.2).2
  | end_ => exact previous.trans facts
  | cancel => exact previous.trans facts
  | leave => exact previous.trans facts
  | restore => exact previous.trans facts
  | returned => exact base.trans facts

theorem Facts.cancel {pc : Pc} (facts : Facts caller m pc) (inside : pc.inWindow = true) :
    m.previous = caller.1 := by
  cases pc with
  | begin_ => exact facts.1
  | branch interrupted =>
    cases interrupted with
    | true => exact facts
    | false => exact facts.1
  | syscall => exact facts.1
  | _ => cases inside

variable {f : HandlerFrame Signal Stage} {rest : List (HandlerFrame Signal Stage)}

private theorem advance_frames (running : m.signals.frames = f :: rest) (stage : Stage) :
    (m.signals.advance stage).frames = { f with stage } :: rest := by
  simp [SignalState.advance, running]

private theorem caught_advance (running : m.signals.frames = f :: rest) (stage : Stage)
    (signals : m'.signals = m.signals.advance stage) (onward : stage ≠ .done ∨ rest ≠ [])
    (caught : m.Caught) : m'.Caught := by
  right
  rw [signals, advance_frames running]
  rcases caught with ⟨idle, -⟩ | ⟨g, last, unfinished⟩
  · rw [running] at idle; cases idle
  · cases rest with
    | nil =>
      refine ⟨{ f with stage }, rfl, ?_⟩
      exact onward.resolve_right (by simp)
    | cons h rest =>
      rw [running] at last
      exact ⟨g, by simpa using last, unfinished⟩

theorem Machine.Noticed.of_rest (noticed : m.Noticed) (running : m.signals.frames = f :: rest)
    (late : ¬ (f.stage = .record ∨ f.stage = .test ∨ f.stage = .flag))
    (pending : m'.NoPending = m.NoPending) (interrupted : m'.interrupted = m.interrupted)
    (kept : ∀ g ∈ rest, g ∈ m'.signals.frames) : m'.Noticed := by
  rcases noticed with none | flagged | ⟨g, member, early⟩
  · exact Or.inl (pending ▸ none)
  · exact Or.inr (Or.inl (interrupted ▸ flagged))
  · rw [running] at member
    rcases List.mem_cons.mp member with rfl | outer
    · exact absurd early late
    · exact Or.inr (Or.inr ⟨g, kept g outer, early⟩)

/-- One instruction of a handler. -/
theorem handlerStep_good (good : Good caller m) (running : m.signals.frames = f :: rest) :
    Good caller (handlerStep m f (!rest.isEmpty)) := by
  have loud : ¬m.Quiet := by
    rintro ⟨idle, -⟩
    rw [running] at idle; cases idle
  have outside : m.signals.frames = [] → m.pc ≠ .kernel ∧ m.pc ≠ .waiting := by
    intro idle
    rw [running] at idle; cases idle
  unfold handlerStep
  cases stage : f.stage <;> simp only
  case record =>
    refine ⟨?_, good.facts.around loud outside rfl rfl rfl rfl (m.signals.base_advance _) ?_ ?_⟩
    · intro n recorded
      by_cases same : n = f.signal
      · simp [same]
      · simpa [same] using good.kept n (by simpa [same] using recorded)
    · intro _ _
      refine Or.inr (Or.inr ⟨{ f with stage := .test }, ?_, Or.inr (Or.inl rfl)⟩)
      simp [advance_frames running]
    · intro _ _
      exact caught_advance running .test rfl (Or.inl (by simp))
  case test =>
    refine good.of_facts rfl rfl rfl
      (good.facts.around loud outside rfl rfl rfl rfl (m.signals.base_advance _) ?_ ?_)
    · intro active _
      refine Or.inr (Or.inr ⟨{ f with stage := .flag }, ?_, Or.inr (Or.inr rfl)⟩)
      simp [active, advance_frames running]
    · intro _ active
      exact caught_advance running .flag (by simp [active]) (Or.inl (by simp))
  case flag =>
    refine good.of_facts rfl rfl rfl
      (good.facts.around loud outside rfl rfl rfl rfl (m.signals.base_advance _) ?_ ?_)
    · intro _ _
      exact Or.inr (Or.inl rfl)
    · intro _ _
      exact caught_advance running .redirect rfl (Or.inl (by simp))
  case redirect =>
    by_cases redirected : (!(!rest.isEmpty) && m.pc.inWindow) = true
    · refine good.of_facts rfl rfl rfl ?_
      simp only [redirected, if_true]
      exact good.facts.cancel (Bool.and_eq_true_iff.mp redirected).2
    · -- Either a handler was interrupted, or the call outside the window.
      simp only [redirected]
      refine good.of_facts rfl rfl rfl
        (good.facts.around loud outside rfl rfl rfl rfl (m.signals.base_advance _) ?_ ?_)
      · intro _ noticed
        refine noticed.of_rest running (by simp [stage]) rfl rfl fun g outer => ?_
        simp [advance_frames running, outer]
      · intro inside _
        refine caught_advance running .done rfl (Or.inr ?_)
        rintro rfl
        exact redirected (by simp [inside])
  case done =>
    have popped : m.signals.pop.frames = rest := by simp [SignalState.pop, running]
    refine good.of_facts rfl rfl rfl
      (good.facts.around loud outside rfl rfl rfl rfl m.signals.base_pop ?_ ?_)
    · intro _ noticed
      refine noticed.of_rest running (by simp [stage]) rfl rfl fun g outer => ?_
      simpa [popped] using outer
    · intro _ _ caught
      rcases caught with ⟨idle, -⟩ | ⟨g, last, unfinished⟩
      · rw [running] at idle; cases idle
      · refine Or.inr ⟨g, ?_, unfinished⟩
        rw [running] at last
        cases rest with
        | nil =>
          simp only [List.getLast?_singleton, Option.some.injEq] at last
          exact absurd (last ▸ stage) unfinished
        | cons h rest => simpa [popped] using last

theorem deliver_good (good : Good caller m) (n : Signal) (held : SigSet) (resume : Resume) :
    Good caller (deliver m n held resume) := by
  unfold deliver
  split
  · exact good
  next unblocked =>
    rw [not_or] at unblocked
    obtain ⟨handled, open_⟩ := unblocked
    have loud : ¬m.Quiet := by
      rintro ⟨-, mask⟩
      rw [mask] at open_
      simp [open_] at handled
    have facts := good.facts
    unfold interruptedCall
    cases pc : m.pc with
    | kernel =>
      rw [pc] at facts
      obtain ⟨previous, clear, active, idle⟩ := facts
      cases resume with
      | completed result => exact good.of_facts rfl rfl rfl previous
      | interrupted => exact good.of_facts rfl rfl rfl previous
      | restarted =>
        -- The context is at the system call, so the handler will redirect it.
        refine good.of_facts rfl rfl rfl ⟨previous, clear, active, Or.inr ?_⟩
        refine ⟨⟨n, .record, m.signals.mask⟩, ?_, by simp⟩
        simp [SignalState.push, idle]
    | waiting =>
      rw [pc] at facts
      exact good.of_facts rfl rfl rfl (Facts.afterWait _ facts.1)
    | _ =>
      refine good.of_facts rfl rfl rfl (good.facts.around loud (by simp [pc]) rfl rfl rfl rfl
        (m.signals.base_push n .record held) ?_ ?_)
      · intro _ _
        exact Or.inr (Or.inr ⟨_, List.mem_cons_self, Or.inl rfl⟩)
      · intro _ _ caught
        right
        rcases caught with ⟨idle, -⟩ | ⟨g, last, unfinished⟩
        · exact ⟨⟨n, .record, m.signals.mask⟩, by simp [SignalState.push, idle], by simp⟩
        · refine ⟨g, ?_, unfinished⟩
          simp [SignalState.push, List.getLast?_cons, last]

theorem Machine.step_good (good : Good caller m) (choice : Choice) : Good caller (m.step choice) := by
  unfold Machine.step
  cases choice with
  | run result =>
    cases running : m.signals.frames with
    | nil => exact mainStep_good good running result
    | cons f rest => exact handlerStep_good good running
  | deliver n held resume => exact deliver_good good n held resume

theorem Machine.step_call (m : Machine) (choice : Choice) : (m.step choice).call = m.call := by
  unfold Machine.step
  cases choice with
  | run result =>
    cases m.signals.frames with
    | nil =>
      simp only [mainStep, publishStep]
      repeat' split
      all_goals rfl
    | cons f rest =>
      simp only [handlerStep]
      split <;> rfl
  | deliver n held resume =>
    simp only [Signals.deliver, interruptedCall]
    repeat' split
    all_goals rfl

theorem run_good (call : Call) (caller : NativeMask) (pending published : SigSet)
    (interrupted : Bool) (choices : List Choice) :
    Good caller (run Machine.step (Machine.start call caller pending published interrupted) choices) ∧
      (run Machine.step (Machine.start call caller pending published interrupted) choices).call =
        call := by
  refine run_invariant Machine.step (fun _ => True) (fun m => Good caller m ∧ m.call = call)
    ?_ choices (fun _ _ => trivial) _ ⟨⟨?_, rfl, rfl⟩, rfl⟩
  · intro m choice _ holds
    exact ⟨m.step_good holds.1 choice, (m.step_call choice).trans holds.2⟩
  · intro n recorded
    simpa [Machine.start] using recorded

theorem Good.none_waiting (good : Good caller m) (about : m.AboutToBlock) (n : Signal)
    (unmasked : m.call.effective caller.1 n = false) :
    m.pending n = false ∧ m.published n = false := by
  have facts := good.facts
  obtain ⟨idle, entry⟩ := about
  obtain ⟨none, clear⟩ : m.NoPending ∧ m.Clear caller := by
    rcases entry with at_ | at_ <;> rw [at_] at facts
    · rcases facts.2.2.2 with ⟨-, none⟩ | ⟨f, last, -⟩
      · exact ⟨none, facts.2.1⟩
      · rw [idle] at last; cases last
    · exact ⟨facts.2.2.1, facts.2.2.2⟩
  refine ⟨none n, ?_⟩
  by_contra found
  have masked := clear n (by simpa using found)
  rw [unmasked] at masked
  cases masked

/-- Whatever is delivered at whatever instruction: the call enters a system call that may
wait only if no signal that could wake it has been recorded or published; no signal
recorded before or during the call is lost; and the caller's mask is back when it returns
and the handlers that still run have returned. -/
theorem no_lost_wakeup (call : Call) (caller : NativeMask) (pending published : SigSet)
    (interrupted : Bool) (choices : List Choice) :
    let m := run Machine.step (Machine.start call caller pending published interrupted) choices
    (m.AboutToBlock → ∀ n, call.effective caller.1 n = false →
      m.pending n = false ∧ m.published n = false) ∧
    (∀ n, m.recorded n = true → m.pending n = true ∨ m.published n = true) ∧
    (m.pc = .returned → m.signals.base = caller.1) := by
  intro m
  obtain ⟨good, sameCall⟩ : Good caller m ∧ m.call = call :=
    run_good call caller pending published interrupted choices
  refine ⟨?_, good.kept, ?_⟩
  · intro about n unmasked
    exact good.none_waiting about n (sameCall ▸ unmasked)
  · intro returned
    have facts := good.facts
    rw [returned] at facts
    exact facts

/-- `SIGUSR1` arrives when the system call instruction of a transfer is next. -/
def lateSignal : List Choice :=
  List.replicate 76 (.run 0) ++ .deliver usr1 (fun _ => false) .restarted :: List.replicate 80 (.run 0)

def lateTransfer : Machine :=
  run Machine.step (.start (.transfer 1) emptyMask (fun _ => false) (fun _ => false) false) lateSignal

theorem lateTransfer_kept :
    lateTransfer.rc = eintr ∧ lateTransfer.completed = [] ∧
    (lateTransfer.pending 9 = true ∨ lateTransfer.published 9 = true) ∧
    lateTransfer.signals.base = emptyMask.1 := by
  have runs : lateTransfer.rc = eintr ∧ lateTransfer.completed = [] ∧
      lateTransfer.recorded 9 = true ∧ lateTransfer.pc = .returned := by
    decide +kernel
  have safe := no_lost_wakeup (.transfer 1) emptyMask (fun _ => false) (fun _ => false) false
    lateSignal
  have same : run Machine.step (.start (.transfer 1) emptyMask (fun _ => false) (fun _ => false)
      false) lateSignal = lateTransfer := rfl
  simp only [same] at safe
  obtain ⟨-, kept, restored⟩ := safe
  exact ⟨runs.1, runs.2.1, kept 9 runs.2.2.1, restored runs.2.2.2⟩

end LashOs.Signals
