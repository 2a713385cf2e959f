import LashOs.Console.GuestInput

/-!
# Input integrity

The launcher's and the guest's side joined: what reaches the shell's input is what the
launcher read, in every run.
-/
namespace LashOs.Console

open Base

/-- The invariant of the input direction. `later` are the bytes of the launcher's frames
that are not on the channel yet, or never will be. -/
structure InputInv (terminal : Bool) (s : System) : Prop where
  host : s.host.Asks
  guest : ∃ later, (s.host.Live → later = s.host.tx.contents) ∧
    s.guest.Listens terminal s.toGuest later s.host.emitted

theorem InputInv.start (terminal active : Bool) (outKind errKind : StreamKind) :
    InputInv terminal (System.start terminal active outKind errKind) := by
  refine ⟨Host.start_asks active outKind errKind, [], ?_, SbQueue.empty_valid, [], [], rfl,
    Guest.start_told terminal, ?_⟩
  · intro _
    exact SbQueue.contents_empty.symm
  · exact SbQueue.contents_empty

theorem caughtSignal_step {h : Host} (asks : h.Asks) (signo : Nat) :
    HostStep h (caughtSignal h signo) [] := by
  unfold caughtSignal
  repeat' split
  all_goals exact .still asks asks.tx rfl rfl rfl fun live => ⟨live, rfl⟩

theorem InputInv.hostStep {terminal : Bool} {s : System} (inv : InputInv terminal s) {host : Host}
    {written : List UInt8} (step : HostStep s.host host written) (toHost : List UInt8) :
    InputInv terminal { s with host, toHost, toGuest := s.toGuest ++ written } := by
  obtain ⟨later, queued, valid, done, rest, whole, told, stream⟩ := inv.guest
  obtain ⟨new, emitted, follow⟩ := step.emits
  obtain ⟨later', queued', stream'⟩ := follow later queued
  refine ⟨step.asks, later', queued', valid, done, rest ++ new, ?_, told, ?_⟩
  · rw [emitted, whole, List.append_assoc]
  · rw [framing.stream_append, ← stream]
    simp only [List.append_assoc, stream']

theorem InputInv.step {terminal : Bool} {s : System} (inv : InputInv terminal s) (a : Action) :
    InputInv terminal (s.step a) := by
  cases a with
  | guest ev =>
    obtain ⟨later, queued, listens⟩ := inv.guest
    let channel : Pipe := ⟨s.toGuest, decide (s.host.phase ≠ .running)⟩
    have waiting : s.guest.Listens terminal channel.bytes later s.host.emitted := listens
    exact ⟨inv.host, later, queued, Guest.iterate_listens inv.host.requests waiting ev⟩
  | host ev =>
    exact inv.hostStep (Host.iterate_step inv.host ⟨s.toHost, decide (s.guest.phase ≠ .running)⟩ ev) _
  | signal signo =>
    simpa [System.step] using inv.hostStep (caughtSignal_step inv.host signo) s.toHost

theorem InputInv.run (terminal active : Bool) (outKind errKind : StreamKind)
    (actions : List Action) :
    InputInv terminal ((System.start terminal active outKind errKind).run actions) :=
  run_invariant System.step (fun _ => True) (InputInv terminal) (fun _ a _ inv => inv.step a)
    actions (fun _ _ => trivial) _ (.start terminal active outKind errKind)

theorem Requests.payloads_ended (frames : List Frame) (requests : Requests true frames) :
    payloads .input frames = [] := by
  induction frames with
  | nil => rfl
  | cons f frames ih =>
    unfold Requests at requests
    cases type : f.type <;> rw [type] at requests
    case window => simp [type, ih requests.2]
    case input => cases requests.1
    case eof => cases requests.1
    all_goals exact requests.elim

/-- The input direction of the console. In every run the launcher emits frames of its
language and the guest finds none of them, nor their framing, at fault. In pipe mode what
the shell's input was given is a prefix of what the launcher read, and the pipe was closed
for the end of the input only after the launcher saw it and every byte was written. -/
theorem console_input_integrity (terminal active : Bool) (outKind errKind : StreamKind)
    (actions : List Action) :
    let s := (System.start terminal active outKind errKind).run actions
    Requests false s.host.emitted ∧
    s.guest.phase ≠ .died .packet ∧ s.guest.phase ≠ .died .framing ∧
    (terminal = false →
      s.guest.inputWritten <+: s.host.inputRead ∧
      (s.guest.closedAtEof = true →
        s.host.eof = true ∧ s.guest.inputWritten = s.host.inputRead)) := by
  intro s
  have inv : InputInv terminal s := InputInv.run terminal active outKind errKind actions
  obtain ⟨later, queued, valid, done, rest, whole, told, stream⟩ := inv.guest
  have requests := inv.host.requests
  have input := inv.host.input
  have eof := inv.host.eof
  refine ⟨requests, ?_, ?_, ?_⟩
  · intro died
    have sound := told.sound
    rw [died] at sound
    exact sound
  · intro died
    have sound := told.sound
    rw [died] at sound
    exact sound
  · intro piped
    rw [whole, payloads_append] at input
    refine ⟨?_, ?_⟩
    · rw [input]
      exact (told.pipe piped).written.trans (List.prefix_append _ _)
    · intro closed
      obtain ⟨-, ended, written⟩ := (told.pipe piped).closed closed
      rw [told.eof] at ended
      rw [whole, Requests.append, Bool.false_or, ended] at requests
      refine ⟨?_, ?_⟩
      · rw [eof, whole, endedBy_append, ended, Bool.true_or]
      · rw [written, input, Requests.payloads_ended rest requests.2, List.append_nil]

/-- The launcher reads one byte and the end of its input; the guest passes both on. -/
def shortInput : List Action :=
  let input : Revents := ⟨true, false, false, false⟩
  let output : Revents := ⟨false, true, false, false⟩
  [ .host ⟨false, none, false, .ready .none input .none .none, .again, .again, .data [65], .again,
      .again⟩,
    .host ⟨false, none, false, .ready output input .none .none, .again, .wrote 5, .data [], .again,
      .again⟩,
    .host ⟨false, none, false, .ready output .none .none .none, .again, .wrote 100, .again, .again,
      .again⟩,
    .guest ⟨[], .ready input .none .none .none, .upTo 100, .again, .again, .again, .again⟩,
    .guest ⟨[], .ready .none output .none .none, .again, .again, .wrote 1, .again, .again⟩,
    .guest ⟨[], .ready .none .none .none .none, .again, .again, .again, .again, .again⟩ ]

theorem shortInput_delivered :
    let s := (System.start false false .direct .direct).run shortInput
    s.guest.closedAtEof = true ∧ s.guest.inputWritten = [65] ∧
    s.guest.inputWritten = s.host.inputRead := by
  have runs : let s := (System.start false false .direct .direct).run shortInput
      s.guest.closedAtEof = true ∧ s.guest.inputWritten = [65] := by decide +kernel
  obtain ⟨-, -, -, piped⟩ := console_input_integrity false false .direct .direct shortInput
  exact ⟨runs.1, runs.2, ((piped rfl).2 runs.1).2⟩

end LashOs.Console
