import LashOs.Console.HostOutput

/-!
# Output integrity

The guest's and the launcher's side joined: what the launcher writes is what the guest
read from the shell, in every run.
-/
namespace LashOs.Console

open Base

structure OutputInv (s : System) : Prop where
  guest : s.guest.Speaks
  host : s.host.Hears s.toHost s.guest.tx.contents s.guest.emitted

theorem Host.start_heard (active : Bool) (outKind errKind : StreamKind) :
    (Host.start active outKind errKind).Heard [] where
  queue o := by cases o <;> exact SbQueue.empty_valid
  bytes o := by cases o <;> simp [Host.start, Host.written, Host.queue]
  ready := by simp [Host.start]
  exit := by simp [Host.start]
  result := by simp [Host.start]
  ended := trivial

theorem OutputInv.start (terminal active : Bool) (outKind errKind : StreamKind) :
    OutputInv (System.start terminal active outKind errKind) := by
  refine ⟨Guest.start_speaks terminal, SbQueue.empty_valid, [], _, rfl,
    Host.start_heard active outKind errKind, ?_⟩
  have room : ([] : List UInt8).length + 8 ≤ sbRoom SbQueue.empty := by decide
  obtain ⟨-, contents, -⟩ := send_spec SbQueue.empty_valid [] .ready [] (by decide) room
  simp only [System.start, Guest.start, Guest.send, Host.start, SbQueue.contents_empty,
    List.nil_append]
  rw [contents]
  simp [framing]

theorem caughtSignal_heard {h : Host} {done : List Frame} (heard : h.Heard done) (signo : Nat) :
    (caughtSignal h signo).Heard done := by
  unfold caughtSignal
  repeat' split
  all_goals exact heard.congr (fun _ => rfl) (fun _ => rfl) rfl rfl rfl rfl

theorem caughtSignal_rx (h : Host) (signo : Nat) : (caughtSignal h signo).rx = h.rx := by
  unfold caughtSignal
  repeat' split
  all_goals rfl

theorem OutputInv.step {s : System} (inv : OutputInv s) (a : Action) : OutputInv (s.step a) := by
  cases a with
  | guest ev =>
    have step := Guest.iterate_step inv.guest ⟨s.toGuest, decide (s.host.phase ≠ .running)⟩ ev
    obtain ⟨new, emitted, stream⟩ := step.emits
    obtain ⟨valid, done, rest, whole, heard, pending⟩ := inv.host
    refine ⟨step.speaks, valid, done, rest ++ new, ?_, heard, ?_⟩
    · simp only [System.step, emitted, whole, List.append_assoc]
    · simp only [System.step, List.append_assoc] at stream ⊢
      rw [stream, framing.stream_append, ← pending]
      simp only [List.append_assoc]
  | host ev => exact ⟨inv.guest, Host.iterate_hears inv.guest.session inv.host ev⟩
  | signal signo =>
    exact ⟨inv.guest, inv.host.congr (caughtSignal_rx _ signo)
      fun done heard => caughtSignal_heard heard signo⟩

theorem OutputInv.run (terminal active : Bool) (outKind errKind : StreamKind)
    (actions : List Action) :
    OutputInv ((System.start terminal active outKind errKind).run actions) :=
  run_invariant System.step (fun _ => True) OutputInv (fun _ a _ inv => inv.step a) actions
    (fun _ _ => trivial) _ (.start terminal active outKind errKind)

/-! ### Runs without disturbance -/

def WriteResult.Succeeds (result : WriteResult) : Prop := result ≠ .failed ∧ result ≠ .wrote 0

/-- No signal that ends the launcher, no failing write to its standard output or error,
and a `poll` that fails only with `EINTR`. Window-size, stop and continue signals, a failing
channel and a late guest are allowed. -/
def Action.Calm : Action → Prop
  | .guest _ => True
  | .host ev => WriteResult.Succeeds ev.outWrite ∧ WriteResult.Succeeds ev.errWrite ∧
      ev.poll ≠ .failed
  | .signal signo => signo = 28 ∨ signo = 20 ∨ signo = 18

/-- The launcher has no reason to give up on output that has arrived. -/
structure Host.Undisturbed (h : Host) : Prop where
  interrupted : h.interrupted = 0
  phase : h.phase ≠ .returned .interrupted ∧ h.phase ≠ .returned .pollFailed ∧
    h.phase ≠ .returned .brokenPipe

theorem Host.Undisturbed.congr {h h' : Host} (undisturbed : h.Undisturbed)
    (interrupted : h'.interrupted = h.interrupted) (phase : h'.phase = h.phase) :
    h'.Undisturbed :=
  ⟨interrupted ▸ undisturbed.interrupted, phase ▸ undisturbed.phase⟩

theorem streamFlush_succeeds (kind : StreamKind) (q : SbQueue) (result : WriteResult)
    (succeeds : WriteResult.Succeeds result) : (streamFlush kind q result).1 = 0 := by
  unfold streamFlush
  split
  · rfl
  · match result with
    | .wrote 0 => exact absurd rfl succeeds.2
    | .wrote (n + 1) => rfl
    | .again => rfl
    | .failed => exact absurd rfl succeeds.1

theorem Host.Undisturbed.leave {h : Host} (undisturbed : h.Undisturbed) (why : HostEnd)
    (harmless : why ≠ .interrupted ∧ why ≠ .pollFailed ∧ why ≠ .brokenPipe) :
    (h.leave why).Undisturbed := by
  refine ⟨undisturbed.interrupted, ?_⟩
  simpa [Host.leave] using harmless

private theorem consoleFrame_undisturbed (h h' : Host) (type size : Nat) (data : List UInt8)
    (handled : consoleFrame h type size data = .next h') (undisturbed : h.Undisturbed) :
    h'.Undisturbed := by
  unfold consoleFrame at handled
  repeat' split at handled
  all_goals cases handled
  all_goals exact undisturbed.congr rfl rfl

theorem consoleIo_undisturbed {h : Host} (undisturbed : h.Undisturbed) (channel : Pipe)
    (ev : HostEvents) (first second third fourth : Revents)
    (outOk : WriteResult.Succeeds ev.outWrite) (errOk : WriteResult.Succeeds ev.errWrite) :
    (consoleIo h channel ev first second third fourth).1.Undisturbed := by
  have channelIn (h : Host) (calm : h.Undisturbed) :
      (consoleChannelIn h channel first ev.channelRead).1.Undisturbed := by
    unfold consoleChannelIn
    split
    · dsimp only; split <;> exact calm.congr rfl rfl
    · exact calm
  have channelOut (h : Host) (calm : h.Undisturbed) :
      (consoleChannelOut h first ev.channelWrite).1.Undisturbed := by
    unfold consoleChannelOut
    split
    · dsimp only
      have same : ({ h with tx := (sbFlush h.tx ev.channelWrite).2.1 } : Host).Undisturbed :=
        calm.congr rfl rfl
      split
      · exact same.leave .channelFailed (by simp)
      · exact same
    · exact calm
  have inputIn (h : Host) (calm : h.Undisturbed) :
      (consoleInputIn h second ev.inputRead).Undisturbed := by
    unfold consoleInputIn
    split
    · split <;> exact calm.congr rfl rfl
    · exact calm
  have flush (h : Host) (calm : h.Undisturbed) (o : Output) (revents : Revents)
      {result : WriteResult} (ok : WriteResult.Succeeds result) :
      (h.flush o revents result).Undisturbed := by
    unfold Host.flush
    split
    · simp only [streamFlush_succeeds _ _ _ ok, ne_eq, not_true_eq_false, if_false]
      cases o <;> exact calm.congr rfl rfl
    · exact calm
  have input := inputIn _ (channelOut _ (channelIn _ undisturbed))
  exact flush _ (flush _ input .out third outOk) .err fourth errOk

theorem Host.iterate_undisturbed {h : Host} (undisturbed : h.Undisturbed) (channel : Pipe)
    (ev : HostEvents) (calm : (Action.host ev).Calm) : (h.iterate channel ev).1.Undisturbed := by
  obtain ⟨outOk, errOk, polls⟩ := calm
  have after (h : Host) (waiting : Bool) (calm : h.Undisturbed) :
      (consoleAfterFrames h waiting channel ev).1.Undisturbed := by
    unfold consoleAfterFrames
    split
    · exact calm.leave .exited (by simp)
    · split
      · exact calm.leave .disconnected (by simp)
      · split
        · exact calm.leave .timedOut (by simp)
        · split
          · exact calm
          next failed => exact absurd failed polls
          · exact consoleIo_undisturbed calm channel ev _ _ _ _ outOk errOk
  unfold Host.iterate
  split
  · exact undisturbed
  · rw [if_neg (by simp [undisturbed.interrupted])]
    have resumed : (consoleResize (consoleResume h ev.raw) ev.window).Undisturbed := by
      refine undisturbed.congr ?_ (by simp)
      unfold consoleResize consoleResume
      dsimp only
      repeat' split
      all_goals rfl
    have loop := frameLoop_invariant consoleFrame Host.Undisturbed
      (fun h type size data h' => consoleFrame_undisturbed h h' type size data)
      (consoleResize (consoleResume h ev.raw) ev.window).rx _ resumed
    dsimp only
    split <;> rename_i rx h' found <;> rw [found] at loop
    · have same : ({ h' with rx, result := 125, receivedExit := false } : Host).Undisturbed :=
        loop.congr rfl rfl
      exact same.leave .protocolError (by simp)
    · have same : ({ h' with rx, result := 125, receivedExit := false } : Host).Undisturbed :=
        loop.congr rfl rfl
      exact same.leave .protocolError (by simp)
    · exact after _ true (loop.congr rfl rfl)
    · exact after _ false (loop.congr rfl rfl)

theorem Host.Undisturbed.run (terminal active : Bool) (outKind errKind : StreamKind)
    (actions : List Action) (calm : ∀ a ∈ actions, a.Calm) :
    ((System.start terminal active outKind errKind).run actions).host.Undisturbed := by
  refine run_invariant System.step Action.Calm (fun s => s.host.Undisturbed) ?_ actions calm _
    ⟨rfl, by simp [System.start, Host.start]⟩
  intro s a allowed undisturbed
  cases a with
  | guest ev => exact undisturbed
  | host ev => exact Host.iterate_undisturbed undisturbed _ ev allowed
  | signal signo =>
    refine ⟨?_, ?_⟩
    · rcases allowed with rfl | rfl | rfl <;> exact undisturbed.interrupted
    · rcases allowed with rfl | rfl | rfl <;> exact undisturbed.phase

/-! ### The result -/

/-- `READY (OUTPUT|ERROR)* EXIT` -/
def CompleteSession (frames : List Frame) : Prop :=
  ∃ body status, (∀ f ∈ body, f.Chatter) ∧ frames = readyFrame :: body ++ [exitFrame status]

theorem Session.extends {frames : List Frame} (session : Session frames) :
    ∃ complete, CompleteSession complete ∧ frames <+: complete := by
  obtain ⟨body, status, chatter, shape⟩ := session
  refine ⟨_, ⟨body, status, chatter, rfl⟩, ?_⟩
  rcases shape with rfl | rfl
  · exact List.prefix_append _ _
  · exact List.prefix_refl _

theorem payloads_grow (type : SbType) (done rest : List Frame) :
    payloads type done <+: payloads type (done ++ rest) := by
  rw [payloads_append]
  exact List.prefix_append _ _

theorem Guest.Speaks.all_heard {g : Guest} (speaks : g.Speaks) {done rest : List Frame}
    (whole : g.emitted = done ++ rest) {f : Frame} (member : f ∈ done) (exit : f.type = .exit) :
    rest = [] ∧ g.sentExit = true ∧ f = exitFrame g.status := by
  have last : rest = [] := by
    cases rest with
    | nil => rfl
    | cons next rest =>
      have session := speaks.session
      rw [whole] at session
      rcases session.next with ⟨rfl, -⟩ | ⟨-, noExit, -⟩
      · cases member
      · exact absurd exit (noExit f member)
  refine ⟨last, ?_⟩
  obtain ⟨body, chatter, emitted⟩ := speaks.shape
  rw [last, List.append_nil] at whole
  rw [← whole, emitted, List.cons_append, List.mem_cons, List.mem_append] at member
  rcases member with rfl | talk | farewell
  · cases exit
  · exact absurd exit (chatter f talk).type_ne_exit
  · unfold Guest.farewell at farewell
    split at farewell
    next sent => exact ⟨sent, List.mem_singleton.mp farewell⟩
    · cases farewell

/-- A launcher that returned with the exit status, undisturbed, has written everything. -/
theorem OutputInv.delivered {s : System} (inv : OutputInv s) (undisturbed : s.host.Undisturbed)
    (returned : s.host.phase ≠ .running) (exit : s.host.receivedExit = true) :
    s.host.outWritten = s.guest.outputRead ∧ s.host.errWritten = s.guest.errorsRead ∧
    s.guest.exited = true ∧ s.guest.output = false ∧ s.guest.errors = false ∧
    s.host.result = exitCode s.guest.status := by
  obtain ⟨-, done, rest, whole, heard, -⟩ := inv.host
  have empty : s.host.out.contents = [] ∧ s.host.err.contents = [] := by
    have ended := heard.ended
    obtain ⟨interrupted, pollFailed, brokenPipe⟩ := undisturbed.phase
    unfold Host.EndOk at ended
    split at ended <;> simp_all
  obtain ⟨f, member, type⟩ := heard.exit.mp exit
  obtain ⟨rfl, sent, -⟩ := inv.guest.all_heard whole member type
  rw [List.append_nil] at whole
  obtain ⟨exited, output, errors⟩ := inv.guest.exit sent
  refine ⟨?_, ?_, exited, output, errors, ?_⟩
  · rw [inv.guest.output, whole]
    refine Eq.trans ?_ (heard.bytes .out)
    rw [Host.queue, empty.1, List.append_nil, Host.written]
  · rw [inv.guest.errors, whole]
    refine Eq.trans ?_ (heard.bytes .err)
    rw [Host.queue, empty.2, List.append_nil, Host.written]
  · rcases heard.result exit with broken | interrupted | ⟨f, member, type, result⟩
    · exact absurd broken undisturbed.phase.2.2
    · exact absurd interrupted undisturbed.phase.1
    · rw [← List.append_nil done] at whole
      obtain ⟨-, -, rfl⟩ := inv.guest.all_heard whole member type
      rw [result, leValue_exitFrame]

/-- The output direction of the console. In every run, whatever signals, failures and
timeouts it has, the guest's frames are a prefix of a complete session, the launcher finds
no protocol error, and what it writes is a prefix of what the guest read from the shell.
Where the launcher was not disturbed and returned with the exit status, it has written
both streams whole, to their end, and its result is the shell's exit code. -/
theorem console_output_integrity (terminal active : Bool) (outKind errKind : StreamKind)
    (actions : List Action) :
    let s := (System.start terminal active outKind errKind).run actions
    (∃ complete, CompleteSession complete ∧ s.guest.emitted <+: complete) ∧
    s.host.phase ≠ .returned .protocolError ∧
    s.host.outWritten <+: s.guest.outputRead ∧
    s.host.errWritten <+: s.guest.errorsRead ∧
    ((∀ a ∈ actions, a.Calm) → s.host.phase ≠ .running → s.host.receivedExit = true →
      s.host.outWritten = s.guest.outputRead ∧ s.host.errWritten = s.guest.errorsRead ∧
      s.guest.exited = true ∧ s.guest.output = false ∧ s.guest.errors = false ∧
      s.host.result = exitCode s.guest.status) := by
  intro s
  have inv : OutputInv s := OutputInv.run terminal active outKind errKind actions
  obtain ⟨-, done, rest, whole, heard, -⟩ := inv.host
  refine ⟨inv.guest.session.extends, ?_, ?_, ?_, ?_⟩
  · intro error
    have ended := heard.ended
    unfold Host.EndOk at ended
    rw [error] at ended
    exact ended
  · rw [inv.guest.output, whole]
    exact List.IsPrefix.trans ⟨_, heard.bytes .out⟩ (payloads_grow .output done rest)
  · rw [inv.guest.errors, whole]
    exact List.IsPrefix.trans ⟨_, heard.bytes .err⟩ (payloads_grow .error done rest)
  · intro calm returned exit
    exact inv.delivered (Host.Undisturbed.run terminal active outKind errKind actions calm)
      returned exit

/-- A short session: the shell prints one byte and exits with 7, and the guest's frames
reach the launcher in two reads. -/
def shortSession : List Action :=
  let output : Revents := ⟨true, false, false, false⟩
  let input : Revents := ⟨false, true, false, false⟩
  [ .guest ⟨[], .ready .none .none output .none, .again, .again, .again, .data [65], .again⟩,
    .guest ⟨[(true, 7 * 256)], .ready .none .none output output, .again, .again, .again,
      .data [], .data []⟩,
    .guest ⟨[], .ready input .none .none .none, .again, .wrote 100, .again, .again, .again⟩,
    .host ⟨false, none, false, .ready output .none .none .none, .upTo 13, .again, .again, .again,
      .again⟩,
    .host ⟨false, none, false, .ready output .none .none .none, .upTo 100, .again, .again, .again,
      .again⟩,
    .host ⟨false, none, false, .ready .none .none input .none, .again, .again, .again, .wrote 1,
      .again⟩,
    .host ⟨false, none, false, .ready .none .none .none .none, .again, .again, .again, .again,
      .again⟩ ]

theorem shortSession_delivered :
    let s := (System.start false false .direct .direct).run shortSession
    s.host.phase = .returned .exited ∧ s.host.outWritten = [65] ∧ s.host.result = 7 ∧
    s.host.outWritten = s.guest.outputRead := by
  have runs : let s := (System.start false false .direct .direct).run shortSession
      s.host.phase = .returned .exited ∧ s.host.outWritten = [65] ∧ s.host.result = 7 ∧
      s.host.receivedExit = true := by decide +kernel
  obtain ⟨phase, written, result, received⟩ := runs
  have calm : ∀ a ∈ shortSession, a.Calm := by
    simp [shortSession, Action.Calm, WriteResult.Succeeds]
  obtain ⟨-, -, -, -, delivered⟩ :=
    console_output_integrity false false .direct .direct shortSession
  exact ⟨phase, written, result, (delivered calm (by rw [phase]; simp) received).1⟩

end LashOs.Console
