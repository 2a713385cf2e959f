import LashOs.Console.GuestOutput

/-!
# What the launcher hears

The launcher's side of the output direction: what it has written and queued is what the
frames it has handled carry, and no frame of a guest makes it report a protocol error.
-/
namespace LashOs.Console

open Base

/-- A prefix of `READY (OUTPUT|ERROR)* EXIT` as a guest emits it. -/
def Session (frames : List Frame) : Prop :=
  ∃ body status, (∀ f ∈ body, f.Chatter) ∧
    (frames = readyFrame :: body ∨ frames = readyFrame :: body ++ [exitFrame status])

theorem Guest.Speaks.session {g : Guest} (speaks : g.Speaks) : Session g.emitted := by
  obtain ⟨body, chatter, emitted⟩ := speaks.shape
  refine ⟨body, g.status, chatter, ?_⟩
  rw [emitted]
  unfold Guest.farewell
  split
  · exact Or.inr rfl
  · exact Or.inl (List.append_nil _)

theorem Frame.Chatter.output {f : Frame} (chatter : f.Chatter) : ∃ o : Output, f.type = o.type := by
  rcases chatter with output | error
  · exact ⟨.out, output⟩
  · exact ⟨.err, error⟩

theorem Frame.Chatter.type_ne_exit {f : Frame} (chatter : f.Chatter) : f.type ≠ .exit := by
  rcases chatter with output | error
  · rw [output]; decide
  · rw [error]; decide

/-- The frame that follows `done` in a session: `READY` first and never again, chatter or
`EXIT` after it, and nothing after `EXIT`. -/
theorem Session.next {done rest : List Frame} {f : Frame} (session : Session (done ++ f :: rest)) :
    (done = [] ∧ f = readyFrame) ∨
    (done ≠ [] ∧ (∀ g ∈ done, g.type ≠ .exit) ∧ (f.Chatter ∨ ∃ status, f = exitFrame status)) := by
  obtain ⟨body, status, chatter, shape⟩ := session
  cases done with
  | nil =>
    left
    rcases shape with whole | whole <;> simp at whole <;> exact ⟨rfl, whole.1⟩
  | cons first done =>
    right
    refine ⟨by simp, ?_⟩
    have talk : ∀ g ∈ body, g.type ≠ .exit := fun g member => (chatter g member).type_ne_exit
    rcases shape with whole | whole
    · simp only [List.cons_append, List.cons.injEq] at whole
      obtain ⟨rfl, rfl⟩ := whole
      refine ⟨?_, Or.inl (chatter f (by simp))⟩
      intro g member
      rcases List.mem_cons.mp member with rfl | later
      · decide
      · exact talk g (by simp [later])
    · simp only [List.cons_append, List.cons.injEq] at whole
      obtain ⟨rfl, whole⟩ := whole
      rcases List.eq_nil_or_concat rest with rfl | ⟨rest', last, rfl⟩
      · obtain ⟨rfl, rfl⟩ := List.append_singleton_inj.mp whole
        refine ⟨?_, Or.inr ⟨status, rfl⟩⟩
        intro g member
        rcases List.mem_cons.mp member with rfl | later
        · decide
        · exact talk g later
      · have split : (done ++ f :: rest') ++ [last] = body ++ [exitFrame status] := by
          simpa using whole
        obtain ⟨rfl, -⟩ := List.append_singleton_inj.mp split
        refine ⟨?_, Or.inl (chatter f (by simp))⟩
        intro g member
        rcases List.mem_cons.mp member with rfl | later
        · decide
        · exact talk g (by simp [later])

/-- What each way to leave the loop says about the exit status. -/
def Host.EndOk (h : Host) : Prop :=
  match h.phase with
  | .running => True
  | .returned .exited => h.receivedExit = true ∧ h.out.contents = [] ∧ h.err.contents = []
  | .returned .disconnected => h.receivedExit = false
  | .returned .timedOut => h.receivedExit = false
  | .returned .channelFailed => h.receivedExit = false
  | .returned .interrupted => True
  | .returned .pollFailed => True
  | .returned .brokenPipe => True
  | .returned .protocolError => False

/-- The launcher has handled exactly the frames `done`. -/
structure Host.Heard (h : Host) (done : List Frame) : Prop where
  queue : ∀ o, (h.queue o).Valid
  bytes : ∀ o, h.written o ++ (h.queue o).contents = payloads o.type done
  ready : h.ready = true ↔ done ≠ []
  exit : h.receivedExit = true ↔ ∃ f ∈ done, f.type = .exit
  result : h.receivedExit = true → h.phase = .returned .brokenPipe ∨
    h.phase = .returned .interrupted ∨ ∃ f ∈ done, f.type = .exit ∧ h.result = leValue f.payload
  ended : h.EndOk

theorem consoleFrame_chatter (h : Host) (f : Frame) {o : Output} (type : f.type = o.type)
    (before : h.receivedExit = false) :
    onFrame consoleFrame h f = if sbRoom (h.queue o) < f.payload.length then .hold
      else .next (h.setQueue (sbAppend (h.queue o) f.payload).1 o) := by
  cases o <;> simp [onFrame, consoleFrame, type, before, SbType.code, Output.type, Host.queue,
    Host.setQueue]

theorem consoleFrame_ready (h : Host) (first : h.ready = false) (before : h.receivedExit = false) :
    onFrame consoleFrame h readyFrame = .next { h with ready := true } := by
  simp [onFrame, consoleFrame, readyFrame, first, before, SbType.code]

theorem leValue_exitFrame (status : Nat) : leValue (exitFrame status).payload = exitCode status :=
  leValue_leBytes 4 _ (Nat.lt_of_le_of_lt (exitCode_le status) (by decide))

theorem consoleFrame_exit (h : Host) (status : Nat) (before : h.receivedExit = false) :
    onFrame consoleFrame h (exitFrame status) =
      .next { h with receivedExit := true, result := exitCode status, tx := h.tx.reset } := by
  have code := leValue_exitFrame status
  have small := exitCode_le status
  have size : (exitFrame status).payload.length = 4 := length_leBytes 4 _
  have type : (exitFrame status).type = .exit := rfl
  simp only [onFrame, consoleFrame, type, size, code, before]
  simp [SbType.code, Nat.not_lt.mpr small]

variable {h : Host}

/-- A frame of output goes behind what its queue holds. -/
theorem Host.Heard.append {done : List Frame} {f : Frame} {o : Output} {q : SbQueue}
    (heard : h.Heard done) (running : h.phase = .running) (before : h.receivedExit = false)
    (some : done ≠ []) (type : f.type = o.type) (valid : q.Valid)
    (contents : q.contents = (h.queue o).contents ++ f.payload) :
    (h.setQueue q o).Heard (done ++ [f]) where
  queue o' := by
    rw [Host.queue_setQueue]
    split
    · exact valid
    · exact heard.queue o'
  bytes o' := by
    have written : (h.setQueue q o).written o' = h.written o' := by cases o <;> cases o' <;> rfl
    rw [written, Host.queue_setQueue, payloads_append, ← heard.bytes o']
    split
    next same =>
      subst same
      simp [contents, type]
    next differs =>
      have other : f.type ≠ o'.type := fun same => differs (Output.type_inj (same.symm.trans type))
      simp [other]
  ready := by cases o <;> simp [Host.setQueue, heard.ready, some]
  exit := by
    cases o <;>
      simpa [Host.setQueue, type, Output.type, or_and_right, exists_or] using heard.exit
  result received := by cases o <;> simp [Host.setQueue, before] at received
  ended := by cases o <;> simp [Host.EndOk, Host.setQueue, running]

/-- Every frame of a session is handled or held, and handling it keeps `Heard`. -/
theorem consoleFrame_heard {done rest : List Frame} {f : Frame}
    (session : Session (done ++ f :: rest)) (heard : h.Heard done) (running : h.phase = .running) :
    onFrame consoleFrame h f ≠ .reject ∧
    ∀ h', onFrame consoleFrame h f = .next h' → h'.Heard (done ++ [f]) ∧ h'.phase = .running := by
  rcases session.next with ⟨rfl, rfl⟩ | ⟨some, noExit, kind⟩
  · -- READY
    have first : h.ready = false := by simpa using heard.ready
    have before : h.receivedExit = false := by simpa using heard.exit
    rw [consoleFrame_ready h first before]
    refine ⟨by simp, ?_⟩
    rintro h' ⟨⟩
    refine ⟨⟨heard.queue, fun o => ?_, by simp, ?_, ?_, ?_⟩, running⟩
    · have none : payloads o.type [readyFrame] = [] := by cases o <;> rfl
      rw [payloads_append, none, List.append_nil]
      exact heard.bytes o
    · simp [before, readyFrame]
    · simp [before]
    · simp [Host.EndOk, running]
  · have before : h.receivedExit = false := by
      rw [← Bool.not_eq_true, heard.exit]
      rintro ⟨g, member, exit⟩
      exact noExit g member exit
    have ready : h.ready = true := heard.ready.mpr some
    rcases kind with chatter | ⟨status, rfl⟩
    · obtain ⟨o, type⟩ := chatter.output
      rw [consoleFrame_chatter h f type before]
      split
      · exact ⟨by simp, by simp⟩
      next room =>
        refine ⟨by simp, ?_⟩
        rintro h' ⟨⟩
        obtain ⟨q, appended, valid, contents⟩ := sbAppend_spec (heard.queue o) f.payload (by omega)
        rw [appended]
        exact ⟨heard.append running before some type valid contents, by cases o <;> exact running⟩
    · rw [consoleFrame_exit h status before]
      refine ⟨by simp, ?_⟩
      rintro h' ⟨⟩
      refine ⟨⟨heard.queue, fun o => ?_, by simp [ready], ?_, ?_, ?_⟩, running⟩
      · have none : payloads o.type [exitFrame status] = [] := by cases o <;> rfl
        rw [payloads_append, none, List.append_nil]
        exact heard.bytes o
      · simp only [true_iff]
        exact ⟨exitFrame status, by simp, rfl⟩
      · intro _
        exact Or.inr (Or.inr ⟨exitFrame status, by simp, rfl, (leValue_exitFrame status).symm⟩)
      · simp [Host.EndOk, running]

/-! ### The parts of an iteration -/

variable {done : List Frame}

theorem Host.Heard.congr {h h' : Host} (heard : h.Heard done)
    (queue : ∀ o, h'.queue o = h.queue o) (written : ∀ o, h'.written o = h.written o)
    (ready : h'.ready = h.ready)
    (receivedExit : h'.receivedExit = h.receivedExit) (result : h'.result = h.result)
    (phase : h'.phase = h.phase) : h'.Heard done := by
  obtain ⟨valid, bytes, readyIff, exitIff, code, ended⟩ := heard
  refine ⟨fun o => queue o ▸ valid o, fun o => by rw [queue, written, bytes], by rw [ready, readyIff],
    by rw [receivedExit, exitIff], ?_, ?_⟩
  · rw [receivedExit, phase, result]; exact code
  · have out : h'.out = h.out := queue .out
    have err : h'.err = h.err := queue .err
    unfold Host.EndOk at *
    rw [phase, receivedExit, out, err]
    exact ended

theorem Host.Heard.leave (heard : h.Heard done) (running : h.phase = .running) (why : HostEnd)
    (ended : (h.leave why).EndOk) : (h.leave why).Heard done := by
  obtain ⟨queue, bytes, ready, exit, code, _⟩ := heard
  refine ⟨queue, bytes, ready, exit, ?_, ended⟩
  intro received
  rcases code received with broken | interrupted | found
  · rw [running] at broken; cases broken
  · rw [running] at interrupted; cases interrupted
  · exact Or.inr (Or.inr found)

theorem consoleResume_heard (heard : h.Heard done) (raw : Bool) :
    (consoleResume h raw).Heard done := by
  unfold consoleResume
  dsimp only
  split <;> split <;> exact heard.congr (fun _ => rfl) (fun _ => rfl) rfl rfl rfl rfl

theorem consoleResize_heard (heard : h.Heard done) (window : Option Winsize) :
    (consoleResize h window).Heard done := by
  unfold consoleResize
  split
  · split <;> exact heard.congr (fun _ => rfl) (fun _ => rfl) rfl rfl rfl rfl
  · exact heard

theorem consoleChannelIn_heard (heard : h.Heard done) (channel : Pipe) (revents : Revents)
    (choice : ReadChoice) : (consoleChannelIn h channel revents choice).1.Heard done := by
  unfold consoleChannelIn
  split
  · dsimp only
    split <;> exact heard.congr (fun _ => rfl) (fun _ => rfl) rfl rfl rfl rfl
  · exact heard

theorem consoleChannelOut_heard (heard : h.Heard done) (running : h.phase = .running)
    (revents : Revents) (result : WriteResult)
    (awaited : revents.pollout = true → h.receivedExit = false) :
    (consoleChannelOut h revents result).1.Heard done := by
  unfold consoleChannelOut
  split
  next polled =>
    have same : ({ h with tx := (sbFlush h.tx result).2.1 } : Host).Heard done :=
      heard.congr (fun _ => rfl) (fun _ => rfl) rfl rfl rfl rfl
    dsimp only
    split
    · exact same.leave running .channelFailed (awaited polled.2)
    · exact same
  · exact heard

theorem consoleInputIn_heard (heard : h.Heard done) (revents : Revents) (result : ReadResult) :
    (consoleInputIn h revents result).Heard done := by
  unfold consoleInputIn
  split
  · split <;> exact heard.congr (fun _ => rfl) (fun _ => rfl) rfl rfl rfl rfl
  · exact heard

theorem streamFlush_spec {q : SbQueue} (valid : q.Valid) (kind : StreamKind)
    (result : WriteResult) :
    (streamFlush kind q result).2.1.Valid ∧
    (streamFlush kind q result).2.2 ++ (streamFlush kind q result).2.1.contents = q.contents := by
  unfold streamFlush
  split
  · exact ⟨valid, rfl⟩
  · apply flushUpTo_spec valid
    split <;> omega

/-- Bytes go from the queue of a stream to the stream. -/
theorem Host.Heard.flushed {o : Output} {q : SbQueue} {bytes : List UInt8} (heard : h.Heard done)
    (running : h.phase = .running) (valid : q.Valid)
    (whole : bytes ++ q.contents = (h.queue o).contents) : (h.flushed q bytes o).Heard done where
  queue o' := by
    rw [Host.queue_flushed]
    split
    · exact valid
    · exact heard.queue o'
  bytes o' := by
    rw [Host.written_flushed, Host.queue_flushed, ← heard.bytes o']
    split
    next same => rw [List.append_assoc, whole, same]
    · rw [List.append_nil]
  ready := by cases o <;> exact heard.ready
  exit := by cases o <;> exact heard.exit
  result := by cases o <;> exact heard.result
  ended := by cases o <;> simp [Host.EndOk, Host.flushed, running]

private theorem Host.Heard.broken (heard : h.Heard done) :
    ({ h with result := 141 }.leave .brokenPipe).Heard done := by
  obtain ⟨queue, bytes, ready, exit, _, _⟩ := heard
  exact ⟨queue, bytes, ready, exit, fun _ => Or.inl rfl, trivial⟩

theorem Host.Heard.flush (heard : h.Heard done) (o : Output) (revents : Revents)
    (result : WriteResult) : (h.flush o revents result).Heard done := by
  unfold Host.flush
  split
  next running =>
    obtain ⟨valid, whole⟩ := streamFlush_spec (heard.queue o) (h.kind o) result
    have written := heard.flushed running.1 valid whole
    dsimp only
    split
    · exact written.broken
    · exact written
  · exact heard

/-! ### An iteration -/

/-- Of the guest's frames the launcher has handled some, and the bytes of the others are
in its receive queue, on the channel (`incoming`) or still with the guest (`later`). -/
structure Host.Hears (h : Host) (incoming later : List UInt8) (emitted : List Frame) : Prop where
  rx : h.rx.Valid
  split : ∃ done rest, emitted = done ++ rest ∧ h.Heard done ∧
    h.rx.contents ++ (incoming ++ later) = framing.stream rest

variable {emitted : List Frame}

theorem Host.Hears.congr {h h' : Host} {incoming later : List UInt8}
    (hears : h.Hears incoming later emitted) (rx : h'.rx = h.rx)
    (heard : ∀ done, h.Heard done → h'.Heard done) : h'.Hears incoming later emitted := by
  obtain ⟨valid, done, rest, whole, old, stream⟩ := hears
  exact ⟨rx ▸ valid, done, rest, whole, heard done old, by rw [rx, stream]⟩

variable {later : List UInt8} {channel : Pipe}

theorem consoleChannelIn_hears (hears : h.Hears channel.bytes later emitted) (revents : Revents)
    (choice : ReadChoice) :
    (consoleChannelIn h channel revents choice).1.Hears
      (consoleChannelIn h channel revents choice).2.bytes later emitted := by
  obtain ⟨valid, done, rest, whole, heard, stream⟩ := hears
  have heard' := consoleChannelIn_heard heard channel revents choice
  unfold consoleChannelIn at heard' ⊢
  split
  next readable =>
    rw [if_pos readable] at heard'
    obtain ⟨valid', moved⟩ := sbReceive_spec valid channel choice
    have stream' : (sbReceive channel h.rx choice).2.1.contents ++
        ((sbReceive channel h.rx choice).2.2.bytes ++ later) = framing.stream rest := by
      rw [← List.append_assoc, moved, List.append_assoc, stream]
    dsimp only at heard' ⊢
    split
    next gone =>
      rw [if_pos gone] at heard'
      exact ⟨valid', done, rest, whole, heard', stream'⟩
    next more =>
      rw [if_neg more] at heard'
      exact ⟨valid', done, rest, whole, heard', stream'⟩
  · exact ⟨valid, done, rest, whole, heard, stream⟩

theorem consoleIo_hears (hears : h.Hears channel.bytes later emitted) (running : h.phase = .running)
    (ev : HostEvents) (first second third fourth : Revents)
    (awaited : first.pollout = true → h.receivedExit = false) :
    (consoleIo h channel ev first second third fourth).1.Hears
      (consoleIo h channel ev first second third fourth).2.1.bytes later emitted := by
  have step₁ := consoleChannelIn_hears hears first ev.channelRead
  have step₂ := step₁.congr (consoleChannelOut_rx _ first ev.channelWrite) fun done heard =>
    consoleChannelOut_heard heard (by simpa using running) first ev.channelWrite (by simpa using awaited)
  have step₃ := step₂.congr (consoleInputIn_rx _ second ev.inputRead) fun done heard =>
    consoleInputIn_heard heard second ev.inputRead
  have step₄ := step₃.congr (Host.flush_rx _ .out third ev.outWrite) fun done heard =>
    heard.flush .out third ev.outWrite
  exact step₄.congr (Host.flush_rx _ .err fourth ev.errWrite) fun done heard =>
    heard.flush .err fourth ev.errWrite

theorem Host.Hears.leave {incoming later : List UInt8} (hears : h.Hears incoming later emitted)
    (running : h.phase = .running) (why : HostEnd)
    (ended : ∀ done, h.Heard done → (h.leave why).EndOk) :
    (h.leave why).Hears incoming later emitted :=
  hears.congr rfl fun done heard => heard.leave running why (ended done heard)

theorem consoleAfterFrames_hears (hears : h.Hears channel.bytes later emitted)
    (running : h.phase = .running) (waiting : Bool) (ev : HostEvents) :
    (consoleAfterFrames h waiting channel ev).1.Hears
      (consoleAfterFrames h waiting channel ev).2.1.bytes later emitted := by
  unfold consoleAfterFrames
  split
  next exited =>
    refine hears.leave running .exited fun done heard => ?_
    exact ⟨exited.1, (sbSize_eq_zero_iff (heard.queue .out)).mp exited.2.1,
      (sbSize_eq_zero_iff (heard.queue .err)).mp exited.2.2⟩
  · split
    next gone =>
      exact hears.leave running .disconnected fun _ _ => by simpa [Host.EndOk, Host.leave] using gone.2.2
    · split
      next late =>
        -- `EXIT` is never the first frame, so a launcher that still waits for `READY`
        -- has not received it.
        refine hears.leave running .timedOut fun done heard => ?_
        have none : done = [] := by
          by_contra some
          exact late.1 (heard.ready.mpr some)
        have awaited : ¬h.receivedExit = true := by
          rw [heard.exit, none]
          simp
        simpa [Host.EndOk, Host.leave] using awaited
      · split
        · exact hears
        · exact hears.leave running .pollFailed fun _ _ => trivial
        next first second third fourth _ =>
          refine consoleIo_hears hears running ev _ _ _ _ fun polled => ?_
          by_contra received
          rw [Bool.not_eq_false] at received
          simp [received, Revents.none] at polled

/-- One iteration of the launcher hears a session: no byte of a frame is lost, and no
frame makes it report a protocol error. -/
theorem Host.iterate_hears (session : Session emitted) (hears : h.Hears channel.bytes later emitted)
    (ev : HostEvents) :
    (h.iterate channel ev).1.Hears (h.iterate channel ev).2.1.bytes later emitted := by
  unfold Host.iterate
  split
  · exact hears
  next running =>
    rw [not_not] at running
    split
    · refine hears.congr rfl fun done heard => ?_
      obtain ⟨queue, bytes, ready, exit, _, _⟩ := heard
      exact ⟨queue, bytes, ready, exit, fun _ => Or.inr (Or.inl rfl), trivial⟩
    · have resumed : (consoleResize (consoleResume h ev.raw) ev.window).Hears
          channel.bytes later emitted := hears.congr (by simp) fun done heard =>
        consoleResize_heard (consoleResume_heard heard ev.raw) ev.window
      obtain ⟨valid, done, rest, whole, heard, stream⟩ := resumed
      obtain ⟨rx, h', ended, rest', loop, valid', stream', ⟨done', whole', heard', running'⟩,
          wellFormed, rejected, -⟩ :=
        frameLoop_rule consoleFrame
          (fun h rest => ∃ done, emitted = done ++ rest ∧ h.Heard done ∧ h.phase = .running)
          (fun h f rest h' ⟨done, whole, heard, running⟩ handled => by
            obtain ⟨-, kept⟩ := consoleFrame_heard (whole ▸ session) heard running
            obtain ⟨heard', running'⟩ := kept h' handled
            exact ⟨done ++ [f], by simp [whole], heard', running'⟩)
          (channel.bytes ++ later) _ (consoleResize (consoleResume h ev.raw) ev.window) rest valid
          stream ⟨done, whole, heard, by simpa using running⟩
      have after : ({ h' with rx } : Host).Hears channel.bytes later emitted :=
        ⟨valid', done', rest', whole', heard'.congr (fun _ => rfl) (fun _ => rfl) rfl rfl rfl rfl, stream'⟩
      dsimp only
      rw [loop]
      cases ended with
      | rejected =>
        obtain ⟨f, more, rfl, verdict⟩ := rejected rfl
        exact absurd verdict (consoleFrame_heard (whole' ▸ session) heard' running').1
      | malformed => exact absurd rfl wellFormed
      | waiting => exact consoleAfterFrames_hears after running' true ev
      | held => exact consoleAfterFrames_hears after running' false ev

end LashOs.Console
