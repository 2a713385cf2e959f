import LashOs.Console.System

/-!
# What the launcher asks

The launcher's side of the input direction: the frames it emits, and what becomes of
their bytes while the transmit queue may be thrown away.
-/
namespace LashOs.Console

open Base

/-- The launcher's language: `INPUT` and whole `WINDOW` frames, at most one `EOF`, and no
`INPUT` after it. `ended` tells whether `EOF` came before. -/
def Requests : Bool → List Frame → Prop
  | _, [] => True
  | ended, f :: rest =>
    match f.type with
    | .input => ended = false ∧ Requests ended rest
    | .window => f.payload.length = 8 ∧ Requests ended rest
    | .eof => ended = false ∧ f.payload = [] ∧ Requests true rest
    | _ => False

def endedBy (frames : List Frame) : Bool := frames.any fun f => f.type = .eof

@[simp] theorem endedBy_nil : endedBy [] = false := rfl

@[simp] theorem endedBy_cons (f : Frame) (frames : List Frame) :
    endedBy (f :: frames) = (decide (f.type = .eof) || endedBy frames) := rfl

@[simp] theorem endedBy_append (frames more : List Frame) :
    endedBy (frames ++ more) = (endedBy frames || endedBy more) :=
  List.any_append

theorem Requests.append (ended : Bool) (frames more : List Frame) :
    Requests ended (frames ++ more) ↔
      Requests ended frames ∧ Requests (ended || endedBy frames) more := by
  induction frames generalizing ended with
  | nil => simp [Requests]
  | cons f frames ih =>
    simp only [List.cons_append, Requests, endedBy_cons]
    cases type : f.type <;> simp [ih, and_assoc]

/-- What the launcher has emitted is in its language and carries what it read. -/
structure Host.Asks (h : Host) : Prop where
  tx : h.tx.Valid
  requests : Requests false h.emitted
  eof : h.eof = endedBy h.emitted
  input : h.inputRead = payloads .input h.emitted

def Host.Live (h : Host) : Prop :=
  h.phase = .running ∧ h.connected = true ∧ h.receivedExit = false

/-- From `h` to `h'` the launcher emitted new frames and put `written` on the channel.
`later` stands for the bytes that would still have to follow: those of the transmit queue
while the launcher is live, and what was thrown away afterwards. -/
structure HostStep (h h' : Host) (written : List UInt8) : Prop where
  asks : h'.Asks
  emits : ∃ new, h'.emitted = h.emitted ++ new ∧
    ∀ later, (h.Live → later = h.tx.contents) →
      ∃ later', (h'.Live → later' = h'.tx.contents) ∧
        written ++ later' = later ++ framing.stream new

theorem HostStep.trans {h h₁ h₂ : Host} {written₁ written₂ : List UInt8}
    (first : HostStep h h₁ written₁) (second : HostStep h₁ h₂ written₂) :
    HostStep h h₂ (written₁ ++ written₂) := by
  obtain ⟨new₁, emitted₁, follow₁⟩ := first.emits
  obtain ⟨new₂, emitted₂, follow₂⟩ := second.emits
  refine ⟨second.asks, new₁ ++ new₂, ?_, ?_⟩
  · rw [emitted₂, emitted₁, List.append_assoc]
  · intro later queued
    obtain ⟨later₁, queued₁, stream₁⟩ := follow₁ later queued
    obtain ⟨later₂, queued₂, stream₂⟩ := follow₂ later₁ queued₁
    refine ⟨later₂, queued₂, ?_⟩
    rw [List.append_assoc, stream₂, ← List.append_assoc, stream₁, List.append_assoc,
      framing.stream_append]

theorem HostStep.still {h h' : Host} (asks : h.Asks) (tx : h'.tx.Valid)
    (emitted : h'.emitted = h.emitted) (eof : h'.eof = h.eof)
    (inputRead : h'.inputRead = h.inputRead) (live : h'.Live → h.Live ∧ h'.tx = h.tx) :
    HostStep h h' [] := by
  refine ⟨⟨tx, ?_, ?_, ?_⟩, [], by simp [emitted], ?_⟩
  · rw [emitted]; exact asks.requests
  · rw [eof, emitted]; exact asks.eof
  · rw [inputRead, emitted]; exact asks.input
  · intro later queued
    refine ⟨later, ?_, by simp⟩
    intro alive
    rw [(live alive).2]
    exact queued (live alive).1

variable {h : Host}

theorem HostStep.refl (asks : h.Asks) : HostStep h h [] :=
  .still asks asks.tx rfl rfl rfl fun live => ⟨live, rfl⟩

theorem HostStep.leave (asks : h.Asks) (why : HostEnd) : HostStep h (h.leave why) [] :=
  .still asks asks.tx rfl rfl rfl fun live => absurd live.1 (by simp [Host.leave])

theorem HostStep.send {h h' : Host} (asks : h.Asks) (type : SbType) (payload : List UInt8)
    (small : payload.length ≤ sbChunk) (fits : payload.length + 8 ≤ sbRoom h.tx)
    (allowed : Requests h.eof [⟨type, payload, small⟩])
    (tx : h'.tx = (h.send type payload).tx) (emitted : h'.emitted = (h.send type payload).emitted)
    (eof : h'.eof = (h.eof || decide (type = .eof)))
    (inputRead : h'.inputRead = h.inputRead ++ (if type = .input then payload else []))
    (live : h'.Live → h.Live) : HostStep h h' [] := by
  obtain ⟨valid, contents, frames⟩ := send_spec asks.tx h.emitted type payload small fits
  simp only [Host.send] at tx emitted
  rw [frames] at emitted
  refine ⟨⟨tx ▸ valid, ?_, ?_, ?_⟩, [⟨type, payload, small⟩], emitted, ?_⟩
  · rw [emitted, Requests.append, Bool.false_or, ← asks.eof]
    exact ⟨asks.requests, allowed⟩
  · rw [emitted, eof, asks.eof]
    simp
  · rw [emitted, inputRead, asks.input, payloads_append]
    simp
  · intro later queued
    refine ⟨later ++ (⟨type, payload, small⟩ : Frame).encode, ?_, by simp [framing]⟩
    intro alive
    rw [tx, contents, queued (live alive)]

/-! ### The parts of an iteration -/

theorem consoleResume_step (asks : h.Asks) (raw : Bool) : HostStep h (consoleResume h raw) [] := by
  unfold consoleResume
  dsimp only
  split <;> split <;> exact .still asks asks.tx rfl rfl rfl fun live => ⟨live, rfl⟩

theorem consoleResize_step (asks : h.Asks) (window : Option Winsize) :
    HostStep h (consoleResize h window) [] := by
  unfold consoleResize
  split
  next wanted =>
    cases window with
    | none => exact .still asks asks.tx rfl rfl rfl fun live => ⟨live, rfl⟩
    | some w =>
      have size : w.bytes.length = 8 := w.length_bytes
      have small : w.bytes.length ≤ sbChunk := by rw [size]; decide
      refine .send asks .window w.bytes small ?_ ?_ rfl rfl ?_ ?_ fun live => live
      · rw [size]; exact wanted.2.2
      · exact ⟨size, trivial⟩
      · exact (Bool.or_false _).symm
      · exact (List.append_nil _).symm
  · exact .refl asks

private theorem consoleFrame_step (h₀ h h' : Host) (type size : Nat) (data : List UInt8)
    (handled : consoleFrame h type size data = .next h') (step : HostStep h₀ h []) :
    HostStep h₀ h' [] := by
  have asks := step.asks
  suffices rest : HostStep h h' [] by simpa using step.trans rest
  unfold consoleFrame at handled
  split at handled
  · split at handled
    · split at handled <;> cases handled
      exact .still asks asks.tx rfl rfl rfl fun live => ⟨live, rfl⟩
    · split at handled <;> cases handled
      exact .still asks asks.tx rfl rfl rfl fun live => ⟨live, rfl⟩
  · split at handled
    · cases handled
      exact .still asks asks.tx rfl rfl rfl fun live => ⟨live, rfl⟩
    · split at handled
      · split at handled <;> cases handled
        exact .still asks asks.tx.reset rfl rfl rfl fun live => absurd live.2.2 (by simp)
      · cases handled

theorem consoleFrames_step (asks : h.Asks) (rx : SbQueue) :
    HostStep h (frameLoop consoleFrame rx h).2.1 [] :=
  frameLoop_invariant consoleFrame (fun h' => HostStep h h' [])
    (fun s type size data s' => consoleFrame_step h s s' type size data) rx h (.refl asks)

theorem consoleChannelIn_step (asks : h.Asks) (channel : Pipe) (revents : Revents)
    (choice : ReadChoice) : HostStep h (consoleChannelIn h channel revents choice).1 [] := by
  unfold consoleChannelIn
  split
  · dsimp only
    split
    · exact .still asks asks.tx.reset rfl rfl rfl fun live => absurd live.2.1 (by simp)
    · exact .still asks asks.tx rfl rfl rfl fun live => ⟨live, rfl⟩
  · exact .refl asks

theorem consoleChannelOut_step (asks : h.Asks) (running : h.phase = .running) (revents : Revents)
    (result : WriteResult) (awaited : revents.pollout = true → h.receivedExit = false) :
    HostStep h (consoleChannelOut h revents result).1 (consoleChannelOut h revents result).2 := by
  unfold consoleChannelOut
  split
  next polled =>
    have live : h.Live := ⟨running, polled.1, awaited polled.2⟩
    obtain ⟨valid, whole⟩ := sbFlush_spec asks.tx result
    have flushed : HostStep h { h with tx := (sbFlush h.tx result).2.1 } (sbFlush h.tx result).2.2 := by
      refine ⟨⟨valid, asks.requests, asks.eof, asks.input⟩, [], by simp, ?_⟩
      intro later queued
      refine ⟨(sbFlush h.tx result).2.1.contents, fun _ => rfl, ?_⟩
      rw [whole, queued live]
      simp
    dsimp only
    split
    · simpa using flushed.trans (.leave flushed.asks .channelFailed)
    · exact flushed
  · exact .refl asks

theorem consoleInputIn_step (asks : h.Asks) (revents : Revents) (result : ReadResult)
    (polled : revents.readable = true → h.eof = false ∧ sbChunk + 8 ≤ sbRoom h.tx) :
    HostStep h (consoleInputIn h revents result) [] := by
  unfold consoleInputIn
  split
  next taken =>
    obtain ⟨open_, room⟩ := polled taken.2
    have ended (h' : Host) (tx : h'.tx = (h.send .eof []).tx)
        (emitted : h'.emitted = (h.send .eof []).emitted) (eof : h'.eof = true)
        (inputRead : h'.inputRead = h.inputRead) (live : h'.Live → h.Live) : HostStep h h' [] := by
      refine .send asks .eof [] (by simp) (by simp; omega) ⟨open_, rfl, trivial⟩ tx emitted ?_ ?_ live
      · simp [eof]
      · simp [inputRead]
    split
    · exact .refl asks
    next b rest =>
      have small : ((b :: rest).take sbChunk).length ≤ sbChunk := List.length_take_le _ _
      refine .send asks .input _ small (by omega) ⟨open_, trivial⟩ rfl rfl ?_ rfl fun live => live
      exact (Bool.or_false _).symm
    · exact ended _ rfl rfl rfl rfl fun live => live
    · exact ended _ rfl rfl rfl rfl fun live => live
  · exact .refl asks

theorem Host.Asks.flush (asks : h.Asks) (o : Output) (revents : Revents) (result : WriteResult) :
    HostStep h (h.flush o revents result) [] := by
  unfold Host.flush
  split
  · dsimp only
    split
    · cases o <;>
        exact .still asks asks.tx rfl rfl rfl fun live => absurd live.1 (by simp [Host.leave])
    · cases o <;> exact .still asks asks.tx rfl rfl rfl fun live => ⟨live, rfl⟩
  · exact .refl asks

/-! ### An iteration -/

/-- Before the launcher reads its input, the queue can only have become emptier. -/
private theorem channel_room (tx : h.tx.Valid) (channel : Pipe) (revents : Revents)
    (choice : ReadChoice) (result : WriteResult) :
    let h' := (consoleChannelOut (consoleChannelIn h channel revents choice).1 revents result).1
    h'.eof = h.eof ∧ sbRoom h.tx ≤ sbRoom h'.tx := by
  have received : (consoleChannelIn h channel revents choice).1.eof = h.eof ∧
      (consoleChannelIn h channel revents choice).1.tx.Valid ∧
      sbRoom h.tx ≤ sbRoom (consoleChannelIn h channel revents choice).1.tx := by
    unfold consoleChannelIn
    split
    · dsimp only
      split
      · exact ⟨rfl, tx.reset, by simp [sbRoom, sbSize, SbQueue.reset]⟩
      · exact ⟨rfl, tx, Nat.le_refl _⟩
    · exact ⟨rfl, tx, Nat.le_refl _⟩
  obtain ⟨eof, valid, room⟩ := received
  intro h'
  have flushed : h'.eof = (consoleChannelIn h channel revents choice).1.eof ∧
      sbRoom (consoleChannelIn h channel revents choice).1.tx ≤ sbRoom h'.tx := by
    simp only [h', consoleChannelOut]
    split
    · obtain ⟨valid', whole⟩ := sbFlush_spec valid result
      have lengths := congrArg List.length whole
      rw [List.length_append, valid.length_contents, valid'.length_contents] at lengths
      have shorter := Nat.le.intro ((Nat.add_comm _ _).trans lengths)
      dsimp only
      split <;> exact ⟨rfl, Nat.sub_le_sub_left shorter _⟩
    · exact ⟨rfl, Nat.le_refl _⟩
  exact ⟨flushed.1.trans eof, room.trans flushed.2⟩

theorem consoleIo_step (asks : h.Asks) (running : h.phase = .running) (channel : Pipe)
    (ev : HostEvents) (first second third fourth : Revents)
    (awaited : first.pollout = true → h.receivedExit = false)
    (polled : second.readable = true → h.eof = false ∧ sbChunk + 8 ≤ sbRoom h.tx) :
    HostStep h (consoleIo h channel ev first second third fourth).1
      (consoleIo h channel ev first second third fourth).2.2 := by
  obtain ⟨eof, room⟩ := channel_room asks.tx channel first ev.channelRead ev.channelWrite
  have step₁ := consoleChannelIn_step asks channel first ev.channelRead
  have step₂ := step₁.trans (consoleChannelOut_step step₁.asks (by simpa using running) first
    ev.channelWrite (by simpa using awaited))
  have step₃ := step₂.trans (consoleInputIn_step step₂.asks second ev.inputRead fun readable =>
    ⟨eof.trans (polled readable).1, (polled readable).2.trans room⟩)
  have step₄ := step₃.trans (step₃.asks.flush .out third ev.outWrite)
  have step₅ := step₄.trans (step₄.asks.flush .err fourth ev.errWrite)
  simpa [consoleIo, consoleOut_eq, consoleErr_eq] using step₅

theorem consoleTransfer_step (asks : h.Asks) (running : h.phase = .running) (channel : Pipe)
    (ev : HostEvents) (first second third fourth : Revents) :
    HostStep h (consoleTransfer h channel ev first second third fourth).1
      (consoleTransfer h channel ev first second third fourth).2.2 := by
  apply consoleIo_step asks running channel ev
  · intro polled
    by_contra received
    rw [Bool.not_eq_false] at received
    simp [received, Revents.none] at polled
  · intro readable
    by_contra closed
    have idle : (!h.eof && !h.receivedExit && decide (sbChunk + 8 ≤ sbRoom h.tx)) = false := by
      rw [Bool.eq_false_iff]
      intro all
      simp only [Bool.and_eq_true, Bool.not_eq_true', decide_eq_true_eq] at all
      exact closed ⟨all.1.1, all.2⟩
    rw [idle] at readable
    cases readable

theorem consoleAfterFrames_step (asks : h.Asks) (running : h.phase = .running) (waiting : Bool)
    (channel : Pipe) (ev : HostEvents) :
    HostStep h (consoleAfterFrames h waiting channel ev).1
      (consoleAfterFrames h waiting channel ev).2.2 := by
  unfold consoleAfterFrames
  split
  · exact .leave asks .exited
  · split
    · exact .leave asks .disconnected
    · split
      · exact .leave asks .timedOut
      · split
        · exact .refl asks
        · exact .leave asks .pollFailed
        · exact consoleTransfer_step asks running channel ev _ _ _ _

/-- One iteration of the launcher: it keeps its language, and the bytes it puts on the
channel are the next ones of its frames' stream. -/
theorem Host.iterate_step (asks : h.Asks) (channel : Pipe) (ev : HostEvents) :
    HostStep h (h.iterate channel ev).1 (h.iterate channel ev).2.2 := by
  unfold Host.iterate
  split
  · exact .refl asks
  next running =>
    rw [not_not] at running
    split
    · exact .still asks asks.tx rfl rfl rfl fun live => absurd live.1 (by simp [Host.leave])
    · have resumed := consoleResume_step asks ev.raw
      have resized := resumed.trans (consoleResize_step resumed.asks ev.window)
      have frames := resized.trans (consoleFrames_step resized.asks
        (consoleResize (consoleResume h ev.raw) ev.window).rx)
      have phase := frameLoop_invariant consoleFrame (fun h => h.phase = .running)
        (fun h type size data h' handled same => (consoleFrame_phase handled).trans same)
        (consoleResize (consoleResume h ev.raw) ev.window).rx
        (consoleResize (consoleResume h ev.raw) ev.window) (by simpa using running)
      simp only [List.append_nil] at frames
      dsimp only
      split <;> rename_i rx h' loop <;> rw [loop] at frames phase
      · exact frames.trans (.still frames.asks frames.asks.tx rfl rfl rfl
          fun live => absurd live.1 (by simp [Host.protocolError, Host.leave]))
      · exact frames.trans (.still frames.asks frames.asks.tx rfl rfl rfl
          fun live => absurd live.1 (by simp [Host.protocolError, Host.leave]))
      · have taken := frames.trans (.still frames.asks frames.asks.tx rfl rfl rfl
          fun live => ⟨live, rfl⟩ : HostStep h' { h' with rx } [])
        exact taken.trans (consoleAfterFrames_step taken.asks phase true channel ev)
      · have taken := frames.trans (.still frames.asks frames.asks.tx rfl rfl rfl
          fun live => ⟨live, rfl⟩ : HostStep h' { h' with rx } [])
        exact taken.trans (consoleAfterFrames_step taken.asks phase false channel ev)

theorem Host.start_asks (active : Bool) (outKind errKind : StreamKind) :
    (Host.start active outKind errKind).Asks :=
  ⟨SbQueue.empty_valid, trivial, rfl, rfl⟩

end LashOs.Console
