import LashOs.Console.HostInput

/-!
# What the guest is told

The guest's side of the input direction: no frame of the launcher's language makes it die,
and what it has written to the shell's input is what the frames it has handled carry.
-/
namespace LashOs.Console

open Base

/-- The loop has not found a frame or the framing at fault. -/
def GuestPhase.Sound : GuestPhase → Prop
  | .died .packet => False
  | .died .framing => False
  | _ => True

/-- The shell's input in pipe mode, after the frames `done`. Bytes are dropped only when
the shell no longer reads them, and then nothing follows. -/
structure Guest.PipeInput (g : Guest) (done : List Frame) : Prop where
  opened : g.input = true → g.inputWritten ++ g.in_.contents = payloads .input done
  written : g.inputWritten <+: payloads .input done
  closed : g.closedAtEof = true →
    g.input = false ∧ g.eof = true ∧ g.inputWritten = payloads .input done

/-- The guest has handled exactly the frames `done`. -/
structure Guest.Told (g : Guest) (terminal : Bool) (done : List Frame) : Prop where
  mode : g.terminal = terminal
  in_ : g.in_.Valid
  eof : g.eof = endedBy done
  pipe : terminal = false → g.PipeInput done
  sound : g.phase.Sound

variable {g g' : Guest} {terminal : Bool} {done rest : List Frame}

theorem Guest.Told.congr (told : g.Told terminal done) (mode : g'.terminal = g.terminal)
    (queue : g'.in_ = g.in_) (eof : g'.eof = g.eof)
    (input : g.terminal = false → g'.input = g.input) (written : g'.inputWritten = g.inputWritten)
    (closed : g'.closedAtEof = g.closedAtEof) (phase : g.phase.Sound → g'.phase.Sound) :
    g'.Told terminal done := by
  refine ⟨mode.trans told.mode, queue ▸ told.in_, eof.trans told.eof, ?_, phase told.sound⟩
  intro piped
  obtain ⟨opened, before, atEof⟩ := told.pipe piped
  have same := input (told.mode.trans piped)
  refine ⟨?_, written ▸ before, ?_⟩
  · rw [same, written, queue]; exact opened
  · rw [closed, same, eof, written]; exact atEof

/-! ### Frames -/

theorem relayFrame_input (g : Guest) (f : Frame) (type : f.type = .input) (open_ : g.eof = false) :
    onFrame relayFrame g f = if sbRoom g.in_ < f.payload.length then .hold
      else if g.input then .next { g with in_ := (sbAppend g.in_ f.payload).1 } else .next g := by
  simp [onFrame, relayFrame, type, open_]

theorem relayFrame_eof (g : Guest) (f : Frame) (type : f.type = .eof) (empty : f.payload = [])
    (open_ : g.eof = false) :
    onFrame relayFrame g f =
      if g.terminal ∧ g.input then
        if sbRoom g.in_ = 0 then .hold
        else .next { g with in_ := (sbAppend g.in_ [4]).1, eof := true }
      else .next { g with eof := true } := by
  simp [onFrame, relayFrame, type, empty, open_, SbType.code]

theorem relayFrame_window (g : Guest) (f : Frame) (type : f.type = .window)
    (size : f.payload.length = 8) : onFrame relayFrame g f = .next g := by
  simp [onFrame, relayFrame, type, size, SbType.code]

private theorem relayInput_told {f : Frame} (told : g.Told terminal done) (type : f.type = .input)
    (open_ : g.eof = false) :
    onFrame relayFrame g f ≠ .reject ∧
    ∀ g', onFrame relayFrame g f = .next g' → g'.Told terminal (done ++ [f]) := by
  rw [relayFrame_input g f type open_]
  have eof : g.eof = endedBy (done ++ [f]) := by simp [told.eof, type]
  have unclosed (piped : terminal = false) (closed : g.closedAtEof = true) : False := by
    have := ((told.pipe piped).closed closed).2.1
    simp [open_] at this
  split
  · exact ⟨by simp, by simp⟩
  next room =>
    split
    next input =>
      refine ⟨by simp, ?_⟩
      rintro g' ⟨⟩
      obtain ⟨q, appended, valid, contents⟩ := sbAppend_spec told.in_ f.payload (by omega)
      rw [appended]
      refine ⟨told.mode, valid, eof, ?_, told.sound⟩
      intro piped
      have opened := (told.pipe piped).opened input
      have whole : g.inputWritten ++ q.contents = payloads .input (done ++ [f]) := by
        rw [contents, ← List.append_assoc, opened]
        simp [type]
      exact ⟨fun _ => whole, ⟨_, whole⟩, fun closed => (unclosed piped closed).elim⟩
    next shut =>
      refine ⟨by simp, ?_⟩
      rintro g' ⟨⟩
      refine ⟨told.mode, told.in_, eof, ?_, told.sound⟩
      intro piped
      refine ⟨fun input => absurd input shut, ?_, fun closed => (unclosed piped closed).elim⟩
      rw [payloads_append]
      exact (told.pipe piped).written.trans (List.prefix_append _ _)

private theorem Guest.PipeInput.pass {f : Frame} (pipe : g.PipeInput done) (other : f.type ≠ .input) :
    g.PipeInput (done ++ [f]) := by
  have same : payloads .input (done ++ [f]) = payloads .input done := by simp [other]
  exact ⟨same ▸ pipe.opened, same ▸ pipe.written, same ▸ pipe.closed⟩

private theorem relayEof_told {f : Frame} (told : g.Told terminal done) (type : f.type = .eof)
    (empty : f.payload = []) (open_ : g.eof = false) :
    onFrame relayFrame g f ≠ .reject ∧
    ∀ g', onFrame relayFrame g f = .next g' → g'.Told terminal (done ++ [f]) := by
  rw [relayFrame_eof g f type empty open_]
  split
  next typed =>
    split
    · exact ⟨by simp, by simp⟩
    next room =>
      refine ⟨by simp, ?_⟩
      rintro g' ⟨⟩
      obtain ⟨q, appended, valid, -⟩ := sbAppend_spec told.in_ [4] (by simp; omega)
      rw [appended]
      refine ⟨told.mode, valid, by simp [type], ?_, told.sound⟩
      intro piped
      rw [← told.mode, typed.1] at piped
      cases piped
  · refine ⟨by simp, ?_⟩
    rintro g' ⟨⟩
    refine ⟨told.mode, told.in_, by simp [type], ?_, told.sound⟩
    intro piped
    obtain ⟨opened, written, closed⟩ := (told.pipe piped).pass (f := f) (by simp [type])
    exact ⟨opened, written, fun atEof => ⟨(closed atEof).1, rfl, (closed atEof).2.2⟩⟩

private theorem relayWindow_told {f : Frame} (told : g.Told terminal done) (type : f.type = .window)
    (size : f.payload.length = 8) :
    onFrame relayFrame g f ≠ .reject ∧
    ∀ g', onFrame relayFrame g f = .next g' → g'.Told terminal (done ++ [f]) := by
  rw [relayFrame_window g f type size]
  refine ⟨by simp, ?_⟩
  rintro g' ⟨⟩
  exact ⟨told.mode, told.in_, by simp [told.eof, type],
    fun piped => (told.pipe piped).pass (by simp [type]), told.sound⟩

theorem relayFrame_told {f : Frame} (requests : Requests false (done ++ f :: rest))
    (told : g.Told terminal done) :
    onFrame relayFrame g f ≠ .reject ∧
    ∀ g', onFrame relayFrame g f = .next g' → g'.Told terminal (done ++ [f]) := by
  rw [Requests.append, Bool.false_or, ← told.eof] at requests
  have next := requests.2
  unfold Requests at next
  cases type : f.type <;> rw [type] at next
  case input => exact relayInput_told told type next.1
  case eof => exact relayEof_told told type next.2.1 next.1
  case window => exact relayWindow_told told type next.1
  all_goals exact next.elim

/-! ### The parts of an iteration -/

theorem relayReap_told (told : g.Told terminal done) (reaped : List (Bool × Nat)) :
    (relayReap g reaped).Told terminal done := by
  unfold relayReap
  split
  · exact told
  · clear * - told
    induction reaped generalizing g with
    | nil => exact told
    | cons r reaped ih =>
      refine ih ?_
      dsimp only
      split
      · exact told.congr rfl rfl rfl (fun _ => rfl) rfl rfl id
      · exact told

theorem relayCloseInput_told (told : g.Told terminal done) :
    (relayCloseInput g).Told terminal done := by
  unfold relayCloseInput
  split
  next ended =>
    obtain ⟨eof, -, input, empty⟩ := ended
    refine ⟨told.mode, told.in_, told.eof, ?_, told.sound⟩
    intro piped
    have opened := (told.pipe piped).opened input
    rw [(sbSize_eq_zero_iff told.in_).mp empty, List.append_nil] at opened
    exact ⟨by simp, ⟨[], by simpa using opened⟩, fun _ => ⟨rfl, eof, opened⟩⟩
  · exact told

theorem relaySendExit_told (told : g.Told terminal done) :
    (relaySendExit g).Told terminal done := by
  unfold relaySendExit
  split
  · exact told.congr rfl rfl rfl (fun _ => rfl) rfl rfl id
  · exact told

theorem relayChannelOut_told (told : g.Told terminal done) (revents : Revents)
    (result : WriteResult) : (relayChannelOut g revents result).1.Told terminal done := by
  unfold relayChannelOut
  split
  · refine told.congr rfl rfl rfl (fun _ => rfl) rfl rfl fun sound => ?_
    dsimp only
    split
    · trivial
    · exact sound
  · exact told

theorem relayInputOut_told (told : g.Told terminal done) (revents : Revents) (result : WriteResult)
    (polled : revents.writable = true → g.input = true) :
    (relayInputOut g revents result).Told terminal done := by
  unfold relayInputOut
  split
  next ready =>
    have input := polled ready.2.1
    obtain ⟨valid, whole⟩ := sbFlush_spec told.in_ result
    have unclosed (piped : terminal = false) (closed : g.closedAtEof = true) : False := by
      have := ((told.pipe piped).closed closed).1
      simp [input] at this
    dsimp only
    split
    · refine ⟨told.mode, valid.reset, told.eof, ?_, told.sound⟩
      intro piped
      exact ⟨by simp, (told.pipe piped).written, fun closed => (unclosed piped closed).elim⟩
    · refine ⟨told.mode, valid, told.eof, ?_, told.sound⟩
      intro piped
      have opened := (told.pipe piped).opened input
      rw [← whole, ← List.append_assoc] at opened
      exact ⟨fun _ => opened, ⟨_, opened⟩, fun closed => (unclosed piped closed).elim⟩
  · exact told

theorem relayStreamIn_told (told : g.Told terminal done) (revents : Revents) (result : ReadResult)
    (forward : List UInt8 → Guest) (close : Guest)
    (forwarded : ∀ bytes, (forward bytes).Told terminal done) (closed : close.Told terminal done) :
    (relayStreamIn g revents result forward close).Told terminal done := by
  unfold relayStreamIn
  split
  · exact told
  · split
    · exact told
    · exact forwarded _
    · exact closed
    · exact closed

theorem relayOutputIn_told (told : g.Told terminal done) (revents : Revents) (result : ReadResult) :
    (relayOutputIn g revents result).Told terminal done := by
  apply relayStreamIn_told told
  · intro bytes
    exact told.congr rfl rfl rfl (fun _ => rfl) rfl rfl id
  · exact told.congr rfl rfl rfl (fun piped => by simp [piped]) rfl rfl id

theorem relayErrorsIn_told (told : g.Told terminal done) (revents : Revents) (result : ReadResult) :
    (relayErrorsIn g revents result).Told terminal done := by
  apply relayStreamIn_told told
  · intro bytes
    exact told.congr rfl rfl rfl (fun _ => rfl) rfl rfl id
  · exact told.congr rfl rfl rfl (fun _ => rfl) rfl rfl id

/-! ### An iteration -/

/-- Of the launcher's frames the guest has handled some, and the bytes of the others are in
its receive queue, on the channel (`incoming`), still with the launcher or lost (`later`). -/
structure Guest.Listens (g : Guest) (terminal : Bool) (incoming later : List UInt8)
    (emitted : List Frame) : Prop where
  rx : g.rx.Valid
  split : ∃ done rest, emitted = done ++ rest ∧ g.Told terminal done ∧
    g.rx.contents ++ (incoming ++ later) = framing.stream rest

variable {incoming later : List UInt8} {emitted : List Frame} {channel : Pipe}

theorem Guest.Listens.congr (listens : g.Listens terminal incoming later emitted)
    (rx : g'.rx = g.rx) (told : ∀ done, g.Told terminal done → g'.Told terminal done) :
    g'.Listens terminal incoming later emitted := by
  obtain ⟨valid, done, rest, whole, old, stream⟩ := listens
  exact ⟨rx ▸ valid, done, rest, whole, told done old, by rw [rx, stream]⟩

@[simp] theorem relayReap_rx (g : Guest) (reaped : List (Bool × Nat)) :
    (relayReap g reaped).rx = g.rx := by
  unfold relayReap
  split
  · rfl
  · clear * -
    induction reaped generalizing g with
    | nil => rfl
    | cons r reaped ih =>
      refine (ih _).trans ?_
      dsimp only
      split <;> rfl

theorem relaySendExit_rx (g : Guest) : (relaySendExit (relayCloseInput g)).rx = g.rx := by
  unfold relaySendExit relayCloseInput
  split <;> split <;> rfl

theorem relayChannelOut_rx (g : Guest) (revents : Revents) (result : WriteResult) :
    (relayChannelOut g revents result).1.rx = g.rx := by
  unfold relayChannelOut
  split <;> rfl

theorem relayInputOut_rx (g : Guest) (revents : Revents) (result : WriteResult) :
    (relayInputOut g revents result).rx = g.rx := by
  unfold relayInputOut
  split
  · dsimp only; split <;> rfl
  · rfl

theorem relayStreamsIn_rx (g : Guest) (third fourth : Revents) (output errors : ReadResult) :
    (relayErrorsIn (relayOutputIn g third output) fourth errors).rx = g.rx := by
  have first : (relayOutputIn g third output).rx = g.rx := by
    unfold relayOutputIn relayStreamIn
    split
    · rfl
    · split <;> rfl
  rw [← first]
  unfold relayErrorsIn relayStreamIn
  split
  · rfl
  · split <;> rfl

@[simp] theorem relayChannelIn_input (g : Guest) (channel : Pipe) (revents : Revents)
    (choice : ReadChoice) : (relayChannelIn g channel revents choice).1.input = g.input := by
  unfold relayChannelIn
  split <;> rfl

@[simp] theorem relayChannelOut_input (g : Guest) (revents : Revents) (result : WriteResult) :
    (relayChannelOut g revents result).1.input = g.input := by
  unfold relayChannelOut
  split <;> rfl

theorem relayChannelIn_listens (listens : g.Listens terminal channel.bytes later emitted)
    (revents : Revents) (choice : ReadChoice) :
    (relayChannelIn g channel revents choice).1.Listens terminal
      (relayChannelIn g channel revents choice).2.bytes later emitted := by
  unfold relayChannelIn
  split
  · obtain ⟨valid, done, rest, whole, told, stream⟩ := listens
    obtain ⟨valid', moved⟩ := sbReceive_spec valid channel choice
    refine ⟨valid', done, rest, whole, ?_, ?_⟩
    · refine told.congr rfl rfl rfl (fun _ => rfl) rfl rfl fun sound => ?_
      dsimp only
      split
      · trivial
      · exact sound
    · dsimp only
      rw [← List.append_assoc, moved, List.append_assoc, stream]
  · exact listens

theorem relayIo_listens (listens : g.Listens terminal channel.bytes later emitted)
    (ev : GuestEvents) (first second third fourth : Revents)
    (polled : second.writable = true → g.input = true) :
    (relayIo g channel ev first second third fourth).1.Listens terminal
      (relayIo g channel ev first second third fourth).2.1.bytes later emitted := by
  have step₁ := relayChannelIn_listens listens first ev.channelRead
  have step₂ := step₁.congr (relayChannelOut_rx _ first ev.channelWrite) fun done told =>
    relayChannelOut_told told first ev.channelWrite
  have step₃ := step₂.congr (relayInputOut_rx _ second ev.inputWrite) fun done told =>
    relayInputOut_told told second ev.inputWrite (by simpa using polled)
  exact step₃.congr (relayStreamsIn_rx _ third fourth ev.outputRead ev.errorsRead) fun done told =>
    relayErrorsIn_told (relayOutputIn_told told third ev.outputRead) fourth ev.errorsRead

theorem relayAfterFrames_listens (listens : g.Listens terminal channel.bytes later emitted)
    (ev : GuestEvents) :
    (relayAfterFrames g channel ev).1.Listens terminal
      (relayAfterFrames g channel ev).2.1.bytes later emitted := by
  have before : (relaySendExit (relayCloseInput g)).Listens terminal channel.bytes later emitted :=
    listens.congr (relaySendExit_rx g) fun done told => relaySendExit_told (relayCloseInput_told told)
  have stopped (phase : GuestPhase) (sound : phase.Sound) :
      { relaySendExit (relayCloseInput g) with phase }.Listens terminal channel.bytes later emitted :=
    before.congr rfl fun done told => told.congr rfl rfl rfl (fun _ => rfl) rfl rfl fun _ => sound
  unfold relayAfterFrames
  dsimp only
  split
  · exact stopped .finished trivial
  · split
    · exact before
    · exact stopped (.died .poll) trivial
    · refine relayIo_listens before ev _ _ _ _ fun writable => ?_
      -- `poll` reports nothing for a closed descriptor.
      by_contra shut
      rw [Bool.not_eq_true] at shut
      rw [shut] at writable
      cases writable

/-- One iteration of the guest: it loses no byte of a frame, and no frame of the launcher's
language makes it die. -/
theorem Guest.iterate_listens (requests : Requests false emitted)
    (listens : g.Listens terminal channel.bytes later emitted) (ev : GuestEvents) :
    (g.iterate channel ev).1.Listens terminal (g.iterate channel ev).2.1.bytes later emitted := by
  unfold Guest.iterate
  split
  · exact listens
  · have reaped : (relayReap g ev.reaped).Listens terminal channel.bytes later emitted :=
      listens.congr (relayReap_rx g ev.reaped) fun done told => relayReap_told told ev.reaped
    obtain ⟨valid, done, rest, whole, told, stream⟩ := reaped
    obtain ⟨rx, g', ended, rest', loop, valid', stream', ⟨done', whole', told'⟩, wellFormed,
        rejected, -⟩ :=
      frameLoop_rule relayFrame
        (fun g rest => ∃ done, emitted = done ++ rest ∧ g.Told terminal done)
        (fun g f rest g' ⟨done, whole, told⟩ handled =>
          ⟨done ++ [f], by simp [whole], (relayFrame_told (whole ▸ requests) told).2 g' handled⟩)
        (channel.bytes ++ later) _ (relayReap g ev.reaped) rest valid stream ⟨done, whole, told⟩
    have after : ({ g' with rx } : Guest).Listens terminal channel.bytes later emitted :=
      ⟨valid', done', rest', whole', told'.congr rfl rfl rfl (fun _ => rfl) rfl rfl id, stream'⟩
    dsimp only
    rw [loop]
    cases ended with
    | rejected =>
      obtain ⟨f, more, rfl, verdict⟩ := rejected rfl
      exact absurd verdict (relayFrame_told (whole' ▸ requests) told').1
    | malformed => exact absurd rfl wellFormed
    | waiting => exact relayAfterFrames_listens after ev
    | held => exact relayAfterFrames_listens after ev

theorem Guest.start_told (terminal : Bool) : (Guest.start terminal).Told terminal [] := by
  refine ⟨rfl, SbQueue.empty_valid, rfl, fun _ => ⟨?_, List.nil_prefix, ?_⟩, trivial⟩
  · intro _
    simp [Guest.start, Guest.send]
  · simp [Guest.start, Guest.send]

end LashOs.Console
