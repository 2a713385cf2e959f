import LashOs.Console.System

/-!
# What the guest says

The guest's side of the output direction. Each step of an iteration is related to the
frames it emits and the bytes it puts on the channel; the steps compose.
-/
namespace LashOs.Console

open Base

def Frame.Chatter (f : Frame) : Prop := f.type = .output ∨ f.type = .error

def readyFrame : Frame := ⟨.ready, [], by decide⟩

def exitFrame (status : Nat) : Frame :=
  ⟨.exit, leBytes 4 (exitCode status), by rw [length_leBytes]; decide⟩

def Guest.farewell (g : Guest) : List Frame := if g.sentExit then [exitFrame g.status] else []

/-- The guest has emitted a prefix of `READY (OUTPUT|ERROR)* EXIT` which carries exactly
the bytes it has read from the shell, and nothing is left to read once it said `EXIT`. -/
structure Guest.Speaks (g : Guest) : Prop where
  valid : g.tx.Valid
  shape : ∃ body, (∀ f ∈ body, f.Chatter) ∧ g.emitted = readyFrame :: body ++ g.farewell
  output : g.outputRead = payloads .output g.emitted
  errors : g.errorsRead = payloads .error g.emitted
  exit : g.sentExit = true → g.exited = true ∧ g.output = false ∧ g.errors = false

/-- From `g` to `g'` the guest emitted new frames and put `written` on the channel; every
byte of its frames is on the channel or still queued. -/
structure GuestStep (g g' : Guest) (written : List UInt8) : Prop where
  speaks : g'.Speaks
  emits : ∃ new, g'.emitted = g.emitted ++ new ∧
    written ++ g'.tx.contents = g.tx.contents ++ framing.stream new

variable {g : Guest}

theorem GuestStep.refl (speaks : g.Speaks) : GuestStep g g [] :=
  ⟨speaks, [], by simp, by simp⟩

theorem GuestStep.trans {g g₁ g₂ : Guest} {written₁ written₂ : List UInt8}
    (first : GuestStep g g₁ written₁) (second : GuestStep g₁ g₂ written₂) :
    GuestStep g g₂ (written₁ ++ written₂) := by
  obtain ⟨new₁, emitted₁, stream₁⟩ := first.emits
  obtain ⟨new₂, emitted₂, stream₂⟩ := second.emits
  refine ⟨second.speaks, new₁ ++ new₂, ?_, ?_⟩
  · rw [emitted₂, emitted₁, List.append_assoc]
  · rw [List.append_assoc, stream₂, ← List.append_assoc, stream₁, List.append_assoc,
      framing.stream_append]

theorem GuestStep.quiet {g g' : Guest} (speaks : g.Speaks)
    (tx : g'.tx = g.tx) (emitted : g'.emitted = g.emitted)
    (outputRead : g'.outputRead = g.outputRead) (errorsRead : g'.errorsRead = g.errorsRead)
    (sentExit : g'.sentExit = g.sentExit)
    (kept : g.sentExit = true → g'.exited = g.exited ∧ g'.status = g.status ∧
      g'.output = g.output ∧ g'.errors = g.errors) : GuestStep g g' [] := by
  have farewell : g'.farewell = g.farewell := by
    unfold Guest.farewell
    rw [sentExit]
    split
    next sent => rw [(kept sent).2.1]
    · rfl
  refine ⟨⟨tx ▸ speaks.valid, ?_, ?_, ?_, ?_⟩, [], by simp [emitted], by simp [tx]⟩
  · rw [emitted, farewell]; exact speaks.shape
  · rw [emitted, outputRead]; exact speaks.output
  · rw [emitted, errorsRead]; exact speaks.errors
  · intro sent
    rw [sentExit] at sent
    obtain ⟨exited, status, output, errors⟩ := kept sent
    rw [exited, output, errors]
    exact speaks.exit sent

theorem GuestStep.flush (speaks : g.Speaks) (result : WriteResult) (phase : GuestPhase) :
    GuestStep g { g with tx := (sbFlush g.tx result).2.1, phase } (sbFlush g.tx result).2.2 := by
  obtain ⟨valid, whole⟩ := sbFlush_spec speaks.valid result
  exact ⟨⟨valid, speaks.shape, speaks.output, speaks.errors, speaks.exit⟩, [], by simp, by simpa using whole⟩

theorem Guest.start_speaks (terminal : Bool) : (Guest.start terminal).Speaks := by
  have room : ([] : List UInt8).length + 8 ≤ sbRoom SbQueue.empty := by decide
  obtain ⟨valid, contents, frames⟩ := send_spec SbQueue.empty_valid [] .ready [] (by decide) room
  refine ⟨valid, ⟨[], by simp, ?_⟩, ?_, ?_, by simp [Guest.start, Guest.send]⟩
  · simp only [Guest.start, Guest.send]
    rw [frames]
    rfl
  · simp only [Guest.start, Guest.send]
    rw [frames]
    rfl
  · simp only [Guest.start, Guest.send]
    rw [frames]
    rfl

theorem relayReap_step (speaks : g.Speaks) (reaped : List (Bool × Nat)) :
    GuestStep g (relayReap g reaped) [] := by
  unfold relayReap
  split
  · exact .refl speaks
  next running =>
    have still : g.sentExit = true → False := fun sent => running (speaks.exit sent).1
    -- Reaping changes `status` and `exited` only.
    have fields : ∀ g' : Guest, GuestStep g g' [] → g'.sentExit = g.sentExit →
        GuestStep g (reaped.foldl
          (fun g r => if r.1 then { g with status := r.2, exited := true } else g) g') [] := by
      intro g' step same
      induction reaped generalizing g' with
      | nil => exact step
      | cons r rest ih =>
        simp only [List.foldl_cons]
        split
        · refine ih _ (step.trans (.quiet step.speaks rfl rfl rfl rfl rfl ?_)) same
          intro sent
          exact (still (same ▸ sent)).elim
        · exact ih _ step same
    exact fields g (.refl speaks) rfl

/-- The fields that handling the launcher's frames leaves alone. -/
private def SameOutput (g g' : Guest) : Prop :=
  g'.tx = g.tx ∧ g'.emitted = g.emitted ∧ g'.outputRead = g.outputRead ∧
  g'.errorsRead = g.errorsRead ∧ g'.sentExit = g.sentExit ∧ g'.exited = g.exited ∧
  g'.status = g.status ∧ g'.output = g.output ∧ g'.errors = g.errors

private theorem SameOutput.step {g g' : Guest} (same : SameOutput g g') (speaks : g.Speaks) :
    GuestStep g g' [] := by
  obtain ⟨tx, emitted, outputRead, errorsRead, sentExit, exited, status, output, errors⟩ := same
  exact .quiet speaks tx emitted outputRead errorsRead sentExit
    fun _ => ⟨exited, status, output, errors⟩

private theorem relayFrame_same (g₀ g g' : Guest) (type size : Nat) (data : List UInt8)
    (handled : relayFrame g type size data = .next g') (same : SameOutput g₀ g) :
    SameOutput g₀ g' := by
  unfold relayFrame at handled
  split at handled
  · split at handled
    · cases handled
    · split at handled <;> cases handled <;> exact same
  · split at handled
    · split at handled
      · split at handled
        · cases handled
        · cases handled; exact same
      · cases handled; exact same
    · split at handled <;> cases handled
      exact same

theorem relayFrames_step (speaks : g.Speaks) (rx rx' : SbQueue) :
    GuestStep g { (frameLoop relayFrame rx g).2.1 with rx := rx' } [] := by
  have same := frameLoop_invariant relayFrame (SameOutput g)
    (fun s type size data s' => relayFrame_same g s s' type size data) rx g
    ⟨rfl, rfl, rfl, rfl, rfl, rfl, rfl, rfl, rfl⟩
  exact SameOutput.step same speaks

theorem relayCloseInput_step (speaks : g.Speaks) : GuestStep g (relayCloseInput g) [] := by
  unfold relayCloseInput
  split
  · exact .quiet speaks rfl rfl rfl rfl rfl fun _ => ⟨rfl, rfl, rfl, rfl⟩
  · exact .refl speaks

theorem relaySendExit_step (speaks : g.Speaks) : GuestStep g (relaySendExit g) [] := by
  unfold relaySendExit
  split
  next ready =>
    obtain ⟨exited, output, errors, unsent, room⟩ := ready
    have small : (leBytes 4 (exitCode g.status)).length ≤ sbChunk := by
      rw [length_leBytes]; decide
    obtain ⟨valid, contents, frames⟩ :=
      send_spec speaks.valid g.emitted .exit _ small (by rw [length_leBytes]; omega)
    obtain ⟨body, chatter, emitted⟩ := speaks.shape
    have quiet : g.farewell = [] := by simp [Guest.farewell, unsent]
    refine ⟨⟨valid, ⟨body, chatter, ?_⟩, ?_, ?_, ?_⟩, [exitFrame g.status], ?_, ?_⟩
    · simp only [Guest.send]
      rw [frames, emitted, quiet]
      simp [Guest.farewell, exitFrame]
    · simp only [Guest.send]
      rw [frames, payloads_append, speaks.output]
      simp
    · simp only [Guest.send]
      rw [frames, payloads_append, speaks.errors]
      simp
    · intro _
      exact ⟨exited, Bool.eq_false_iff.mpr output, Bool.eq_false_iff.mpr errors⟩
    · simp only [Guest.send]
      rw [frames]
      rfl
    · simp only [Guest.send, List.nil_append]
      rw [contents]
      simp [framing, exitFrame]
  · exact .refl speaks

theorem relayChannelIn_step (speaks : g.Speaks) (channel : Pipe) (revents : Revents)
    (choice : ReadChoice) : GuestStep g (relayChannelIn g channel revents choice).1 [] := by
  unfold relayChannelIn
  split
  · exact .quiet speaks rfl rfl rfl rfl rfl fun _ => ⟨rfl, rfl, rfl, rfl⟩
  · exact .refl speaks

theorem relayChannelOut_step (speaks : g.Speaks) (revents : Revents) (result : WriteResult) :
    GuestStep g (relayChannelOut g revents result).1 (relayChannelOut g revents result).2 := by
  unfold relayChannelOut
  split
  · exact .flush speaks result _
  · exact .refl speaks

theorem relayInputOut_step (speaks : g.Speaks) (revents : Revents) (result : WriteResult) :
    GuestStep g (relayInputOut g revents result) [] := by
  unfold relayInputOut
  split
  · dsimp only
    split <;> exact .quiet speaks rfl rfl rfl rfl rfl fun _ => ⟨rfl, rfl, rfl, rfl⟩
  · exact .refl speaks

private theorem forward_step (speaks : g.Speaks) (unsent : g.sentExit = false)
    (room : sbChunk + 8 ≤ sbRoom g.tx) (type : SbType) (chatter : type = .output ∨ type = .error)
    (bytes : List UInt8) (small : bytes.length ≤ sbChunk) :
    GuestStep g
      { g.send type bytes with
        outputRead := g.outputRead ++ (if type = .output then bytes else [])
        errorsRead := g.errorsRead ++ (if type = .error then bytes else []) } [] := by
  obtain ⟨valid, contents, frames⟩ := send_spec speaks.valid g.emitted type bytes small (by omega)
  obtain ⟨body, all, emitted⟩ := speaks.shape
  have quiet : g.farewell = [] := by simp [Guest.farewell, unsent]
  refine ⟨⟨valid, ⟨body ++ [⟨type, bytes, small⟩], ?_, ?_⟩, ?_, ?_, ?_⟩, [⟨type, bytes, small⟩], ?_, ?_⟩
  · intro f member
    rcases List.mem_append.mp member with old | new
    · exact all f old
    · rw [List.mem_singleton.mp new]; exact chatter
  · simp only [Guest.send, Guest.farewell, unsent]
    rw [frames, emitted, quiet]
    simp
  · simp only [Guest.send]
    rw [frames, payloads_append, speaks.output]
    simp
  · simp only [Guest.send]
    rw [frames, payloads_append, speaks.errors]
    simp
  · intro sent
    exact absurd (unsent.symm.trans sent) (by simp)
  · simp only [Guest.send]
    rw [frames]
  · simp only [Guest.send, List.nil_append]
    rw [contents]
    simp [framing]

private theorem relayStreamIn_step (speaks : g.Speaks) (revents : Revents) (result : ReadResult)
    (forward : List UInt8 → Guest) (close : Guest)
    (idle : g.sentExit = true → revents.readable = false)
    (forwarded : g.sentExit = false → sbChunk + 8 ≤ sbRoom g.tx →
      ∀ bytes, bytes.length ≤ sbChunk → GuestStep g (forward bytes) [])
    (closed : g.sentExit = false → GuestStep g close []) :
    GuestStep g (relayStreamIn g revents result forward close) [] := by
  unfold relayStreamIn
  split
  · exact .refl speaks
  next taken =>
    simp only [not_or, not_not, Nat.not_lt] at taken
    have unsent : g.sentExit = false := by
      by_contra sent
      have := idle (by simpa using sent)
      simp [this] at taken
    cases result with
    | again => exact .refl speaks
    | failed => exact closed unsent
    | data bytes =>
      cases bytes with
      | nil => exact closed unsent
      | cons b rest => exact forwarded unsent taken.2.2 _ (List.length_take_le _ _)

theorem relayOutputIn_step (speaks : g.Speaks) (revents : Revents) (result : ReadResult)
    (idle : g.sentExit = true → revents.readable = false) :
    GuestStep g (relayOutputIn g revents result) [] := by
  apply relayStreamIn_step speaks revents result _ _ idle
  · intro unsent room bytes small
    simpa [Guest.send] using forward_step speaks unsent room .output (Or.inl rfl) bytes small
  · intro unsent
    refine .quiet speaks rfl rfl rfl rfl rfl fun sent => ?_
    exact absurd (unsent.symm.trans sent) (by simp)

theorem relayErrorsIn_step (speaks : g.Speaks) (revents : Revents) (result : ReadResult)
    (idle : g.sentExit = true → revents.readable = false) :
    GuestStep g (relayErrorsIn g revents result) [] := by
  apply relayStreamIn_step speaks revents result _ _ idle
  · intro unsent room bytes small
    simpa [Guest.send] using forward_step speaks unsent room .error (Or.inr rfl) bytes small
  · intro unsent
    refine .quiet speaks rfl rfl rfl rfl rfl fun sent => ?_
    exact absurd (unsent.symm.trans sent) (by simp)

/-! ### Frame conditions of the transfers -/

@[simp] theorem relayChannelIn_sentExit (g : Guest) (channel : Pipe) (revents : Revents)
    (choice : ReadChoice) : (relayChannelIn g channel revents choice).1.sentExit = g.sentExit := by
  unfold relayChannelIn
  split <;> rfl

@[simp] theorem relayChannelOut_sentExit (g : Guest) (revents : Revents) (result : WriteResult) :
    (relayChannelOut g revents result).1.sentExit = g.sentExit := by
  unfold relayChannelOut
  split <;> rfl

@[simp] theorem relayInputOut_sentExit (g : Guest) (revents : Revents) (result : WriteResult) :
    (relayInputOut g revents result).sentExit = g.sentExit := by
  unfold relayInputOut
  split
  · dsimp only; split <;> rfl
  · rfl

@[simp] theorem relayOutputIn_sentExit (g : Guest) (revents : Revents) (result : ReadResult) :
    (relayOutputIn g revents result).sentExit = g.sentExit := by
  unfold relayOutputIn relayStreamIn
  split
  · rfl
  · split <;> rfl

/-! ### An iteration -/

theorem relayIo_step (speaks : g.Speaks) (channel : Pipe) (ev : GuestEvents)
    (first second third fourth : Revents) (outputIdle : g.sentExit = true → third.readable = false)
    (errorsIdle : g.sentExit = true → fourth.readable = false) :
    GuestStep g (relayIo g channel ev first second third fourth).1
      (relayIo g channel ev first second third fourth).2.2 := by
  have step₁ := relayChannelIn_step speaks channel first ev.channelRead
  have step₂ := step₁.trans (relayChannelOut_step step₁.speaks first ev.channelWrite)
  have step₃ := step₂.trans (relayInputOut_step step₂.speaks second ev.inputWrite)
  have step₄ := step₃.trans
    (relayOutputIn_step step₃.speaks third ev.outputRead (by simpa using outputIdle))
  have step₅ := step₄.trans
    (relayErrorsIn_step step₄.speaks fourth ev.errorsRead (by simpa using errorsIdle))
  simpa [relayIo] using step₅

theorem relayTransfer_step (speaks : g.Speaks) (channel : Pipe) (ev : GuestEvents)
    (first second third fourth : Revents) :
    GuestStep g (relayTransfer g channel ev first second third fourth).1
      (relayTransfer g channel ev first second third fourth).2.2 := by
  -- After `EXIT` both streams are closed, so `poll` reports nothing for them.
  apply relayIo_step speaks channel ev
  · intro sent
    rw [(speaks.exit sent).2.1]
    rfl
  · intro sent
    rw [(speaks.exit sent).2.2]
    rfl

theorem relayAfterFrames_step (speaks : g.Speaks) (channel : Pipe) (ev : GuestEvents) :
    GuestStep g (relayAfterFrames g channel ev).1 (relayAfterFrames g channel ev).2.2 := by
  have closed := relayCloseInput_step speaks
  have before := closed.trans (relaySendExit_step closed.speaks)
  simp only [List.append_nil] at before
  have same (phase : GuestPhase) :
      GuestStep g { relaySendExit (relayCloseInput g) with phase } [] :=
    before.trans (.quiet before.speaks rfl rfl rfl rfl rfl fun _ => ⟨rfl, rfl, rfl, rfl⟩)
  unfold relayAfterFrames
  dsimp only
  split
  · exact same .finished
  · split
    · exact before
    · exact same _
    · exact before.trans (relayTransfer_step before.speaks channel ev _ _ _ _)

/-- One iteration of the guest: it keeps its language, and every byte of a frame it emits
is either on the channel or queued, in order. -/
theorem Guest.iterate_step (speaks : g.Speaks) (channel : Pipe) (ev : GuestEvents) :
    GuestStep g (g.iterate channel ev).1 (g.iterate channel ev).2.2 := by
  unfold Guest.iterate
  split
  · exact .refl speaks
  · have reaped := relayReap_step speaks ev.reaped
    have frames (rx : SbQueue) := reaped.trans
      (relayFrames_step reaped.speaks (relayReap g ev.reaped).rx rx)
    simp only [List.append_nil] at frames
    dsimp only
    split <;> rename_i rx g' loop <;> rw [loop] at frames
    · exact (frames rx).trans
        (.quiet (frames rx).speaks rfl rfl rfl rfl rfl fun _ => ⟨rfl, rfl, rfl, rfl⟩)
    · exact (frames rx).trans
        (.quiet (frames rx).speaks rfl rfl rfl rfl rfl fun _ => ⟨rfl, rfl, rfl, rfl⟩)
    · exact (frames rx).trans (relayAfterFrames_step (frames rx).speaks channel ev)
    · exact (frames rx).trans (relayAfterFrames_step (frames rx).speaks channel ev)

end LashOs.Console
