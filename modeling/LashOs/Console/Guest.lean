import LashOs.Console.Frame

/-!
# The guest's relay

One iteration of the loop in `relay` of `sandbox_init.c`. The environment's part of an
iteration (reaped processes, poll results, how much each call transfers) is a record of
choices. The `emitted`, `outputRead`, `errorsRead`, `inputWritten` and `closedAtEof`
fields record history; nothing reads them.
-/
namespace LashOs.Console

open Base

/-- The messages with which the loop calls `die`. -/
inductive DieStep where
  | packet | framing | poll
  deriving DecidableEq, Repr

def DieStep.text : DieStep → String
  | .packet => "console packet"
  | .framing => "console framing"
  | .poll => "console poll"

inductive GuestPhase where
  | running
  -- The loop ended with its `break`.
  | finished
  -- `power_down` after a channel failure or its end.
  | poweredDown
  | died (step : DieStep)
  deriving DecidableEq, Repr

/-- The variables of `relay`. A descriptor is represented by whether it is open; in
terminal mode `input` and `output` are the same one. -/
structure Guest where
  terminal : Bool
  rx : SbQueue
  tx : SbQueue
  in_ : SbQueue
  input : Bool
  output : Bool
  errors : Bool
  eof : Bool
  exited : Bool
  status : Nat
  sentExit : Bool
  phase : GuestPhase
  emitted : List Frame
  outputRead : List UInt8
  errorsRead : List UInt8
  inputWritten : List UInt8
  closedAtEof : Bool

/-- The environment's choices in one iteration. `reaped` lists what `waitpid` returned:
whether it was the shell, and its status. -/
structure GuestEvents where
  reaped : List (Bool × Nat)
  poll : PollResult
  channelRead : ReadChoice
  channelWrite : WriteResult
  inputWrite : WriteResult
  outputRead : ReadResult
  errorsRead : ReadResult

/-- The history of `sb_packet` calls: a refused frame is not recorded. -/
def record (frames : List Frame) (type : SbType) (payload : List UInt8) :
    Except Errno Unit → List Frame
  | .error _ => frames
  | .ok _ => if bounded : payload.length ≤ sbChunk then frames ++ [⟨type, payload, bounded⟩] else frames

/-- `sb_packet(tx, ...)`, whose result the relay ignores. -/
def Guest.send (g : Guest) (type : SbType) (payload : List UInt8) : Guest :=
  { g with
    tx := (sbPacket g.tx type.code payload).1
    emitted := record g.emitted type payload (sbPacket g.tx type.code payload).2 }

def Guest.start (terminal : Bool) : Guest :=
  { terminal, rx := .empty, tx := .empty, in_ := .empty,
    input := true, output := true, errors := !terminal,
    eof := false, exited := false, status := 125 * 256, sentExit := false, phase := .running,
    emitted := [], outputRead := [], errorsRead := [], inputWritten := [], closedAtEof := false
    : Guest }.send .ready []

def relayReap (g : Guest) (reaped : List (Bool × Nat)) : Guest :=
  if g.exited then g
  else reaped.foldl (fun g r => if r.1 then { g with status := r.2, exited := true } else g) g

def relayFrame (g : Guest) (type size : Nat) (data : List UInt8) : Verdict Guest :=
  if type = SbType.input.code ∧ ¬g.eof then
    if sbRoom g.in_ < size then .hold
    else if g.input then .next { g with in_ := (sbAppend g.in_ data).1 }
    else .next g
  else if type = SbType.eof.code ∧ size = 0 ∧ ¬g.eof then
    if g.terminal ∧ g.input then
      if sbRoom g.in_ = 0 then .hold
      else .next { g with in_ := (sbAppend g.in_ [4]).1, eof := true }
    else .next { g with eof := true }
  else if type = SbType.window.code ∧ size = 8 then
    -- TIOCSWINSZ on the terminal; nothing the relay reads changes.
    .next g
  else .reject

/-- `close(input)` after the end of the input, in pipe mode only. -/
def relayCloseInput (g : Guest) : Guest :=
  if g.eof ∧ ¬g.terminal ∧ g.input ∧ sbSize g.in_ = 0 then
    { g with input := false, closedAtEof := true }
  else g

/-- `WIFEXITED(status) ? WEXITSTATUS(status) : 128 + WTERMSIG(status)` -/
def exitCode (status : Nat) : Nat :=
  if status % 128 = 0 then status / 256 % 256 else 128 + status % 128

theorem exitCode_le (status : Nat) : exitCode status ≤ 255 := by
  unfold exitCode
  split <;> omega

def relaySendExit (g : Guest) : Guest :=
  if g.exited ∧ ¬g.output ∧ ¬g.errors ∧ ¬g.sentExit ∧ 12 ≤ sbRoom g.tx then
    { g.send .exit (leBytes 4 (exitCode g.status)) with sentExit := true }
  else g

/-- `sb_receive(channel, rx) <= 0` powers the guest down. -/
def relayChannelIn (g : Guest) (channel : Pipe) (revents : Revents) (choice : ReadChoice) :
    Guest × Pipe :=
  if revents.readable then
    let (got, rx, channel) := sbReceive channel g.rx choice
    ({ g with rx, phase := if got ≤ 0 then .poweredDown else g.phase }, channel)
  else (g, channel)

/-- `sb_flush(channel, tx)`, with the bytes that went into the channel. -/
def relayChannelOut (g : Guest) (revents : Revents) (result : WriteResult) :
    Guest × List UInt8 :=
  if g.phase = .running ∧ revents.pollout then
    let (failed, tx, written) := sbFlush g.tx result
    ({ g with tx, phase := if failed ≠ 0 then .poweredDown else g.phase }, written)
  else (g, [])

/-- `sb_flush(input, in)`. A failure closes the shell's input and drops what was queued. -/
def relayInputOut (g : Guest) (revents : Revents) (result : WriteResult) : Guest :=
  if g.phase = .running ∧ revents.writable ∧ sbSize g.in_ ≠ 0 then
    let (failed, in_, written) := sbFlush g.in_ result
    if failed ≠ 0 then { g with input := false, in_ := in_.reset }
    else { g with in_, inputWritten := g.inputWritten ++ written }
  else g

/-- The body of the last loop: a read of the shell's output or error stream, taken only
while `tx` has room for a whole frame. -/
def relayStreamIn (g : Guest) (revents : Revents) (result : ReadResult)
    (forward : List UInt8 → Guest) (close : Guest) : Guest :=
  if g.phase ≠ .running ∨ ¬revents.readable ∨ sbRoom g.tx < sbChunk + 8 then g
  else
    match result with
    | .again => g
    | .data (b :: rest) => forward ((b :: rest).take sbChunk)
    | .data [] => close
    | .failed => close

def relayOutputIn (g : Guest) (revents : Revents) (result : ReadResult) : Guest :=
  relayStreamIn g revents result
    (fun bytes => { g.send .output bytes with outputRead := g.outputRead ++ bytes })
    { g with output := false, input := g.input && !g.terminal }

def relayErrorsIn (g : Guest) (revents : Revents) (result : ReadResult) : Guest :=
  relayStreamIn g revents result
    (fun bytes => { g.send .error bytes with errorsRead := g.errorsRead ++ bytes })
    { g with errors := false }

/-- The transfers after `poll`: the guest, the channel and what was written to it. -/
def relayIo (g : Guest) (channel : Pipe) (ev : GuestEvents)
    (first second third fourth : Revents) : Guest × Pipe × List UInt8 :=
  let (g, channel) := relayChannelIn g channel first ev.channelRead
  let (g, written) := relayChannelOut g first ev.channelWrite
  let g := relayInputOut g second ev.inputWrite
  let g := relayOutputIn g third ev.outputRead
  let g := relayErrorsIn g fourth ev.errorsRead
  (g, channel, written)

/-- The poll set. An entry without requested events has its descriptor replaced by -1. -/
def relayTransfer (g : Guest) (channel : Pipe) (ev : GuestEvents)
    (first second third fourth : Revents) : Guest × Pipe × List UInt8 :=
  let channelIn := decide (sbChunk ≤ sbRoom g.rx)
  let channelOut := decide (sbSize g.tx ≠ 0)
  let space := decide (sbChunk + 8 ≤ sbRoom g.tx)
  let inputOut := decide (sbSize g.in_ ≠ 0)
  relayIo g channel ev
    (first.report (channelIn || channelOut) channelIn channelOut)
    (second.report (g.input && inputOut) false inputOut)
    (third.report (g.output && space) space false)
    (fourth.report (g.errors && space) space false)

/-- What follows the frame loop. -/
def relayAfterFrames (g : Guest) (channel : Pipe) (ev : GuestEvents) : Guest × Pipe × List UInt8 :=
  let g := relaySendExit (relayCloseInput g)
  if g.sentExit ∧ sbSize g.tx = 0 then ({ g with phase := .finished }, channel, [])
  else
    match ev.poll with
    | .interrupted => (g, channel, [])
    | .failed => ({ g with phase := .died .poll }, channel, [])
    | .ready first second third fourth => relayTransfer g channel ev first second third fourth

/-- One iteration of `relay`: the guest, the channel from the launcher, and the bytes
written to the channel to the launcher. -/
def Guest.iterate (g : Guest) (channel : Pipe) (ev : GuestEvents) : Guest × Pipe × List UInt8 :=
  if g.phase ≠ .running then (g, channel, [])
  else
    let g := relayReap g ev.reaped
    match frameLoop relayFrame g.rx g with
    | (rx, g, .rejected) => ({ g with rx, phase := .died .packet }, channel, [])
    | (rx, g, .malformed) => ({ g with rx, phase := .died .framing }, channel, [])
    | (rx, g, .waiting) => relayAfterFrames { g with rx } channel ev
    | (rx, g, .held) => relayAfterFrames { g with rx } channel ev

end LashOs.Console
