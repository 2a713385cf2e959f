import LashOs.Console.Guest

/-!
# The launcher's relay

One iteration of the loop in `console_relay` of `sandbox_host.c`, with every way it can
leave the loop. The diagnostic logs, which the loop only drains, are left out. The
`emitted`, `inputRead`, `outWritten` and `errWritten` fields record history.
-/
namespace LashOs.Console

open Base

/-- How `console_relay` left its loop. -/
inductive HostEnd where
  -- The exit status arrived and both output queues are empty.
  | exited
  | interrupted
  | disconnected
  | timedOut
  | pollFailed
  | channelFailed
  | brokenPipe
  | protocolError
  deriving DecidableEq, Repr

inductive HostPhase where
  | running
  | returned (why : HostEnd)
  deriving DecidableEq, Repr

/-- `sb_stream.kind` -/
inductive StreamKind where
  | direct | socket | private_ | gated
  deriving DecidableEq, Repr

/-- `PIPE_BUF` -/
def pipeBuf : Nat := 4096

/-- `struct winsize` -/
structure Winsize where
  row : UInt16
  col : UInt16
  xpixel : UInt16
  ypixel : UInt16
  deriving DecidableEq, Repr

def Winsize.bytes (w : Winsize) : List UInt8 :=
  leBytes 2 w.row.toNat ++ leBytes 2 w.col.toNat ++ leBytes 2 w.xpixel.toNat ++
    leBytes 2 w.ypixel.toNat

@[simp] theorem Winsize.length_bytes (w : Winsize) : w.bytes.length = 8 := by
  simp [Winsize.bytes]

/-- The variables of `console_relay` and the flags its signal handler sets;
`interrupted` is 0 or a signal number, `active` is `terminal->active`. -/
structure Host where
  active : Bool
  outKind : StreamKind
  errKind : StreamKind
  rx : SbQueue
  tx : SbQueue
  out : SbQueue
  err : SbQueue
  interrupted : Nat
  resized : Bool
  suspended : Bool
  continued : Bool
  result : Nat
  eof : Bool
  receivedExit : Bool
  ready : Bool
  connected : Bool
  phase : HostPhase
  emitted : List Frame
  inputRead : List UInt8
  outWritten : List UInt8
  errWritten : List UInt8

/-- The environment's choices in one iteration. `raw` is whether a continued launcher is
in the foreground and could make the terminal raw; `window` is what `TIOCGWINSZ` gives. -/
structure HostEvents where
  raw : Bool
  window : Option Winsize
  late : Bool
  poll : PollResult
  channelRead : ReadChoice
  channelWrite : WriteResult
  inputRead : ReadResult
  outWrite : WriteResult
  errWrite : WriteResult

def Host.start (active : Bool) (outKind errKind : StreamKind) : Host :=
  { active, outKind, errKind, rx := .empty, tx := .empty, out := .empty, err := .empty,
    interrupted := 0, resized := false, suspended := false, continued := false,
    result := 125, eof := false, receivedExit := false, ready := false, connected := true,
    phase := .running, emitted := [], inputRead := [], outWritten := [], errWritten := [] }

def Host.leave (h : Host) (why : HostEnd) : Host := { h with phase := .returned why }

/-- `sb_packet(tx, ...)`, whose result the relay ignores. -/
def Host.send (h : Host) (type : SbType) (payload : List UInt8) : Host :=
  { h with
    tx := (sbPacket h.tx type.code payload).1
    emitted := record h.emitted type payload (sbPacket h.tx type.code payload).2 }

/-- Signal handler. `SIGWINCH`, `SIGTSTP` and `SIGCONT` are 28, 20 and 18; the first of
the other signals is kept. -/
def caughtSignal (h : Host) (signo : Nat) : Host :=
  if signo = 28 then { h with resized := true }
  else if signo = 20 then { h with suspended := true }
  else if signo = 18 then { h with continued := true }
  else if h.interrupted = 0 then { h with interrupted := signo }
  else h

/-- A stopped launcher has been continued when `raise(SIGSTOP)` returns. -/
def consoleResume (h : Host) (raw : Bool) : Host :=
  let h := if h.suspended then { h with suspended := false, continued := true } else h
  if h.continued then { h with continued := false, resized := h.resized || (h.active && raw) } else h

def consoleResize (h : Host) (window : Option Winsize) : Host :=
  if h.resized ∧ h.active ∧ 16 ≤ sbRoom h.tx then
    match window with
    | some w => { h.send .window w.bytes with resized := false }
    | none => { h with resized := false }
  else h

def consoleFrame (h : Host) (type size : Nat) (data : List UInt8) : Verdict Host :=
  if (type = SbType.output.code ∨ type = SbType.error.code) ∧ ¬h.receivedExit then
    if type = SbType.output.code then
      if sbRoom h.out < size then .hold else .next { h with out := (sbAppend h.out data).1 }
    else
      if sbRoom h.err < size then .hold else .next { h with err := (sbAppend h.err data).1 }
  else if type = SbType.ready.code ∧ size = 0 ∧ ¬h.ready ∧ ¬h.receivedExit then
    .next { h with ready := true }
  else if type = SbType.exit.code ∧ size = 4 ∧ ¬h.receivedExit then
    if leValue data > 255 then .reject
    else .next { h with receivedExit := true, result := leValue data, tx := h.tx.reset }
  else .reject

/-- A receive that fails or finds the end of the channel disconnects. -/
def consoleChannelIn (h : Host) (channel : Pipe) (revents : Revents) (choice : ReadChoice) :
    Host × Pipe :=
  if revents.readable then
    let (got, rx, channel) := sbReceive channel h.rx choice
    if got ≤ 0 then ({ h with rx, connected := false, tx := h.tx.reset }, channel)
    else ({ h with rx }, channel)
  else (h, channel)

/-- `sb_flush(channel, tx)`, with the bytes that went into the channel. -/
def consoleChannelOut (h : Host) (revents : Revents) (result : WriteResult) :
    Host × List UInt8 :=
  if h.connected ∧ revents.pollout then
    let (failed, tx, written) := sbFlush h.tx result
    (if failed ≠ 0 then { h with tx }.leave .channelFailed else { h with tx }, written)
  else (h, [])

def consoleInputIn (h : Host) (revents : Revents) (result : ReadResult) : Host :=
  if h.phase = .running ∧ revents.readable then
    match result with
    | .again => h
    | .data (b :: rest) =>
      let bytes := (b :: rest).take sbChunk
      { h.send .input bytes with inputRead := h.inputRead ++ bytes }
    | .data [] => { h.send .eof [] with eof := true }
    | .failed => { h.send .eof [] with eof := true }
  else h

/-- A gated stream is written at most `PIPE_BUF` bytes at a time. -/
def streamFlush (kind : StreamKind) (q : SbQueue) (result : WriteResult) :
    Int × SbQueue × List UInt8 :=
  if sbSize q = 0 then (0, q, [])
  else flushUpTo q (if kind = .gated ∧ sbSize q > pipeBuf then pipeBuf else sbSize q) result

def consoleOut (h : Host) (revents : Revents) (result : WriteResult) : Host :=
  if h.phase = .running ∧ revents.writable then
    let (failed, out, written) := streamFlush h.outKind h.out result
    let h := { h with out, outWritten := h.outWritten ++ written }
    if failed ≠ 0 then { h with result := 141 }.leave .brokenPipe else h
  else h

def consoleErr (h : Host) (revents : Revents) (result : WriteResult) : Host :=
  if h.phase = .running ∧ revents.writable then
    let (failed, err, written) := streamFlush h.errKind h.err result
    let h := { h with err, errWritten := h.errWritten ++ written }
    if failed ≠ 0 then { h with result := 141 }.leave .brokenPipe else h
  else h

/-- The transfers after `poll`: the launcher, the channel and what was written to it. -/
def consoleIo (h : Host) (channel : Pipe) (ev : HostEvents)
    (first second third fourth : Revents) : Host × Pipe × List UInt8 :=
  let (h, channel) := consoleChannelIn h channel first ev.channelRead
  let (h, written) := consoleChannelOut h first ev.channelWrite
  let h := consoleInputIn h second ev.inputRead
  let h := consoleOut h third ev.outWrite
  let h := consoleErr h fourth ev.errWrite
  (h, channel, written)

def consoleTransfer (h : Host) (channel : Pipe) (ev : HostEvents)
    (first second third fourth : Revents) : Host × Pipe × List UInt8 :=
  let channelIn := decide (sbChunk ≤ sbRoom h.rx)
  let channelOut := decide (sbSize h.tx ≠ 0)
  let space := decide (sbChunk + 8 ≤ sbRoom h.tx)
  consoleIo h channel ev
    (first.report (h.connected && !h.receivedExit && (channelIn || channelOut)) channelIn channelOut)
    (second.report (!h.eof && !h.receivedExit && space) true false)
    (third.report (decide (sbSize h.out ≠ 0)) false true)
    (fourth.report (decide (sbSize h.err ≠ 0)) false true)

/-- What follows the frame loop; `waiting` is `frame == 0`. -/
def consoleAfterFrames (h : Host) (waiting : Bool) (channel : Pipe) (ev : HostEvents) :
    Host × Pipe × List UInt8 :=
  if h.receivedExit ∧ sbSize h.out = 0 ∧ sbSize h.err = 0 then (h.leave .exited, channel, [])
  else if ¬h.connected ∧ waiting ∧ ¬h.receivedExit then (h.leave .disconnected, channel, [])
  else if ¬h.ready ∧ ev.late then (h.leave .timedOut, channel, [])
  else
    match ev.poll with
    | .interrupted => (h, channel, [])
    | .failed => (h.leave .pollFailed, channel, [])
    | .ready first second third fourth => consoleTransfer h channel ev first second third fourth

/-- The label `protocol_error`. -/
def Host.protocolError (h : Host) : Host :=
  { h with result := 125, receivedExit := false }.leave .protocolError

/-- One iteration of `console_relay`: the launcher, the channel from the guest, and the
bytes written to the channel to the guest. -/
def Host.iterate (h : Host) (channel : Pipe) (ev : HostEvents) : Host × Pipe × List UInt8 :=
  if h.phase ≠ .running then (h, channel, [])
  else if h.interrupted ≠ 0 then
    ({ h with result := 128 + h.interrupted }.leave .interrupted, channel, [])
  else
    let h := consoleResize (consoleResume h ev.raw) ev.window
    match frameLoop consoleFrame h.rx h with
    | (rx, h, .rejected) => ({ h with rx }.protocolError, channel, [])
    | (rx, h, .malformed) => ({ h with rx }.protocolError, channel, [])
    | (rx, h, .waiting) => consoleAfterFrames { h with rx } true channel ev
    | (rx, h, .held) => consoleAfterFrames { h with rx } false channel ev

/-- The value stored through `failed`: only launcher failures print diagnostics. -/
def Host.failed (h : Host) : Bool := !h.receivedExit && h.result == 125

/-! ### Frame conditions -/

@[simp] theorem consoleResume_rx (h : Host) (raw : Bool) : (consoleResume h raw).rx = h.rx := by
  unfold consoleResume
  dsimp only
  split <;> split <;> rfl

@[simp] theorem consoleResize_rx (h : Host) (window : Option Winsize) :
    (consoleResize h window).rx = h.rx := by
  unfold consoleResize
  split
  · split <;> rfl
  · rfl

@[simp] theorem consoleResume_phase (h : Host) (raw : Bool) :
    (consoleResume h raw).phase = h.phase := by
  unfold consoleResume
  dsimp only
  split <;> split <;> rfl

@[simp] theorem consoleResize_phase (h : Host) (window : Option Winsize) :
    (consoleResize h window).phase = h.phase := by
  unfold consoleResize
  split
  · split <;> rfl
  · rfl

@[simp] theorem consoleChannelIn_phase (h : Host) (channel : Pipe) (revents : Revents)
    (choice : ReadChoice) : (consoleChannelIn h channel revents choice).1.phase = h.phase := by
  unfold consoleChannelIn
  split
  · dsimp only; split <;> rfl
  · rfl

@[simp] theorem consoleChannelIn_receivedExit (h : Host) (channel : Pipe) (revents : Revents)
    (choice : ReadChoice) :
    (consoleChannelIn h channel revents choice).1.receivedExit = h.receivedExit := by
  unfold consoleChannelIn
  split
  · dsimp only; split <;> rfl
  · rfl

@[simp] theorem consoleChannelOut_rx (h : Host) (revents : Revents) (result : WriteResult) :
    (consoleChannelOut h revents result).1.rx = h.rx := by
  unfold consoleChannelOut
  split
  · dsimp only; split <;> rfl
  · rfl

@[simp] theorem consoleInputIn_rx (h : Host) (revents : Revents) (result : ReadResult) :
    (consoleInputIn h revents result).rx = h.rx := by
  unfold consoleInputIn
  split
  · split <;> rfl
  · rfl

theorem consoleFrame_phase {h h' : Host} {type size : Nat} {data : List UInt8}
    (handled : consoleFrame h type size data = .next h') : h'.phase = h.phase := by
  unfold consoleFrame at handled
  repeat' split at handled
  all_goals cases handled
  all_goals rfl

/-! ### The two streams -/

inductive Output where
  | out
  | err
deriving DecidableEq

def Output.type : Output → SbType
  | out => .output
  | err => .error

theorem Output.code_inj {o o' : Output} (same : o.type.code = o'.type.code) : o = o' := by
  revert same
  cases o <;> cases o' <;> decide

theorem Output.type_inj {o o' : Output} (same : o.type = o'.type) : o = o' :=
  Output.code_inj (congrArg SbType.code same)

def Host.queue (h : Host) : Output → SbQueue
  | .out => h.out
  | .err => h.err

def Host.kind (h : Host) : Output → StreamKind
  | .out => h.outKind
  | .err => h.errKind

def Host.written (h : Host) : Output → List UInt8
  | .out => h.outWritten
  | .err => h.errWritten

def Host.setQueue (h : Host) (q : SbQueue) : Output → Host
  | .out => { h with out := q }
  | .err => { h with err := q }

/-- `stream_flush` has written some bytes and left a queue. -/
def Host.flushed (h : Host) (q : SbQueue) (bytes : List UInt8) : Output → Host
  | .out => { h with out := q, outWritten := h.outWritten ++ bytes }
  | .err => { h with err := q, errWritten := h.errWritten ++ bytes }

/-- `consoleOut` and `consoleErr`. -/
def Host.flush (h : Host) (o : Output) (revents : Revents) (result : WriteResult) : Host :=
  if h.phase = .running ∧ revents.writable then
    let (failed, q, bytes) := streamFlush (h.kind o) (h.queue o) result
    if failed ≠ 0 then { h.flushed q bytes o with result := 141 }.leave .brokenPipe
    else h.flushed q bytes o
  else h

section Streams

variable (h : Host) (q : SbQueue) (bytes : List UInt8) (o : Output)

theorem Host.queue_setQueue (o' : Output) :
    (h.setQueue q o).queue o' = if o' = o then q else h.queue o' := by
  cases o <;> cases o' <;> rfl

theorem Host.queue_flushed (o' : Output) :
    (h.flushed q bytes o).queue o' = if o' = o then q else h.queue o' := by
  cases o <;> cases o' <;> rfl

theorem Host.written_flushed (o' : Output) :
    (h.flushed q bytes o).written o' = h.written o' ++ if o' = o then bytes else [] := by
  cases o <;> cases o' <;> simp [Host.flushed, Host.written]

end Streams

theorem consoleOut_eq (h : Host) (revents : Revents) (result : WriteResult) :
    consoleOut h revents result = h.flush .out revents result := rfl

theorem consoleErr_eq (h : Host) (revents : Revents) (result : WriteResult) :
    consoleErr h revents result = h.flush .err revents result := rfl

@[simp] theorem Host.flush_rx (h : Host) (o : Output) (revents : Revents) (result : WriteResult) :
    (h.flush o revents result).rx = h.rx := by
  unfold Host.flush
  split
  · dsimp only
    split <;> cases o <;> rfl
  · rfl

end LashOs.Console
