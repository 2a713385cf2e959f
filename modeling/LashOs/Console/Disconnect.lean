import LashOs.Console.HostOutput

/-!
# Output before a failure of the VM

The launcher's relay against a VM that may send anything and hang up at any point. The bytes
that it has received determine the output that it owes, and it accounts for all of it: what it
has written, what its output queues hold, and what is in complete frames not yet handled.
-/
namespace LashOs.Console

open Base

/-- The launcher, the channel it reads, and everything that the VM has sent. -/
structure Launcher where
  host : Host
  channel : Pipe
  sent : List UInt8

inductive VmAction where
  | sends (bytes : List UInt8)
  | hangsUp
  | host (ev : HostEvents)
  | signal (signo : Nat)

def Launcher.start (active : Bool) (outKind errKind : StreamKind) : Launcher :=
  ⟨.start active outKind errKind, ⟨[], false⟩, []⟩

def Launcher.step (l : Launcher) : VmAction → Launcher
  | .sends bytes =>
    if l.channel.closed then l
    else { l with
      channel := { l.channel with bytes := l.channel.bytes ++ bytes }
      sent := l.sent ++ bytes }
  | .hangsUp => { l with channel := { l.channel with closed := true } }
  | .host ev =>
    let (host, channel, _) := l.host.iterate l.channel ev
    { l with host, channel }
  | .signal signo => { l with host := caughtSignal l.host signo }

def Launcher.run (l : Launcher) (actions : List VmAction) : Launcher :=
  Base.run Launcher.step l actions

/-! ### Frames in any byte string -/

variable {bytes : List UInt8} {data : List UInt8}

theorem peekBytes_frame {type size : Nat} (found : peekBytes bytes = .frame type size data) :
    data.length = size ∧ 8 + size ≤ bytes.length := by
  unfold peekBytes at found
  split at found
  · cases found
  next header =>
    dsimp only at found
    split at found
    · cases found
    · split at found
      · cases found
      next whole =>
        cases found
        rw [List.length_take, List.length_drop]
        omega

theorem peekBytes_append {type size : Nat} (found : peekBytes bytes = .frame type size data)
    (later : List UInt8) : peekBytes (bytes ++ later) = .frame type size data := by
  obtain ⟨-, stored⟩ := peekBytes_frame found
  have longer : bytes.length ≤ (bytes ++ later).length := by simp
  unfold peekBytes at found ⊢
  rw [if_neg (by omega)] at found ⊢
  rw [List.take_append_of_le_length (by omega), List.drop_append_of_le_length (by omega),
    List.take_append_of_le_length (by rw [List.length_drop]; omega)]
  dsimp only at found ⊢
  split at found
  · cases found
  next bounded =>
    split at found
    · cases found
    next whole =>
      cases found
      rw [if_neg bounded, if_neg (by omega), List.drop_append_of_le_length (by omega),
        List.take_append_of_le_length (by rw [List.length_drop]; omega)]

theorem length_of_incomplete (waiting : peekBytes bytes = .incomplete) :
    bytes.length < 8 + sbChunk := by
  unfold peekBytes at waiting
  split at waiting
  · omega
  · dsimp only at waiting
    split at waiting
    · cases waiting
    · split at waiting
      · omega
      · cases waiting

/-- The payloads of the complete frames of one type, in their order, at the front of any bytes. -/
def framePayloads (type : SbType) (bytes : List UInt8) : List UInt8 :=
  match _found : peekBytes bytes with
  | .frame code size data =>
    (if code = type.code then data else []) ++ framePayloads type (bytes.drop (8 + size))
  | .incomplete => []
  | .invalid => []
  termination_by bytes.length
  decreasing_by
    have := (peekBytes_frame _found).2
    rw [List.length_drop]
    omega

theorem framePayloads_incomplete (type : SbType) (waiting : peekBytes bytes = .incomplete) :
    framePayloads type bytes = [] := by
  unfold framePayloads
  split
  next found => rw [waiting] at found; cases found
  · rfl
  · rfl

theorem framePayloads_frame (type : SbType) {code size : Nat}
    (found : peekBytes bytes = .frame code size data) (later : List UInt8) :
    framePayloads type (bytes ++ later) =
      (if code = type.code then data else []) ++
        framePayloads type (bytes.drop (8 + size) ++ later) := by
  have stored := (peekBytes_frame found).2
  have seen := peekBytes_append found later
  conv_lhs => unfold framePayloads
  split
  next found' =>
    rw [seen] at found'
    cases found'
    rw [List.drop_append_of_le_length stored]
  next found' => rw [seen] at found'; cases found'
  next found' => rw [seen] at found'; cases found'

/-- Proof rule for the frame loop on any bytes. `P` relates the relay to the bytes it has not
handled. When the loop waits, no complete frame is left; a frame that it holds is one that the
handler holds. -/
theorem frameLoop_bytes {σ : Type} (handle : σ → Nat → Nat → List UInt8 → Verdict σ)
    (P : σ → List UInt8 → Prop)
    (step : ∀ s bytes type size data s', peekBytes bytes = .frame type size data →
      handle s type size data = .next s' → P s bytes → P s' (bytes.drop (8 + size)))
    (rx : SbQueue) (s : σ) (valid : rx.Valid) (holds : P s rx.contents) :
    (frameLoop handle rx s).1.Valid ∧
    P (frameLoop handle rx s).2.1 (frameLoop handle rx s).1.contents ∧
    ((frameLoop handle rx s).2.2 = .waiting →
      peekBytes (frameLoop handle rx s).1.contents = .incomplete) ∧
    ((frameLoop handle rx s).2.2 = .held → ∃ type size data,
      peekBytes (frameLoop handle rx s).1.contents = .frame type size data ∧
      handle (frameLoop handle rx s).2.1 type size data = .hold) := by
  fun_induction frameLoop handle rx s with
  | case1 rx s found =>
    rw [sbPeek_eq valid] at found
    refine ⟨valid, holds, fun _ => found, ?_⟩
    simp
  | case2 rx s found =>
    refine ⟨valid, holds, ?_⟩
    simp
  | case3 rx s type size data found held =>
    rw [sbPeek_eq valid] at found
    refine ⟨valid, holds, ?_, fun _ => ⟨type, size, data, found, held⟩⟩
    simp
  | case4 rx s type size data found rejected =>
    refine ⟨valid, holds, ?_⟩
    simp
  | case5 rx s type size data found s' handled ih =>
    obtain ⟨valid', contents'⟩ := sbConsume_spec valid _ (sbPeek_stored found)
    rw [sbPeek_eq valid] at found
    apply ih valid'
    rw [contents']
    exact step s _ type size data s' found handled holds

/-! ### What the launcher owes -/

theorem consoleFrame_next {h h' : Host} {type size : Nat} {data : List UInt8}
    (handled : consoleFrame h type size data = .next h') :
    (∃ o : Output, type = o.type.code ∧ size ≤ sbRoom (h.queue o) ∧
      h' = h.setQueue (sbAppend (h.queue o) data).1 o) ∨
    (∀ o : Output, type ≠ o.type.code) ∧ (h' = { h with ready := true } ∨
      ∃ result, h' = { h with receivedExit := true, result, tx := h.tx.reset }) := by
  unfold consoleFrame at handled
  split at handled
  next chatter =>
    split at handled
    next output =>
      split at handled
      · cases handled
      next room =>
        cases handled
        exact .inl ⟨.out, output, Nat.not_lt.mp room, rfl⟩
    next output =>
      split at handled
      · cases handled
      next room =>
        cases handled
        exact .inl ⟨.err, chatter.1.resolve_left output, Nat.not_lt.mp room, rfl⟩
  · split at handled
    next ready =>
      cases handled
      refine .inr ⟨fun o => ?_, .inl rfl⟩
      rw [ready.1]
      cases o <;> decide
    · split at handled
      next exits =>
        split at handled
        · cases handled
        · cases handled
          refine .inr ⟨fun o => ?_, .inr ⟨_, rfl⟩⟩
          rw [exits.1]
          cases o <;> decide
      · cases handled

/-- The output that is still to be written to a stream once `later` has arrived behind what is in
the receive queue. -/
def Host.owes (h : Host) (o : Output) (later : List UInt8) : List UInt8 :=
  (h.queue o).contents ++ framePayloads o.type (h.rx.contents ++ later)

structure Host.Stored (h : Host) : Prop where
  rx : h.rx.Valid
  queue : ∀ o, (h.queue o).Valid

/-- `h` has become `s` without a transfer, and `bytes` are not yet handled: nothing is written, and
what is owed is as before. Frames may have been handled, among them the exit status. -/
structure Host.Handles (h s : Host) (bytes : List UInt8) : Prop where
  phase : s.phase = h.phase
  connected : s.connected = h.connected
  kind : ∀ o, s.kind o = h.kind o
  written : ∀ o, s.written o = h.written o
  exit : h.receivedExit = true → s.receivedExit = true
  owes : ∀ o later, (s.queue o).contents ++ framePayloads o.type (bytes ++ later) = h.owes o later

/-- The same with the unhandled bytes in the receive queue. -/
abbrev Host.Advances (h h' : Host) : Prop := h.Handles h' h'.rx.contents

theorem Host.Handles.trans {h h' h'' : Host} (first : h.Advances h')
    (second : h'.Handles h'' bytes) : h.Handles h'' bytes where
  phase := second.phase.trans first.phase
  connected := second.connected.trans first.connected
  kind o := (second.kind o).trans (first.kind o)
  written o := (second.written o).trans (first.written o)
  exit before := second.exit (first.exit before)
  owes o later := (second.owes o later).trans (first.owes o later)

theorem consoleResume_advances (h : Host) (raw : Bool) :
    h.Advances (consoleResume h raw) ∧ ∀ o, (consoleResume h raw).queue o = h.queue o := by
  unfold consoleResume
  dsimp only
  split <;> split <;>
    exact ⟨⟨rfl, rfl, fun _ => rfl, fun _ => rfl, id, fun _ _ => rfl⟩, fun _ => rfl⟩

theorem consoleResize_advances (h : Host) (window : Option Winsize) :
    h.Advances (consoleResize h window) ∧ ∀ o, (consoleResize h window).queue o = h.queue o := by
  unfold consoleResize
  split
  · split <;> exact ⟨⟨rfl, rfl, fun _ => rfl, fun _ => rfl, id, fun _ _ => rfl⟩, fun _ => rfl⟩
  · exact ⟨⟨rfl, rfl, fun _ => rfl, fun _ => rfl, id, fun _ _ => rfl⟩, fun _ => rfl⟩

/-- A frame moves from the unhandled bytes to the queue of its stream, or has no output. -/
theorem consoleFrame_handles {h s s' : Host} {bytes data : List UInt8} {type size : Nat}
    (found : peekBytes bytes = .frame type size data)
    (handled : consoleFrame s type size data = .next s')
    (before : h.Handles s bytes ∧ ∀ o, (s.queue o).Valid) :
    h.Handles s' (bytes.drop (8 + size)) ∧ ∀ o, (s'.queue o).Valid := by
  obtain ⟨⟨phase, connected, kind, written, exit, owes⟩, valid⟩ := before
  obtain ⟨length, -⟩ := peekBytes_frame found
  rcases consoleFrame_next handled with ⟨o, code, room, rfl⟩ | ⟨other, changed⟩
  · obtain ⟨q, appended, valid', contents⟩ := sbAppend_spec (valid o) data (by omega)
    rw [appended]
    have stored (o' : Output) : ((s.setQueue q o).queue o').Valid := by
      rw [Host.queue_setQueue]
      split
      · exact valid'
      · exact valid o'
    have moved (o' : Output) (later : List UInt8) : ((s.setQueue q o).queue o').contents ++
        framePayloads o'.type (bytes.drop (8 + size) ++ later) = h.owes o' later := by
      rw [← owes, framePayloads_frame o'.type found, Host.queue_setQueue]
      by_cases same : o' = o
      · rw [if_pos same, same, contents, if_pos code, List.append_assoc]
      · rw [if_neg same, if_neg fun code' => same (Output.code_inj (code'.symm.trans code)),
          List.nil_append]
    cases o <;> exact ⟨⟨phase, connected, kind, written, exit, moved⟩, stored⟩
  · have moved (o' : Output) (later : List UInt8) : (s.queue o').contents ++
        framePayloads o'.type (bytes.drop (8 + size) ++ later) = h.owes o' later := by
      rw [← owes, framePayloads_frame o'.type found, if_neg (other o'), List.nil_append]
    rcases changed with rfl | ⟨result, rfl⟩
    · exact ⟨⟨phase, connected, kind, written, exit, moved⟩, valid⟩
    · exact ⟨⟨phase, connected, kind, written, fun _ => rfl, moved⟩, valid⟩

/-- The relay behind its frame loop, and how the loop ended. -/
def Host.handled (h : Host) (ev : HostEvents) : Host × LoopEnd :=
  let h := consoleResize (consoleResume h ev.raw) ev.window
  let loop := frameLoop consoleFrame h.rx h
  ({ loop.2.1 with rx := loop.1 }, loop.2.2)

theorem Host.handled_advances {h : Host} (stored : h.Stored) (ev : HostEvents) :
    h.Advances (h.handled ev).1 ∧ (h.handled ev).1.Stored := by
  obtain ⟨resumed, queue⟩ := consoleResume_advances h ev.raw
  obtain ⟨resized, queue'⟩ := consoleResize_advances (consoleResume h ev.raw) ev.window
  have rx : (consoleResize (consoleResume h ev.raw) ev.window).rx.Valid := by simpa using stored.rx
  unfold Host.handled
  dsimp only
  generalize consoleResize (consoleResume h ev.raw) ev.window = g at *
  have valid (o : Output) : (g.queue o).Valid := by
    rw [queue', queue]
    exact stored.queue o
  obtain ⟨valid', ⟨handles, valid''⟩, -⟩ := frameLoop_bytes consoleFrame
    (fun s bytes => g.Handles s bytes ∧ ∀ o, (s.queue o).Valid)
    (fun _ _ _ _ _ _ found handled before => consoleFrame_handles found handled before)
    g.rx g rx ⟨⟨rfl, rfl, fun _ => rfl, fun _ => rfl, id, fun _ _ => rfl⟩, valid⟩
  obtain ⟨phase, connected, kind, written, exit, owes⟩ := (resumed.trans resized).trans handles
  exact ⟨⟨phase, connected, kind, written, exit, owes⟩, valid', valid''⟩

theorem Host.handled_waiting {h : Host} (valid : h.rx.Valid) {ev : HostEvents}
    (ended : (h.handled ev).2 = .waiting) :
    peekBytes (h.handled ev).1.rx.contents = .incomplete := by
  have rx : (consoleResize (consoleResume h ev.raw) ev.window).rx.Valid := by simpa using valid
  exact (frameLoop_bytes consoleFrame (fun _ _ => True) (fun _ _ _ _ _ _ _ _ _ => trivial) _ _ rx
    trivial).2.2.1 ended

/-- A frame of output at the head of the receive queue for which there is no room. -/
def Host.Holds (p : Host) : Prop :=
  ∃ size data, ∃ o : Output,
    peekBytes p.rx.contents = .frame o.type.code size data ∧ sbRoom (p.queue o) < size

theorem Host.handled_held {h : Host} (valid : h.rx.Valid) {ev : HostEvents}
    (ended : (h.handled ev).2 = .held) : (h.handled ev).1.Holds := by
  have rx : (consoleResize (consoleResume h ev.raw) ev.window).rx.Valid := by simpa using valid
  obtain ⟨type, size, data, found, held⟩ := (frameLoop_bytes consoleFrame (fun _ _ => True)
    (fun _ _ _ _ _ _ _ _ _ => trivial) _ _ rx trivial).2.2.2 ended
  unfold consoleFrame at held
  split at held
  next chatter =>
    split at held
    next output =>
      split at held
      next full => exact ⟨size, data, .out, output ▸ found, full⟩
      · cases held
    next output =>
      split at held
      next full => exact ⟨size, data, .err, chatter.1.resolve_left output ▸ found, full⟩
      · cases held
  · split at held
    · cases held
    · split at held
      · split at held <;> cases held
      · cases held

theorem Host.iterate_handled {h : Host} (running : h.phase = .running) (quiet : h.interrupted = 0)
    (channel : Pipe) (ev : HostEvents) :
    h.iterate channel ev = match (h.handled ev).2 with
      | .rejected => ((h.handled ev).1.protocolError, channel, [])
      | .malformed => ((h.handled ev).1.protocolError, channel, [])
      | .waiting => consoleAfterFrames (h.handled ev).1 true channel ev
      | .held => consoleAfterFrames (h.handled ev).1 false channel ev := by
  unfold Host.iterate Host.handled
  rw [if_neg (not_not.mpr running), if_neg (not_not.mpr quiet)]
  dsimp only
  generalize consoleResize (consoleResume h ev.raw) ev.window = g
  split <;> rename_i found <;> rw [found]

/-! ### Every byte is accounted for -/

def readBytes : ReadResult → List UInt8
  | .data bytes => bytes
  | .again => []
  | .failed => []

/-- A receive moves the bytes that it reads to the queue. It asks for a chunk if there is room for
one, and reads nothing if it reports the end or a failure. -/
theorem sbReceive_arrived {q : SbQueue} (valid : q.Valid) (fd : Pipe) (choice : ReadChoice) :
    (sbReceive fd q choice).2.1.Valid ∧
    ∃ arrived, (sbReceive fd q choice).2.1.contents = q.contents ++ arrived ∧
      fd.bytes = arrived ++ (sbReceive fd q choice).2.2.bytes ∧
      ((sbReceive fd q choice).1 ≤ 0 → arrived = []) ∧
      (sbChunk ≤ sbRoom q → arrived = readBytes (fd.read sbChunk choice).1) := by
  unfold sbReceive
  split
  next full => exact ⟨valid, [], by simp, rfl, fun _ => rfl, fun room => by simp [full, sbChunk] at room⟩
  next space =>
    have chunk (room : sbChunk ≤ sbRoom q) : min (sbRoom q) sbChunk = sbChunk := Nat.min_eq_right room
    rcases read : fd.read (min (sbRoom q) sbChunk) choice with ⟨result, after⟩
    cases result with
    | again =>
      rw [fd.read_other _ _ _ _ read (by simp)]
      exact ⟨valid, [], by simp, rfl, fun _ => rfl, fun room => by rw [← chunk room, read]; rfl⟩
    | failed =>
      rw [fd.read_other _ _ _ _ read (by simp)]
      exact ⟨valid, [], by simp, rfl, fun _ => rfl, fun room => by rw [← chunk room, read]; rfl⟩
    | data bytes =>
      obtain ⟨whole, bounded, -⟩ := fd.read_data _ _ _ _ read
      cases bytes with
      | nil =>
        exact ⟨valid, [], by simp, whole.symm, fun _ => rfl,
          fun room => by rw [← chunk room, read]; rfl⟩
      | cons b rest =>
        obtain ⟨q', appended, valid', contents'⟩ := sbAppend_spec valid (b :: rest) (by omega)
        simp only [appended]
        exact ⟨valid', b :: rest, contents', whole.symm, fun failed => by simp at failed,
          fun room => by rw [← chunk room, read]; rfl⟩

/-- The output of the received bytes is what is written and what is owed, and so it stays when
more arrives. -/
structure Host.Accounts (h : Host) (received : List UInt8) : Prop where
  stored : h.Stored
  whole : ∀ o later, h.written o ++ h.owes o later = framePayloads o.type (received ++ later)

section Accounts

variable {h h' : Host} {received : List UInt8}

theorem Host.Accounts.congr (accounts : h.Accounts received) (rx : h'.rx = h.rx)
    (queue : h'.queue = h.queue) (written : h'.written = h.written) : h'.Accounts received := by
  obtain ⟨⟨valid, valid'⟩, whole⟩ := accounts
  refine ⟨⟨rx ▸ valid, fun o => queue ▸ valid' o⟩, fun o later => ?_⟩
  rw [Host.owes, rx, queue, written]
  exact whole o later

theorem Host.Handles.accounts (advances : h.Advances h') (stored : h'.Stored)
    (accounts : h.Accounts received) : h'.Accounts received := by
  refine ⟨stored, fun o later => ?_⟩
  rw [advances.written, ← accounts.whole o later, ← advances.owes]
  rfl

theorem consoleChannelIn_accounts (accounts : h.Accounts received) (channel : Pipe)
    (revents : Revents) (choice : ReadChoice) :
    ∃ arrived, channel.bytes = arrived ++ (consoleChannelIn h channel revents choice).2.bytes ∧
      (consoleChannelIn h channel revents choice).1.Accounts (received ++ arrived) := by
  obtain ⟨⟨rx, queue⟩, whole⟩ := accounts
  unfold consoleChannelIn
  split
  · obtain ⟨valid, arrived, contents, left, -⟩ := sbReceive_arrived rx channel choice
    have moved : ({ h with rx := (sbReceive channel h.rx choice).2.1 } : Host).Accounts
        (received ++ arrived) := by
      refine ⟨⟨valid, queue⟩, fun o later => ?_⟩
      rw [Host.owes, contents, List.append_assoc, List.append_assoc]
      exact whole o (arrived ++ later)
    refine ⟨arrived, ?_⟩
    dsimp only
    split
    · exact ⟨left, moved.congr rfl rfl rfl⟩
    · exact ⟨left, moved⟩
  · exact ⟨[], rfl, by rw [List.append_nil]; exact ⟨⟨rx, queue⟩, whole⟩⟩

theorem Host.Accounts.flush (accounts : h.Accounts received) (o : Output) (revents : Revents)
    (result : WriteResult) : (h.flush o revents result).Accounts received := by
  unfold Host.flush
  split
  · obtain ⟨⟨rx, queue⟩, whole⟩ := accounts
    obtain ⟨valid, all⟩ := streamFlush_spec (queue o) (h.kind o) result
    dsimp only
    generalize (streamFlush (h.kind o) (h.queue o) result).2.1 = q at *
    generalize (streamFlush (h.kind o) (h.queue o) result).2.2 = bytes at *
    have written : (h.flushed q bytes o).Accounts received := by
      have rx' : (h.flushed q bytes o).rx = h.rx := by cases o <;> rfl
      refine ⟨⟨rx' ▸ rx, fun o' => ?_⟩, fun o' later => ?_⟩
      · rw [Host.queue_flushed]
        split
        · exact valid
        · exact queue o'
      · rw [← whole o' later, Host.owes, Host.owes, Host.written_flushed, Host.queue_flushed, rx']
        by_cases same : o' = o
        · rw [if_pos same, if_pos same, same, ← all]
          simp only [List.append_assoc]
        · rw [if_neg same, if_neg same, List.append_nil]
    split
    · exact written.congr rfl rfl rfl
    · exact written
  · exact accounts

theorem consoleIo_accounts (accounts : h.Accounts received) (channel : Pipe) (ev : HostEvents)
    (first second third fourth : Revents) :
    ∃ arrived, channel.bytes = arrived ++ (consoleIo h channel ev first second third fourth).2.1.bytes ∧
      (consoleIo h channel ev first second third fourth).1.Accounts (received ++ arrived) := by
  obtain ⟨arrived, left, step₁⟩ := consoleChannelIn_accounts accounts channel first ev.channelRead
  refine ⟨arrived, left, ?_⟩
  have step₂ : (consoleChannelOut (consoleChannelIn h channel first ev.channelRead).1 first
      ev.channelWrite).1.Accounts (received ++ arrived) := by
    unfold consoleChannelOut
    split
    · dsimp only
      split <;> exact step₁.congr rfl rfl rfl
    · exact step₁
  have step₃ : (consoleInputIn (consoleChannelOut (consoleChannelIn h channel first
      ev.channelRead).1 first ev.channelWrite).1 second ev.inputRead).Accounts
      (received ++ arrived) := by
    unfold consoleInputIn
    split
    · split <;> exact step₂.congr rfl rfl rfl
    · exact step₂
  exact (step₃.flush .out third ev.outWrite).flush .err fourth ev.errWrite

theorem Host.iterate_accounts (accounts : h.Accounts received) (channel : Pipe) (ev : HostEvents) :
    ∃ arrived, channel.bytes = arrived ++ (h.iterate channel ev).2.1.bytes ∧
      (h.iterate channel ev).1.Accounts (received ++ arrived) := by
  -- Whatever ends the iteration early has received nothing.
  have nothing {g : Host} (kept : g.Accounts received) :
      ∃ arrived, channel.bytes = arrived ++ channel.bytes ∧ g.Accounts (received ++ arrived) :=
    ⟨[], rfl, by rw [List.append_nil]; exact kept⟩
  by_cases running : h.phase = .running
  case neg =>
    unfold Host.iterate
    rw [if_pos running]
    exact nothing accounts
  by_cases quiet : h.interrupted = 0
  case neg =>
    unfold Host.iterate
    rw [if_neg (not_not.mpr running), if_pos quiet]
    exact nothing (accounts.congr rfl rfl rfl)
  obtain ⟨advances, stored⟩ := Host.handled_advances accounts.stored ev
  have handled := advances.accounts stored accounts
  rw [Host.iterate_handled running quiet]
  have after (waiting : Bool) : ∃ arrived, channel.bytes = arrived ++
      (consoleAfterFrames (h.handled ev).1 waiting channel ev).2.1.bytes ∧
      (consoleAfterFrames (h.handled ev).1 waiting channel ev).1.Accounts (received ++ arrived) := by
    have left (why : HostEnd) : ((h.handled ev).1.leave why).Accounts received :=
      handled.congr rfl rfl rfl
    unfold consoleAfterFrames
    split
    · exact nothing (left _)
    · split
      · exact nothing (left _)
      · split
        · exact nothing (left _)
        · split
          · exact nothing handled
          · exact nothing (left _)
          · exact consoleIo_accounts handled channel ev _ _ _ _
  cases (h.handled ev).2 with
  | rejected => exact nothing (handled.congr rfl rfl rfl)
  | malformed => exact nothing (handled.congr rfl rfl rfl)
  | waiting => exact after true
  | held => exact after false

end Accounts

/-- What the VM has sent has been received or is on the channel, and the launcher accounts for
what it has received. -/
def Launcher.Inv (l : Launcher) : Prop :=
  ∃ received, l.sent = received ++ l.channel.bytes ∧ l.host.Accounts received

theorem Launcher.step_inv (l : Launcher) (a : VmAction) (inv : l.Inv) : (l.step a).Inv := by
  obtain ⟨received, whole, accounts⟩ := inv
  cases a with
  | sends bytes =>
    simp only [Launcher.step]
    split
    · exact ⟨received, whole, accounts⟩
    · exact ⟨received, by simp [whole], accounts⟩
  | hangsUp => exact ⟨received, whole, accounts⟩
  | host ev =>
    obtain ⟨arrived, left, accounts'⟩ := Host.iterate_accounts accounts l.channel ev
    have all : l.sent = received ++ (arrived ++ (l.host.iterate l.channel ev).2.1.bytes) := by
      rw [whole, ← left]
    exact ⟨received ++ arrived, by rw [List.append_assoc]; exact all, accounts'⟩
  | signal signo =>
    refine ⟨received, whole, ?_⟩
    simp only [Launcher.step, caughtSignal]
    repeat' split
    all_goals exact accounts.congr rfl rfl rfl

theorem Launcher.start_inv (active : Bool) (outKind errKind : StreamKind) :
    (Launcher.start active outKind errKind).Inv := by
  refine ⟨[], rfl, ⟨SbQueue.empty_valid, fun o => ?_⟩, fun o later => ?_⟩
  · cases o <;> exact SbQueue.empty_valid
  · cases o <;> simp [Launcher.start, Host.start, Host.owes, Host.queue, Host.written]

theorem Launcher.run_inv (active : Bool) (outKind errKind : StreamKind)
    (actions : List VmAction) : ((Launcher.start active outKind errKind).run actions).Inv :=
  run_invariant Launcher.step (fun _ => True) Launcher.Inv (fun l a _ inv => l.step_inv a inv)
    actions (fun _ _ => trivial) _ (Launcher.start_inv active outKind errKind)

def Launcher.received (l : Launcher) : List UInt8 :=
  l.sent.take (l.sent.length - l.channel.bytes.length)

/-- Every payload byte of every complete `OUTPUT` and `ERROR` frame that was received has been
written. -/
def Launcher.Delivered (l : Launcher) : Prop :=
  l.host.outWritten = framePayloads .output l.received ∧
  l.host.errWritten = framePayloads .error l.received

def Host.Clear (h : Host) : Prop := ∀ o, h.owes o [] = []

theorem Launcher.Inv.delivered_iff {l : Launcher} (inv : l.Inv) : l.Delivered ↔ l.host.Clear := by
  obtain ⟨received, sent, -, whole⟩ := inv
  have read : l.received = received := by
    rw [Launcher.received, sent, List.length_append, Nat.add_sub_cancel, List.take_left]
  have all (o : Output) : l.host.written o = framePayloads o.type l.received ↔
      l.host.owes o [] = [] := by
    have total := whole o []
    rw [List.append_nil] at total
    rw [read, ← total]
    exact List.self_eq_append_right
  constructor
  · rintro ⟨out, err⟩ (_ | _)
    · exact (all .out).mp out
    · exact (all .err).mp err
  · intro clear
    exact ⟨(all .out).mpr (clear .out), (all .err).mpr (clear .err)⟩

end LashOs.Console
