import LashOs.Console.Disconnect

/-!
# The delivery of output at a disconnect

The relay leaves its loop in the iteration after the one that found the channel at its end, or
at once when a write to the channel fails, whatever it then owes. So output is lost unless
everything that is due leaves in the iteration that finds the end, and unless nothing is due
when a write fails. The condition is on each iteration: the launcher before it, and what the
environment answers in it.
-/
namespace LashOs.Console

open Base

/-! ### The condition -/

/-- What `poll` finds of the channel in an iteration; nothing if it fails or is interrupted. -/
def HostEvents.onChannel (ev : HostEvents) : Revents :=
  match ev.poll with
  | .ready first _ _ _ => first
  | .interrupted => .none
  | .failed => .none

/-- What `poll` finds of an output stream. -/
def HostEvents.on (ev : HostEvents) (o : Output) : Revents :=
  match ev.poll, o with
  | .ready _ _ third _, .out => third
  | .ready _ _ _ fourth, .err => fourth
  | .interrupted, _ => .none
  | .failed, _ => .none

def HostEvents.write (ev : HostEvents) : Output → WriteResult
  | .out => ev.outWrite
  | .err => ev.errWrite

def HostEvents.arriving (ev : HostEvents) (channel : Pipe) : List UInt8 :=
  if ev.onChannel.readable then readBytes (channel.read sbChunk ev.channelRead).1 else []

/-- A stream takes all of `due` at once: it is ready, it accepts that many bytes, and they fit
into the queue in front of it (for a gated stream, into one `PIPE_BUF`). -/
def Takes (kind : StreamKind) (due : List UInt8) (revents : Revents) (result : WriteResult) : Prop :=
  due = [] ∨ due.length ≤ sbCapacity ∧ (kind = .gated → due.length ≤ pipeBuf) ∧
    revents.writable = true ∧ ∃ count, result = .wrote count ∧ due.length ≤ count

/-- The events of the channel that the poll set of `consoleTransfer` asks for. -/
def Host.channelEvents (p : Host) (first : Revents) : Revents :=
  let channelIn := decide (sbChunk ≤ sbRoom p.rx)
  let channelOut := decide (sbSize p.tx ≠ 0)
  first.report (p.connected && !p.receivedExit && (channelIn || channelOut)) channelIn channelOut

/-- `sb_receive` finds the channel at its end, or fails. -/
def Host.FindsEnd (p : Host) (channel : Pipe) (ev : HostEvents) : Prop :=
  (p.channelEvents ev.onChannel).readable = true ∧ (sbReceive channel p.rx ev.channelRead).1 ≤ 0

/-- `sb_flush` of the channel fails. -/
def Host.WriteFails (p : Host) (channel : Pipe) (ev : HostEvents) : Prop :=
  ¬p.FindsEnd channel ev ∧ (p.channelEvents ev.onChannel).pollout = true ∧
  (sbFlush p.tx ev.channelWrite).1 ≠ 0

def Host.TakesDue (h : Host) (ev : HostEvents) : Prop :=
  ∀ o, Takes (h.kind o) (h.owes o []) (ev.on o) (ev.write o)

/-- Nothing is due, and what arrives in the iteration has no output either. -/
def Host.NothingDue (h : Host) (channel : Pipe) (ev : HostEvents) : Prop :=
  ∀ o, h.owes o (ev.arriving channel) = []

/-- The consumers of the output are prompt in an iteration: stdout and stderr take all that is due
when it finds the channel at its end, and nothing is due when its write to the channel fails. -/
def Launcher.Prompt (l : Launcher) : VmAction → Prop
  | .host ev => l.host.phase = .running →
    ((l.host.handled ev).1.FindsEnd l.channel ev → l.host.TakesDue ev) ∧
    ((l.host.handled ev).1.WriteFails l.channel ev → l.host.NothingDue l.channel ev)
  | .sends _ => True
  | .hangsUp => True
  | .signal _ => True

/-! ### The standard streams -/

/-- What is reported of a stream, which is polled if its queue is not empty. -/
def Host.reported (h : Host) (ev : HostEvents) (o : Output) : Revents :=
  (ev.on o).report (decide (sbSize (h.queue o) ≠ 0)) false true

def Host.standard (h : Host) (ev : HostEvents) (second : Revents) (revents : Output → Revents) :
    Host :=
  ((consoleInputIn h second ev.inputRead).flush .out (revents .out) (ev.write .out)).flush .err
    (revents .err) (ev.write .err)

theorem streamFlush_empties {q : SbQueue} (valid : q.Valid) (kind : StreamKind)
    (result : WriteResult) (some_ : q.contents ≠ []) (written : (streamFlush kind q result).1 = 0) :
    (streamFlush kind q result).2.1.contents = [] ↔
      (kind = .gated → q.contents.length ≤ pipeBuf) ∧
        ∃ count, result = .wrote count ∧ q.contents.length ≤ count := by
  have length := valid.length_contents
  have positive : 0 < q.contents.length := List.length_pos_iff.mpr some_
  unfold streamFlush at written ⊢
  rw [if_neg (by omega)] at written ⊢
  generalize bounded : (if kind = .gated ∧ sbSize q > pipeBuf then pipeBuf else sbSize q) = size at *
  have gate : size = sbSize q ↔ (kind = .gated → q.contents.length ≤ pipeBuf) := by
    rw [← bounded, length]
    split
    next gated => exact ⟨fun same => by omega, fun within => absurd (within gated.1) (by omega)⟩
    next open_ => exact ⟨fun _ gated => by rw [not_and] at open_; have := open_ gated; omega, fun _ => rfl⟩
  have stored : size ≤ sbSize q := by
    rw [← bounded]
    split <;> omega
  rw [← gate]
  match result with
  | .wrote 0 => cases written
  | .failed => cases written
  | .again =>
    refine iff_of_false some_ ?_
    rintro ⟨-, count, other, -⟩
    cases other
  | .wrote (count + 1) =>
    obtain ⟨-, contents⟩ := sbConsume_spec valid (min (count + 1) size) (by omega)
    simp only [flushUpTo, contents, List.drop_eq_nil_iff, WriteResult.wrote.injEq, exists_eq_left']
    omega

section Standard

variable {h : Host}

theorem Host.flush_empties (running : h.phase = .running) (o : Output) (valid : (h.queue o).Valid)
    (ev : HostEvents) (goesOn : (h.flush o (h.reported ev o) (ev.write o)).phase = .running) :
    ((h.flush o (h.reported ev o) (ev.write o)).queue o).contents = [] ↔
      Takes (h.kind o) (h.queue o).contents (ev.on o) (ev.write o) := by
  by_cases empty : (h.queue o).contents = []
  · have size := (sbSize_eq_zero_iff valid).mpr empty
    simp [Host.flush, Host.reported, size, empty, Revents.none, Revents.writable, Takes]
  have size := mt (sbSize_eq_zero_iff valid).mp empty
  have asked : (h.reported ev o).writable = (ev.on o).writable := by
    simp [Host.reported, Revents.report, size, Revents.writable]
  unfold Host.flush at goesOn ⊢
  rw [asked] at goesOn ⊢
  by_cases ready : (ev.on o).writable = true
  · rw [if_pos ⟨running, ready⟩] at goesOn ⊢
    dsimp only at goesOn ⊢
    split at goesOn
    · cases goesOn
    next written =>
      rw [if_neg written, Host.queue_flushed, if_pos rfl,
        streamFlush_empties valid _ _ empty (not_not.mp written), Takes]
      simp only [empty, ready, valid.length_contents, valid.size_le, true_and, false_or]
  · rw [if_neg fun polled => ready polled.2]
    simp [Takes, empty, ready]

structure Host.Alike (h h' : Host) : Prop where
  rx : h'.rx = h.rx
  kind : h'.kind = h.kind
  connected : h'.connected = h.connected
  exit : h'.receivedExit = h.receivedExit

theorem Host.Alike.trans {h' h'' : Host} (first : h.Alike h') (second : h'.Alike h'') :
    h.Alike h'' :=
  ⟨second.rx.trans first.rx, second.kind.trans first.kind, second.connected.trans first.connected,
    second.exit.trans first.exit⟩

theorem Host.flush_frame (h : Host) (o : Output) (revents : Revents) (result : WriteResult) :
    h.Alike (h.flush o revents result) ∧
    (∀ o' ≠ o, (h.flush o revents result).queue o' = h.queue o') ∧
    ((h.flush o revents result).phase = h.phase ∨
      (h.flush o revents result).phase = .returned .brokenPipe) := by
  unfold Host.flush
  split
  · dsimp only
    generalize (streamFlush (h.kind o) (h.queue o) result).2.1 = q
    generalize (streamFlush (h.kind o) (h.queue o) result).2.2 = bytes
    have other (o' : Output) (differs : o' ≠ o) : (h.flushed q bytes o).queue o' = h.queue o' :=
      (h.queue_flushed q bytes o o').trans (if_neg differs)
    split
    · refine ⟨?_, other, .inr rfl⟩
      cases o <;> exact ⟨rfl, rfl, rfl, rfl⟩
    · refine ⟨?_, other, .inl ?_⟩
      · cases o <;> exact ⟨rfl, rfl, rfl, rfl⟩
      · cases o <;> rfl
  · exact ⟨⟨rfl, rfl, rfl, rfl⟩, fun _ _ => rfl, .inl rfl⟩

theorem consoleInputIn_frame (h : Host) (revents : Revents) (result : ReadResult) :
    h.Alike (consoleInputIn h revents result) ∧
    (consoleInputIn h revents result).queue = h.queue ∧
    (consoleInputIn h revents result).phase = h.phase := by
  unfold consoleInputIn
  split
  · split <;> exact ⟨⟨rfl, rfl, rfl, rfl⟩, rfl, rfl⟩
  · exact ⟨⟨rfl, rfl, rfl, rfl⟩, rfl, rfl⟩

theorem Host.standard_frame (running : h.phase = .running) (ev : HostEvents) (second : Revents)
    (revents : Output → Revents) :
    h.Alike (h.standard ev second revents) ∧
    ((h.standard ev second revents).phase = .running ∨
      (h.standard ev second revents).phase = .returned .brokenPipe) := by
  obtain ⟨alike, -, phase⟩ := consoleInputIn_frame h second ev.inputRead
  unfold Host.standard
  generalize consoleInputIn h second ev.inputRead = g at *
  obtain ⟨alike', -, phase'⟩ := g.flush_frame .out (revents .out) (ev.write .out)
  generalize g.flush .out (revents .out) (ev.write .out) = k at *
  obtain ⟨alike'', -, phase''⟩ := k.flush_frame .err (revents .err) (ev.write .err)
  refine ⟨(alike.trans alike').trans alike'', ?_⟩
  rcases phase'' with same | broken
  · rcases phase' with same' | broken
    · exact .inl (same.trans (same'.trans (phase.trans running)))
    · exact .inr (same.trans broken)
  · exact .inr broken

theorem Host.standard_stopped (stopped : h.phase ≠ .running) (ev : HostEvents) (second : Revents)
    (revents : Output → Revents) : h.standard ev second revents = h := by
  simp [Host.standard, consoleInputIn, Host.flush, stopped]

/-- If the relay goes on, its output queues are empty exactly if each stream takes all of its
own. -/
theorem Host.standard_empties (running : h.phase = .running) (stored : h.Stored) (ev : HostEvents)
    (second : Revents) (goesOn : (h.standard ev second (h.reported ev)).phase = .running)
    (o : Output) : ((h.standard ev second (h.reported ev)).queue o).contents = [] ↔
      Takes (h.kind o) (h.queue o).contents (ev.on o) (ev.write o) := by
  obtain ⟨alike, queue, phase⟩ := consoleInputIn_frame h second ev.inputRead
  have reported : h.reported ev = (consoleInputIn h second ev.inputRead).reported ev := by
    unfold Host.reported
    rw [queue]
  have valid := stored.queue
  rw [reported] at goesOn ⊢
  rw [← queue] at valid ⊢
  rw [← alike.kind]
  unfold Host.standard at goesOn ⊢
  generalize consoleInputIn h second ev.inputRead = g at *
  have emptied := g.flush_empties (phase.trans running) .out (valid .out) ev
  obtain ⟨alike', others, -⟩ := g.flush_frame .out (g.reported ev .out) (ev.write .out)
  have err := others .err (by decide)
  have reported' : g.reported ev .err =
      (g.flush .out (g.reported ev .out) (ev.write .out)).reported ev .err := by
    rw [Host.reported, Host.reported, err]
  rw [reported'] at goesOn ⊢
  generalize g.flush .out (g.reported ev .out) (ev.write .out) = k at *
  obtain ⟨-, others', phase'⟩ := k.flush_frame .err (k.reported ev .err) (ev.write .err)
  -- The second flush went on, so the first one did not break.
  have between : k.phase = .running := by
    rcases phase' with same | broken
    · rw [← same, goesOn]
    · rw [broken] at goesOn
      cases goesOn
  cases o with
  | out =>
    rw [others' .out (by decide)]
    exact emptied between
  | err =>
    have errValid : (k.queue .err).Valid := err ▸ valid .err
    rw [k.flush_empties between .err errValid ev goesOn, err, alike'.kind]

end Standard

/-! ### The channel -/

def Host.exchanged (p : Host) (channel : Pipe) (ev : HostEvents) : Host :=
  (consoleChannelOut (consoleChannelIn p channel (p.channelEvents ev.onChannel) ev.channelRead).1
    (p.channelEvents ev.onChannel) ev.channelWrite).1

/-- A relay that is connected to a VM from which it has no exit status. -/
structure Host.Linked (h : Host) : Prop where
  connected : h.connected = true
  exit : h.receivedExit = false

section Channel

variable {p : Host} {channel : Pipe} {ev : HostEvents}

theorem Host.channelEvents_unlinked (unlinked : ¬p.Linked) (first : Revents) :
    p.channelEvents first = .none := by
  have valid : (p.connected && !p.receivedExit) = false := by
    by_contra linked
    rw [Bool.not_eq_false, Bool.and_eq_true, Bool.not_eq_true'] at linked
    exact unlinked ⟨linked.1, linked.2⟩
  rw [Host.channelEvents, valid]
  rfl

theorem Host.exchanged_unlinked (unlinked : ¬p.Linked) : p.exchanged channel ev = p := by
  rw [Host.exchanged, Host.channelEvents_unlinked unlinked]
  simp [consoleChannelIn, consoleChannelOut, Revents.none, Revents.readable]

theorem Host.FindsEnd.linked (finds : p.FindsEnd channel ev) : p.Linked := by
  by_contra unlinked
  obtain ⟨readable, -⟩ := finds
  rw [Host.channelEvents_unlinked unlinked] at readable
  cases readable

theorem Host.WriteFails.linked (fails : p.WriteFails channel ev) : p.Linked := by
  by_contra unlinked
  obtain ⟨-, writable, -⟩ := fails
  rw [Host.channelEvents_unlinked unlinked] at writable
  cases writable

/-- What the channel's transfers change of what is owed: `arrived` is behind the received bytes. -/
structure Host.Exchanges (p e : Host) (arrived : List UInt8) : Prop where
  stored : e.Stored
  kind : e.kind = p.kind
  queue : e.queue = p.queue
  contents : e.rx.contents = p.rx.contents ++ arrived

theorem Host.Exchanges.owes {e : Host} {arrived : List UInt8} (exchanges : p.Exchanges e arrived)
    (o : Output) (later : List UInt8) : e.owes o later = p.owes o (arrived ++ later) := by
  rw [Host.owes, exchanges.queue, exchanges.contents, List.append_assoc]
  rfl

theorem Host.exchanged_exchanges (stored : p.Stored) (channel : Pipe) (ev : HostEvents) :
    ∃ arrived, p.Exchanges (p.exchanged channel ev) arrived ∧
      (p.FindsEnd channel ev → arrived = []) ∧
      (sbChunk ≤ sbRoom p.rx → arrived = if (p.channelEvents ev.onChannel).readable = true then
        readBytes (channel.read sbChunk ev.channelRead).1 else []) := by
  have sent (g : Host) (arrived : List UInt8) (exchanges : p.Exchanges g arrived) :
      p.Exchanges (consoleChannelOut g (p.channelEvents ev.onChannel) ev.channelWrite).1 arrived := by
    obtain ⟨⟨rx, queue'⟩, kind, queue, contents⟩ := exchanges
    unfold consoleChannelOut
    split
    · dsimp only
      split <;> exact ⟨⟨rx, queue'⟩, kind, queue, contents⟩
    · exact ⟨⟨rx, queue'⟩, kind, queue, contents⟩
  obtain ⟨valid, arrived, contents, -, ends, chunk⟩ := sbReceive_arrived stored.rx channel ev.channelRead
  unfold Host.exchanged
  by_cases readable : (p.channelEvents ev.onChannel).readable = true
  · refine ⟨arrived, sent _ _ ?_, fun finds => ends finds.2, fun room => by rw [if_pos readable, chunk room]⟩
    unfold consoleChannelIn
    rw [if_pos readable]
    dsimp only
    split <;> exact ⟨⟨valid, stored.queue⟩, rfl, rfl, contents⟩
  · refine ⟨[], sent _ _ ?_, fun _ => rfl, fun _ => by rw [if_neg readable]⟩
    unfold consoleChannelIn
    rw [if_neg readable]
    exact ⟨stored, rfl, rfl, (List.append_nil _).symm⟩

theorem Host.exchanged_end (running : p.phase = .running) (finds : p.FindsEnd channel ev) :
    (p.exchanged channel ev).phase = .running ∧ (p.exchanged channel ev).connected = false := by
  obtain ⟨readable, ended⟩ := finds
  unfold Host.exchanged consoleChannelIn
  rw [if_pos readable]
  dsimp only
  rw [if_pos ended]
  simp [consoleChannelOut, running]

theorem Host.exchanged_fails (fails : p.WriteFails channel ev) :
    (p.exchanged channel ev).phase = .returned .channelFailed := by
  have linked := fails.linked
  obtain ⟨goesOn, writable, failed⟩ := fails
  unfold Host.exchanged consoleChannelIn
  split
  next readable =>
    have received : ¬(sbReceive channel p.rx ev.channelRead).1 ≤ 0 := fun ended =>
      goesOn ⟨readable, ended⟩
    dsimp only
    rw [if_neg received]
    simp [consoleChannelOut, linked.connected, writable, failed, Host.leave]
  · simp [consoleChannelOut, linked.connected, writable, failed, Host.leave]

theorem Host.exchanged_goesOn (running : p.phase = .running) (goesOn : ¬p.FindsEnd channel ev)
    (works : ¬p.WriteFails channel ev) :
    (p.exchanged channel ev).phase = .running ∧
    (p.exchanged channel ev).connected = p.connected := by
  have sends (g : Host) (phase : g.phase = .running) (connected : g.connected = p.connected)
      (tx : g.tx = p.tx) :
      (consoleChannelOut g (p.channelEvents ev.onChannel) ev.channelWrite).1.phase = .running ∧
      (consoleChannelOut g (p.channelEvents ev.onChannel) ev.channelWrite).1.connected =
        p.connected := by
    unfold consoleChannelOut
    split
    next polled =>
      have written : (sbFlush g.tx ev.channelWrite).1 = 0 := by
        by_contra failed
        rw [tx] at failed
        exact works ⟨goesOn, polled.2, failed⟩
      dsimp only
      rw [if_neg (not_not.mpr written)]
      exact ⟨phase, connected⟩
    · exact ⟨phase, connected⟩
  unfold Host.exchanged consoleChannelIn
  split
  next readable =>
    dsimp only
    rw [if_neg fun ended => goesOn ⟨readable, ended⟩]
    exact sends _ running rfl rfl
  · exact sends _ running rfl rfl

end Channel

/-! ### One iteration -/

/-- What one iteration makes of a relay in its loop. -/
inductive Host.Outcome (h : Host) (channel : Pipe) (ev : HostEvents) (h' : Host) : Prop where
  -- It ends for another reason than a disconnect.
  | stops (stopped : h'.phase ≠ .running) (disconnected : h'.phase ≠ .returned .disconnected)
      (failed : h'.phase ≠ .returned .channelFailed)
  -- It has the exit status and goes on.
  | exits (running : h'.phase = .running) (exit : h'.receivedExit = true)
  -- It has found the end before and ends now.
  | leaves (exit : h.receivedExit = false) (gone : h.connected = false)
      (phase : h'.phase = .returned .disconnected) (clear : h'.Clear ↔ h.Clear)
  -- It has found the end before and holds a frame.
  | holds (exit : h.receivedExit = false) (gone : h.connected = false)
      (running : h'.phase = .running) (gone' : h'.connected = false) (owes : ¬h.Clear)
      (owes' : ¬h'.Clear)
  -- It stays connected.
  | goesOn (linked : h.Linked) (running : h'.phase = .running) (connected : h'.connected = true)
      (open_ : ¬(h.handled ev).1.FindsEnd channel ev) (works : ¬(h.handled ev).1.WriteFails channel ev)
  | findsEnd (linked : h.Linked) (finds : (h.handled ev).1.FindsEnd channel ev)
      (running : h'.phase = .running) (gone : h'.connected = false)
      (clear : h'.Clear ↔ h.TakesDue ev)
  | writeFails (linked : h.Linked) (fails : (h.handled ev).1.WriteFails channel ev)
      (phase : h'.phase = .returned .channelFailed) (clear : h'.Clear ↔ h.NothingDue channel ev)

section Iteration

variable {h p : Host} {channel : Pipe} {ev : HostEvents}

theorem Host.Handles.clear_iff (advances : h.Advances p) : p.Clear ↔ h.Clear :=
  forall_congr' fun o => iff_of_eq (congrArg (· = []) (advances.owes o []))

theorem Host.Handles.takesDue_iff (advances : h.Advances p) : p.TakesDue ev ↔ h.TakesDue ev :=
  forall_congr' fun o => by rw [← advances.owes, advances.kind]; rfl

theorem Host.Handles.nothingDue_iff (advances : h.Advances p) :
    p.NothingDue channel ev ↔ h.NothingDue channel ev :=
  forall_congr' fun o => by rw [← advances.owes]; rfl

theorem Host.Handles.exit_before (advances : h.Advances p) (exit : p.receivedExit = false) :
    h.receivedExit = false := by
  by_contra before
  rw [Bool.not_eq_false] at before
  rw [advances.exit before] at exit
  cases exit

theorem Host.Handles.linked (advances : h.Advances p) (linked : p.Linked) : h.Linked :=
  ⟨advances.connected ▸ linked.connected, advances.exit_before linked.exit⟩

theorem Host.Holds.owes {g : Host} {arrived : List UInt8} (holds : p.Holds)
    (contents : g.rx.contents = p.rx.contents ++ arrived) (later : List UInt8) :
    ¬∀ o, g.owes o later = [] := by
  obtain ⟨size, data, o, found, full⟩ := holds
  obtain ⟨length, -⟩ := peekBytes_frame found
  intro clear
  have owed := clear o
  rw [Host.owes, contents, List.append_assoc, framePayloads_frame o.type found, if_pos rfl] at owed
  simp only [List.append_eq_nil_iff] at owed
  rw [owed.2.1, List.length_nil] at length
  omega

theorem Host.Holds.not_takesDue (holds : p.Holds) (stored : p.Stored) : ¬p.TakesDue ev := by
  obtain ⟨size, data, o, found, full⟩ := holds
  obtain ⟨length, -⟩ := peekBytes_frame found
  intro takes
  -- What does not fit into a queue is not taken at once.
  have fits : (p.owes o []).length ≤ sbCapacity := by
    rcases takes o with none | ⟨fits, -⟩
    · rw [none]
      exact Nat.zero_le _
    · exact fits
  rw [Host.owes, List.length_append, (stored.queue o).length_contents,
    framePayloads_frame o.type found, if_pos rfl, List.length_append] at fits
  unfold sbRoom at full
  omega

theorem Host.owes_waiting {g : Host} (waiting : peekBytes g.rx.contents = .incomplete) (o : Output) :
    g.owes o [] = (g.queue o).contents := by
  rw [Host.owes, List.append_nil, framePayloads_incomplete o.type waiting, List.append_nil]

/-- The frame loop has left an unfinished frame, or one that it holds. -/
def Host.Rests (p : Host) : Prop := peekBytes p.rx.contents = .incomplete ∨ p.Holds

theorem Host.standard_clear_iff (stored : p.Stored) (rests : p.Rests) {e : Host}
    (exchanges : p.Exchanges e []) (running : e.phase = .running) (second : Revents)
    (goesOn : (e.standard ev second (p.reported ev)).phase = .running) :
    (e.standard ev second (p.reported ev)).Clear ↔ p.TakesDue ev := by
  obtain ⟨alike, -⟩ := e.standard_frame running ev second (p.reported ev)
  have contents := alike.rx ▸ exchanges.contents
  rcases rests with waiting | holds
  · refine forall_congr' fun o => ?_
    rw [Host.owes_waiting waiting]
    rw [List.append_nil] at contents
    rw [← contents] at waiting
    rw [Host.owes_waiting waiting]
    have reported : p.reported ev = e.reported ev := by
      unfold Host.reported
      rw [exchanges.queue]
    rw [reported] at goesOn ⊢
    rw [Host.standard_empties running exchanges.stored ev second goesOn, exchanges.kind,
      exchanges.queue]
  · exact iff_of_false (holds.owes contents []) (holds.not_takesDue stored)

theorem Host.exchanged_clear_iff (stored : p.Stored) (rests : p.Rests)
    (fails : p.WriteFails channel ev) :
    (p.exchanged channel ev).Clear ↔ p.NothingDue channel ev := by
  obtain ⟨arrived, exchanges, -, chunk⟩ := p.exchanged_exchanges stored channel ev
  have linked := fails.linked
  obtain ⟨-, -, failed⟩ := fails
  simp only [Host.Clear, exchanges.owes, List.append_nil, Host.NothingDue]
  rcases rests with waiting | holds
  · -- There is room for a chunk and something to write, so every event is asked for.
    have length := length_of_incomplete waiting
    rw [stored.rx.length_contents] at length
    have room : sbChunk ≤ sbRoom p.rx := by
      simp only [sbRoom, sbChunk, sbCapacity] at length ⊢
      omega
    have some_ : sbSize p.tx ≠ 0 := fun empty => failed (by rw [sbFlush, if_pos empty])
    have events : p.channelEvents ev.onChannel = ev.onChannel := by
      simp [Host.channelEvents, Revents.report, linked.connected, linked.exit, room, some_]
    have same : arrived = ev.arriving channel := by
      rw [chunk room, events, HostEvents.arriving]
    rw [same]
  · have here : p.rx.contents = p.rx.contents ++ [] := (List.append_nil _).symm
    exact iff_of_false (holds.owes here arrived) (holds.owes here _)

/-- The iteration that reaches its transfers. A relay without a channel reaches them only if it
holds a frame. -/
theorem Host.transfer_outcome (advances : h.Advances p) (is : p = (h.handled ev).1)
    (running : p.phase = .running) (stored : p.Stored) (rests : p.Rests)
    (held : p.connected = false → p.receivedExit = false → p.Holds)
    {first second third fourth : Revents} (polled : ev.poll = .ready first second third fourth) :
    h.Outcome channel ev (consoleTransfer p channel ev first second third fourth).1 := by
  have onChannel : ev.onChannel = first := by rw [HostEvents.onChannel, polled]
  have onOut : ev.on .out = third := by simp [HostEvents.on, polled]
  have onErr : ev.on .err = fourth := by simp [HostEvents.on, polled]
  obtain ⟨input, whole⟩ : ∃ input, (consoleTransfer p channel ev first second third fourth).1 =
      (p.exchanged channel ev).standard ev input (p.reported ev) := by
    simp only [Host.standard, Host.reported, onOut, onErr, Host.exchanged, onChannel]
    exact ⟨_, rfl⟩
  rw [whole]
  have broken {g : Host} (phase : g.phase = .returned .brokenPipe) : h.Outcome channel ev g :=
    .stops (by simp [phase]) (by simp [phase]) (by simp [phase])
  -- Without a link the channel is left alone, and only the streams can end the relay.
  by_cases linked : p.Linked
  case neg =>
    rw [Host.exchanged_unlinked linked]
    obtain ⟨alike, phase⟩ := p.standard_frame running ev input (p.reported ev)
    rcases phase with phase | phase
    · by_cases exited : p.receivedExit = true
      · exact .exits phase (alike.exit.trans exited)
      · rw [Bool.not_eq_true] at exited
        have gone : p.connected = false := by
          by_contra up
          rw [Bool.not_eq_false] at up
          exact linked ⟨up, exited⟩
        have holds := held gone exited
        refine .holds (advances.exit_before exited) (advances.connected ▸ gone) phase
          (alike.connected.trans gone) ?_ (holds.owes (by rw [alike.rx, List.append_nil]) [])
        rw [← advances.clear_iff]
        exact holds.owes (List.append_nil _).symm []
    · exact broken phase
  obtain ⟨arrived, exchanges, ended, -⟩ := p.exchanged_exchanges stored channel ev
  -- With one the end is found, a write fails, or the relay goes on.
  by_cases finds : p.FindsEnd channel ev
  · obtain ⟨goesOn, gone⟩ := Host.exchanged_end running finds
    rw [ended finds] at exchanges
    obtain ⟨alike, phase⟩ := (p.exchanged channel ev).standard_frame goesOn ev input (p.reported ev)
    rcases phase with phase | phase
    · refine .findsEnd (advances.linked linked) (is ▸ finds) phase (alike.connected.trans gone) ?_
      rw [← advances.takesDue_iff]
      exact Host.standard_clear_iff stored rests exchanges goesOn input phase
    · exact broken phase
  by_cases fails : p.WriteFails channel ev
  · have phase := Host.exchanged_fails fails
    rw [Host.standard_stopped (by rw [phase]; simp)]
    refine .writeFails (advances.linked linked) (is ▸ fails) phase ?_
    rw [← advances.nothingDue_iff]
    exact Host.exchanged_clear_iff stored rests fails
  · obtain ⟨goesOn, connected⟩ := Host.exchanged_goesOn running finds fails
    obtain ⟨alike, phase⟩ := (p.exchanged channel ev).standard_frame goesOn ev input (p.reported ev)
    rcases phase with phase | phase
    · exact .goesOn (advances.linked linked) phase
        (alike.connected.trans (connected.trans linked.connected)) (is ▸ finds) (is ▸ fails)
    · exact broken phase

theorem Host.idle_goesOn (advances : h.Advances p) (is : p = (h.handled ev).1)
    (running : p.phase = .running) (linked : p.Linked) (idle : ev.onChannel = .none) :
    h.Outcome channel ev p := by
  have quiet : p.channelEvents ev.onChannel = .none := by
    rw [idle]
    simp [Host.channelEvents, Revents.report, Revents.none]
  refine .goesOn (advances.linked linked) running linked.connected ?_ ?_
  · rintro ⟨readable, -⟩
    rw [← is, quiet] at readable
    cases readable
  · rintro ⟨-, writable, -⟩
    rw [← is, quiet] at writable
    cases writable

theorem Host.after_outcome (advances : h.Advances p) (is : p = (h.handled ev).1)
    (running : p.phase = .running) (stored : p.Stored) {waiting : Bool}
    (rests : if waiting then peekBytes p.rx.contents = .incomplete else p.Holds) :
    h.Outcome channel ev (consoleAfterFrames p waiting channel ev).1 := by
  have left {why : HostEnd} (disconnected : why ≠ .disconnected) (failed : why ≠ .channelFailed) :
      h.Outcome channel ev (p.leave why) :=
    .stops (by simp [Host.leave]) (by simp [Host.leave, disconnected]) (by simp [Host.leave, failed])
  unfold consoleAfterFrames
  split
  · exact left (by simp) (by simp)
  split
  next gone =>
    exact .leaves (advances.exit_before (by simpa using gone.2.2))
      (advances.connected ▸ by simpa using gone.1) rfl advances.clear_iff
  next stays =>
    -- Without a channel, the loop goes on for a frame that it holds.
    have held (gone : p.connected = false) (exit : p.receivedExit = false) : p.Holds := by
      cases waiting with
      | true => exact absurd ⟨by simp [gone], rfl, by simp [exit]⟩ stays
      | false => exact rests
    split
    · exact left (by simp) (by simp)
    cases polled : ev.poll with
    | failed => exact left (by simp) (by simp)
    | ready first second third fourth =>
      refine Host.transfer_outcome advances is running stored ?_ held polled
      cases waiting with
      | true => exact .inl rests
      | false => exact .inr rests
    | interrupted =>
      by_cases linked : p.Linked
      · exact Host.idle_goesOn advances is running linked (by rw [HostEvents.onChannel, polled])
      by_cases exited : p.receivedExit = true
      · exact .exits running exited
      · rw [Bool.not_eq_true] at exited
        have gone : p.connected = false := by
          by_contra up
          rw [Bool.not_eq_false] at up
          exact linked ⟨up, exited⟩
        have owes := (held gone exited).owes (List.append_nil _).symm []
        exact .holds (advances.exit_before exited) (advances.connected ▸ gone) running gone
          (fun clear => owes (advances.clear_iff.mpr clear)) owes

theorem Host.iterate_outcome (running : h.phase = .running) (stored : h.Stored) (channel : Pipe)
    (ev : HostEvents) : h.Outcome channel ev (h.iterate channel ev).1 := by
  by_cases quiet : h.interrupted = 0
  case neg =>
    unfold Host.iterate
    rw [if_neg (not_not.mpr running), if_pos quiet]
    exact .stops (by simp [Host.leave]) (by simp [Host.leave]) (by simp [Host.leave])
  obtain ⟨advances, stored'⟩ := Host.handled_advances stored ev
  rw [Host.iterate_handled running quiet]
  cases ended : (h.handled ev).2 with
  | rejected =>
    exact .stops (by simp [Host.protocolError, Host.leave])
      (by simp [Host.protocolError, Host.leave]) (by simp [Host.protocolError, Host.leave])
  | malformed =>
    exact .stops (by simp [Host.protocolError, Host.leave])
      (by simp [Host.protocolError, Host.leave]) (by simp [Host.protocolError, Host.leave])
  | waiting =>
    exact Host.after_outcome advances rfl (advances.phase.trans running) stored'
      (Host.handled_waiting stored.rx ended)
  | held =>
    exact Host.after_outcome advances rfl (advances.phase.trans running) stored'
      (Host.handled_held stored.rx ended)

end Iteration

/-! ### Every run -/

/-- The two ways out of the loop that a disconnect of the VM opens: the end of the channel was
found, or a write to it failed. -/
def Host.Ended (h : Host) : Prop :=
  h.phase = .returned .disconnected ∨ h.phase = .returned .channelFailed

structure Host.Safe (h : Host) : Prop where
  ended : h.Ended → h.Clear
  gone : h.phase = .running → h.connected = false → h.receivedExit = true ∨ h.Clear

/-- The relay can still end by a disconnect with nothing lost. -/
structure Host.Open (h : Host) : Prop where
  ended : h.phase ≠ .running → h.Ended ∧ h.Clear
  exit : h.phase = .running → h.receivedExit = false
  gone : h.phase = .running → h.connected = false → h.Clear

theorem Host.not_ended (h : Host) (running : h.phase = .running) : ¬h.Ended := by
  rintro (ended | ended)
  · rw [running] at ended
    cases ended
  · rw [running] at ended
    cases ended

section Steps

variable {h h' : Host} {channel : Pipe} {ev : HostEvents}

theorem Host.Outcome.safe (outcome : h.Outcome channel ev h') (running : h.phase = .running)
    (before : h.Safe)
    (takes : (h.handled ev).1.FindsEnd channel ev → h.TakesDue ev)
    (nothing : (h.handled ev).1.WriteFails channel ev → h.NothingDue channel ev) : h'.Safe := by
  cases outcome with
  | stops stopped disconnected failed =>
    exact ⟨fun ended => (ended.elim disconnected failed).elim, fun goes => absurd goes stopped⟩
  | exits goes exit => exact ⟨fun ended => absurd ended (h'.not_ended goes), fun _ _ => .inl exit⟩
  | leaves exit gone phase clear =>
    refine ⟨fun _ => clear.mpr ?_, fun goes => by rw [phase] at goes; cases goes⟩
    exact (before.gone running gone).resolve_left (by simp [exit])
  | holds exit gone goes gone' owes owes' =>
    exact absurd ((before.gone running gone).resolve_left (by simp [exit])) owes
  | goesOn linked goes connected open_ works =>
    refine ⟨fun ended => absurd ended (h'.not_ended goes), fun _ gone => ?_⟩
    rw [connected] at gone
    cases gone
  | findsEnd linked finds goes gone clear =>
    exact ⟨fun ended => absurd ended (h'.not_ended goes), fun _ _ => .inr (clear.mpr (takes finds))⟩
  | writeFails linked fails phase clear =>
    exact ⟨fun _ => clear.mpr (nothing fails), fun goes => by rw [phase] at goes; cases goes⟩

theorem Host.Outcome.open_before (outcome : h.Outcome channel ev h') (running : h.phase = .running)
    (after : h'.Open) : h.Open := by
  refine ⟨fun stopped => absurd running stopped, fun _ => ?_, fun _ gone => ?_⟩
  · cases outcome with
    | stops stopped disconnected failed =>
      exact ((after.ended stopped).1.elim disconnected failed).elim
    | exits goes exit => rw [after.exit goes] at exit; cases exit
    | leaves exit => exact exit
    | holds exit => exact exit
    | goesOn linked => exact linked.exit
    | findsEnd linked => exact linked.exit
    | writeFails linked => exact linked.exit
  · cases outcome with
    | stops stopped disconnected failed =>
      exact ((after.ended stopped).1.elim disconnected failed).elim
    | exits goes exit => rw [after.exit goes] at exit; cases exit
    | leaves exit gone phase clear =>
      exact clear.mp (after.ended (by rw [phase]; simp)).2
    | holds exit gone goes gone' owes owes' => exact absurd (after.gone goes gone') owes'
    | goesOn linked => rw [linked.connected] at gone; cases gone
    | findsEnd linked => rw [linked.connected] at gone; cases gone
    | writeFails linked => rw [linked.connected] at gone; cases gone

theorem Host.Outcome.prompt (outcome : h.Outcome channel ev h')
    (advances : h.Advances (h.handled ev).1) (after : h'.Open) :
    ((h.handled ev).1.FindsEnd channel ev → h.TakesDue ev) ∧
    ((h.handled ev).1.WriteFails channel ev → h.NothingDue channel ev) := by
  -- Both events need a channel.
  have nothing (gone : h.connected = false) :
      ((h.handled ev).1.FindsEnd channel ev → h.TakesDue ev) ∧
      ((h.handled ev).1.WriteFails channel ev → h.NothingDue channel ev) := by
    refine ⟨fun finds => ?_, fun fails => ?_⟩
    · rw [(advances.linked finds.linked).connected] at gone
      cases gone
    · rw [(advances.linked fails.linked).connected] at gone
      cases gone
  cases outcome with
  | stops stopped disconnected failed =>
    exact ((after.ended stopped).1.elim disconnected failed).elim
  | exits goes exit => rw [after.exit goes] at exit; cases exit
  | leaves exit gone => exact nothing gone
  | holds exit gone => exact nothing gone
  | goesOn linked goes connected open_ works =>
    exact ⟨fun finds => absurd finds open_, fun fails => absurd fails works⟩
  | findsEnd linked finds goes gone clear =>
    exact ⟨fun _ => clear.mp (after.gone goes gone), fun fails => absurd finds fails.1⟩
  | writeFails linked fails phase clear =>
    exact ⟨fun finds => absurd finds fails.1,
      fun _ => clear.mp (after.ended (by rw [phase]; simp)).2⟩

end Steps

theorem caughtSignal_alike (h : Host) (signo : Nat) :
    (caughtSignal h signo).phase = h.phase ∧ (caughtSignal h signo).connected = h.connected ∧
    (caughtSignal h signo).receivedExit = h.receivedExit ∧
    ((caughtSignal h signo).Clear ↔ h.Clear) := by
  unfold caughtSignal
  repeat' split
  all_goals exact ⟨rfl, rfl, rfl, Iff.rfl⟩

theorem Launcher.step_safe (l : Launcher) (a : VmAction) (prompt : l.Prompt a)
    (good : l.Inv ∧ l.host.Safe) : (l.step a).Inv ∧ (l.step a).host.Safe := by
  obtain ⟨inv, safe⟩ := good
  refine ⟨l.step_inv a inv, ?_⟩
  cases a with
  | sends bytes =>
    simp only [Launcher.step]
    split <;> exact safe
  | hangsUp => exact safe
  | signal signo =>
    obtain ⟨phase, connected, exit, clear⟩ := caughtSignal_alike l.host signo
    refine ⟨fun ended => clear.mpr (safe.ended ?_), fun running gone => ?_⟩
    · rw [Host.Ended, ← phase]
      exact ended
    · change (caughtSignal l.host signo).receivedExit = true ∨ (caughtSignal l.host signo).Clear
      rw [exit, clear]
      exact safe.gone (phase ▸ running) (connected ▸ gone)
  | host ev =>
    by_cases running : l.host.phase = .running
    · obtain ⟨received, -, accounts⟩ := inv
      obtain ⟨takes, nothing⟩ := prompt running
      exact (Host.iterate_outcome running accounts.stored l.channel ev).safe running safe takes nothing
    · have same : (l.host.iterate l.channel ev).1 = l.host := by rw [Host.iterate, if_pos running]
      change (l.host.iterate l.channel ev).1.Safe
      rw [same]
      exact safe

theorem Launcher.open_before (l : Launcher) (a : VmAction) (inv : l.Inv)
    (after : (l.step a).host.Open) : l.host.Open := by
  cases a with
  | sends bytes =>
    simp only [Launcher.step] at after
    split at after <;> exact after
  | hangsUp => exact after
  | signal signo =>
    obtain ⟨phase, connected, exit, clear⟩ := caughtSignal_alike l.host signo
    refine ⟨fun stopped => ?_, fun running => ?_, fun running gone => ?_⟩
    · obtain ⟨ended, cleared⟩ := after.ended (by rw [← phase] at stopped; exact stopped)
      rw [Host.Ended, ← phase, ← clear]
      exact ⟨ended, cleared⟩
    · rw [← exit]
      exact after.exit (phase.trans running)
    · rw [← clear]
      exact after.gone (phase.trans running) (connected.trans gone)
  | host ev =>
    by_cases running : l.host.phase = .running
    · obtain ⟨received, -, accounts⟩ := inv
      exact (Host.iterate_outcome running accounts.stored l.channel ev).open_before running after
    · have same : (l.host.iterate l.channel ev).1 = l.host := by rw [Host.iterate, if_pos running]
      change (l.host.iterate l.channel ev).1.Open at after
      rw [same] at after
      exact after

theorem Launcher.prompt_of_open (l : Launcher) (a : VmAction) (inv : l.Inv)
    (after : (l.step a).host.Open) : l.Prompt a := by
  cases a with
  | sends bytes => trivial
  | hangsUp => trivial
  | signal signo => trivial
  | host ev =>
    intro running
    obtain ⟨received, -, accounts⟩ := inv
    exact (Host.iterate_outcome running accounts.stored l.channel ev).prompt
      (Host.handled_advances accounts.stored ev).1 after

/-- A run that ends because the VM disconnected, be it that the relay finds the end of the channel
or that it cannot write to it, has delivered all of the output that it received exactly if the
consumers were prompt in each of its iterations. -/
theorem disconnect_delivers_iff (active : Bool) (outKind errKind : StreamKind)
    (actions : List VmAction)
    (ended : ((Launcher.start active outKind errKind).run actions).host.Ended) :
    ((Launcher.start active outKind errKind).run actions).Delivered ↔
      Permits Launcher.step Launcher.Prompt (Launcher.start active outKind errKind) actions := by
  have final := Launcher.run_inv active outKind errKind actions
  rw [final.delivered_iff]
  have initial := Launcher.start_inv active outKind errKind
  constructor
  · intro clear
    have last : ((Launcher.start active outKind errKind).run actions).host.Open :=
      ⟨fun _ => ⟨ended, clear⟩, fun running => absurd ended (Host.not_ended _ running),
        fun running => absurd ended (Host.not_ended _ running)⟩
    have always : Always Launcher.step (fun l => l.Inv ∧ l.host.Open)
        (Launcher.start active outKind errKind) actions :=
      always_of_final Launcher.step_inv Launcher.open_before initial last
    exact always.permits fun l a before after => l.prompt_of_open a before.1 after.2
  · intro permits
    have start : (Launcher.start active outKind errKind).host.Safe :=
      ⟨fun ended => absurd ended (Host.not_ended _ rfl), fun _ gone => by cases gone⟩
    exact (permits.always Launcher.step_safe ⟨initial, start⟩).final.2.ended ended

/-- The VM sends `READY` and one byte of output and is gone. -/
def lastWords : List UInt8 := readyFrame.encode ++ sbHeader 2 1 ++ [65]

/-- The launcher receives them, and then finds the channel at its end. -/
def crash (outReady : Bool) : List VmAction :=
  let readable : Revents := ⟨true, false, false, false⟩
  [ .sends lastWords, .hangsUp,
    .host ⟨false, none, false, .ready readable .none .none .none, .upTo 100, .again, .again,
      .again, .again⟩,
    .host ⟨false, none, false, .ready readable .none ⟨false, outReady, false, false⟩ .none,
      .upTo 100, .again, .again, .wrote 1, .again⟩,
    .host ⟨false, none, false, .ready .none .none .none .none, .again, .again, .again, .again,
      .again⟩ ]

/-- A consumer that is ready gets the output. -/
theorem crash_delivered :
    ((Launcher.start false .direct .direct).run (crash true)).host.phase =
      .returned .disconnected ∧
    ((Launcher.start false .direct .direct).run (crash true)).host.outWritten = [65] ∧
    ((Launcher.start false .direct .direct).run (crash true)).Delivered ∧
    Permits Launcher.step Launcher.Prompt (Launcher.start false .direct .direct) (crash true) := by
  have runs : ((Launcher.start false .direct .direct).run (crash true)).host.phase =
      .returned .disconnected ∧
      ((Launcher.start false .direct .direct).run (crash true)).host.outWritten = [65] ∧
      ((Launcher.start false .direct .direct).run (crash true)).host.outWritten = framePayloads .output
        ((Launcher.start false .direct .direct).run (crash true)).received ∧
      ((Launcher.start false .direct .direct).run (crash true)).host.errWritten = framePayloads .error
        ((Launcher.start false .direct .direct).run (crash true)).received := by
    decide +kernel
  obtain ⟨disconnected, written, delivered⟩ := runs
  exact ⟨disconnected, written, delivered,
    (disconnect_delivers_iff false .direct .direct (crash true) (.inl disconnected)).mp delivered⟩

/-- A consumer that is not ready in that moment never gets it, although the frame was
complete. -/
theorem slow_consumer_loses :
    let l := (Launcher.start false .direct .direct).run (crash false)
    l.host.phase = .returned .disconnected ∧ l.channel.bytes = [] ∧
      l.sent = framing.stream [readyFrame, ⟨.output, [65], by decide⟩] ∧
      l.host.interrupted = 0 ∧ l.host.outWritten = [] := by
  decide +kernel

end LashOs.Console
