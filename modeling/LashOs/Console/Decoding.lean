import LashOs.Base.Run
import LashOs.Console.GuestInput
import LashOs.Console.Host

/-!
# Decoding a stream of frames

A receiver gets the bytes of any list of frames in any pieces and takes complete frames off its
queue at any time. It returns the frames in their order, never reports invalid framing, and while
a frame is incomplete its queue has room for a whole chunk, which is what both relays ask for
before they read.
-/
namespace LashOs.Console

open Base

/-- A message of any type that `sb_packet` accepts. -/
structure Packet where
  type : UInt32
  payload : List UInt8
  bounded : payload.length ≤ sbChunk

def Packet.encode (p : Packet) : List UInt8 := sbHeader p.type.toNat p.payload.length ++ p.payload

/-- What `sb_peek` reports of a message. -/
def Packet.view (p : Packet) : Peek := .frame p.type.toNat p.payload.length p.payload

theorem Packet.length_encode (p : Packet) : p.encode.length = 8 + p.payload.length :=
  length_message p.type.toNat p.payload

theorem Packet.encode_ne_nil (p : Packet) : p.encode ≠ [] :=
  List.ne_nil_of_length_pos (by rw [p.length_encode]; omega)

theorem peekBytes_packet (p : Packet) (rest : List UInt8) : peekBytes (p.encode ++ rest) = p.view :=
  peekBytes_message (Nat.lt_of_lt_of_eq p.type.toNat_lt (by decide)) p.bounded rest

theorem peekBytes_packet_cut (p : Packet) (arrived missing : List UInt8)
    (split : arrived ++ missing = p.encode) (some : missing ≠ []) : peekBytes arrived = .incomplete :=
  peekBytes_cut p.bounded arrived missing split some

theorem peekBytes_nil : peekBytes [] = .incomplete := rfl

def packets : Framing Packet UInt8 Peek where
  encode := Packet.encode
  peek := peekBytes
  view := Packet.view
  incomplete := .incomplete
  nonempty := Packet.encode_ne_nil
  idle := peekBytes_nil
  complete := peekBytes_packet
  cutOff := peekBytes_packet_cut

theorem sbPacket_packet {q : SbQueue} (valid : q.Valid) (p : Packet)
    (fits : 8 + p.payload.length ≤ sbRoom q) :
    ∃ q', sbPacket q p.type.toNat p.payload = (q', .ok ()) ∧ q'.Valid ∧
      q'.contents = q.contents ++ p.encode :=
  sbPacket_spec valid p.type.toNat p.payload p.bounded fits

/-! ### The receiver -/

/-- The stream that is read, the queue, and the frames that `sb_peek` has returned, each of which
`sb_consume` has then taken off. -/
structure Receiver where
  fd : Pipe
  rx : SbQueue
  returned : List Peek

/-- A call of `sb_receive`, or of `sb_peek` with the `sb_consume` that follows a frame. A lone
`sb_peek` changes nothing. -/
inductive ReceiverStep where
  | receive (choice : ReadChoice)
  | next
  deriving DecidableEq, Repr

namespace Receiver

def start (fd : Pipe) : Receiver := ⟨fd, .empty, []⟩

def step (r : Receiver) : ReceiverStep → Receiver
  | .receive choice =>
    let (_, rx, fd) := sbReceive r.fd r.rx choice
    { r with rx, fd }
  | .next =>
    match sbPeek r.rx with
    | .frame type size data =>
      { r with rx := sbConsume r.rx (8 + size), returned := r.returned ++ [.frame type size data] }
    | .incomplete => r
    | .invalid => r

theorem step_receive (r : Receiver) (choice : ReadChoice) : r.step (.receive choice) =
    ⟨(sbReceive r.fd r.rx choice).2.2, (sbReceive r.fd r.rx choice).2.1, r.returned⟩ := rfl

/-- Some of the frames were returned; the bytes of the others are in the queue and the stream. -/
structure Decodes (frames : List Packet) (r : Receiver) (rest : List Packet) : Prop where
  valid : r.rx.Valid
  returned : frames.map Packet.view = r.returned ++ rest.map Packet.view
  bytes : r.rx.contents ++ r.fd.bytes = packets.stream rest

theorem start_decodes (frames : List Packet) (closed : Bool) :
    Decodes frames (start ⟨packets.stream frames, closed⟩) frames :=
  ⟨SbQueue.empty_valid, rfl, by rw [start, SbQueue.contents_empty, List.nil_append]⟩

variable {frames rest : List Packet} {r : Receiver}

theorem Decodes.peek (decodes : Decodes frames r rest) :
    (∃ p more, rest = p :: more ∧ sbPeek r.rx = p.view ∧
      Decodes frames (r.step .next) more ∧
      (r.step .next).rx.contents.length < r.rx.contents.length) ∨
    (sbPeek r.rx = .incomplete ∧ r.step .next = r ∧ (r.fd.bytes = [] → rest = [])) := by
  rcases sbPeek_framed packets (fun p => p.payload.length) rfl rfl Packet.length_encode
    decodes.valid r.fd.bytes rest decodes.bytes with ⟨p, more, cons, seen, valid, tail⟩ | ⟨seen, last⟩
  · have frame : sbPeek r.rx = .frame p.type.toNat p.payload.length p.payload := seen
    have stepped : r.step .next = { r with
        rx := sbConsume r.rx (8 + p.payload.length), returned := r.returned ++ [p.view] } := by
      simp only [step, frame, Packet.view]
    left
    refine ⟨p, more, cons, seen, ?_, ?_⟩
    · rw [stepped]
      refine ⟨valid, ?_, tail⟩
      rw [decodes.returned, cons, List.map_cons, List.append_assoc, List.singleton_append]
    · rw [stepped]
      have stored := sbPeek_stored frame
      rw [(sbConsume_spec decodes.valid _ stored).2, List.length_drop, decodes.valid.length_contents]
      omega
  · exact Or.inr ⟨seen, by simp only [step, seen], last⟩

theorem Decodes.step (decodes : Decodes frames r rest) (s : ReceiverStep) :
    ∃ more, Decodes frames (r.step s) more := by
  cases s with
  | receive choice =>
    obtain ⟨valid, bytes⟩ := sbReceive_spec decodes.valid r.fd choice
    exact ⟨rest, valid, decodes.returned, bytes.trans decodes.bytes⟩
  | next =>
    rcases decodes.peek with ⟨p, more, -, -, after, -⟩ | ⟨-, same, -⟩
    · exact ⟨more, after⟩
    · exact ⟨rest, by rw [same]; exact decodes⟩

theorem run_decodes (decodes : Decodes frames r rest) (steps : List ReceiverStep) :
    ∃ more, Decodes frames (run step r steps) more :=
  run_invariant step (fun _ => True) (fun r => ∃ rest, Decodes frames r rest)
    (fun _ s _ ⟨_, decodes⟩ => decodes.step s) steps (fun _ _ => trivial) r ⟨rest, decodes⟩

end Receiver

/-! ### Room for a chunk -/

theorem sbPeek_eq_invalid_iff (q : SbQueue) :
    sbPeek q = .invalid ↔ 8 ≤ sbSize q ∧ sbChunk < leValue (slice q.data (q.start + 4) 4) := by
  unfold sbPeek
  dsimp only
  split
  next short =>
    simp only [reduceCtorEq, false_iff, not_and]
    omega
  next header =>
    split
    next large => exact iff_of_true rfl ⟨Nat.le_of_not_lt header, large⟩
    next small =>
      have other : ¬(8 ≤ sbSize q ∧ sbChunk < leValue (slice q.data (q.start + 4) 4)) :=
        fun both => small both.2
      split <;> simp [other]

theorem sbRoom_of_incomplete {q : SbQueue} (waiting : sbPeek q = .incomplete) :
    sbChunk ≤ sbRoom q := by
  have short : sbSize q < 8 + sbChunk := by
    unfold sbPeek at waiting
    split at waiting
    · omega
    · dsimp only at waiting
      split at waiting
      · cases waiting
      · split at waiting
        · omega
        · cases waiting
  simp only [sbRoom, sbChunk, sbCapacity] at *
  omega

theorem sbReceive_progress {q : SbQueue} (room : sbChunk ≤ sbRoom q) {fd : Pipe}
    (some : fd.bytes ≠ []) (n : Nat) :
    (sbReceive fd q (.upTo n)).2.2.bytes.length < fd.bytes.length := by
  have there := List.length_pos_iff.mpr some
  have space : 0 < sbRoom q := Nat.lt_of_lt_of_le (by decide) room
  have request : 0 < min (sbRoom q) sbChunk := Nat.lt_min.mpr ⟨space, by decide⟩
  rcases read : fd.read (min (sbRoom q) sbChunk) (.upTo n) with ⟨result, after⟩
  -- The kernel transfers at least one byte, as both the request and the stream have one.
  have transferred : ∃ b bytes, result = .data (b :: bytes) := by
    simp only [Pipe.read] at read
    rw [if_neg (by omega)] at read
    obtain ⟨rfl, -⟩ := Prod.mk.inj read
    have long : 0 < (fd.bytes.take
        (min (min (max n 1) (min (sbRoom q) sbChunk)) fd.bytes.length)).length := by
      rw [List.length_take]
      omega
    obtain ⟨b, bytes, cons⟩ := List.exists_cons_of_ne_nil (List.ne_nil_of_length_pos long)
    exact ⟨b, bytes, by rw [cons]⟩
  obtain ⟨b, bytes, rfl⟩ := transferred
  obtain ⟨whole, -, -⟩ := fd.read_data _ _ _ _ read
  have shorter : after.bytes.length < fd.bytes.length := by
    rw [← whole, List.length_append, List.length_cons]
    omega
  simp only [sbReceive, if_neg (Nat.ne_of_gt space), read]
  split <;> exact shorter

/-! ### Completion -/

/-- However far a receiver is, it can go on until all frames were returned. -/
theorem Receiver.Decodes.exists_completion {frames rest : List Packet} {r : Receiver}
    (decodes : Receiver.Decodes frames r rest) :
    ∃ more, (run Receiver.step r more).returned = frames.map Packet.view := by
  -- A receive moves a byte from the stream to the queue, a frame takes bytes off the queue.
  induction total : 2 * r.fd.bytes.length + r.rx.contents.length using Nat.strongRecOn
    generalizing r rest with
  | ind size ih =>
    rcases decodes.peek with ⟨p, more, -, seen, after, fewer⟩ | ⟨waiting, -, last⟩
    · have same : (r.step .next).fd = r.fd := by
        rw [Packet.view] at seen
        simp only [Receiver.step, seen]
      obtain ⟨steps, complete⟩ := ih _ (by rw [← total, same]; omega) after rfl
      exact ⟨.next :: steps, complete⟩
    · by_cases empty : r.fd.bytes = []
      · refine ⟨[], ?_⟩
        rw [run_nil, decodes.returned, last empty, List.map_nil, List.append_nil]
      · have fewer := sbReceive_progress (sbRoom_of_incomplete waiting) empty 1
        obtain ⟨valid, bytes⟩ := sbReceive_spec decodes.valid r.fd (.upTo 1)
        have sizes := congrArg List.length bytes
        rw [List.length_append, List.length_append] at sizes
        have after : Receiver.Decodes frames (r.step (.receive (.upTo 1))) rest :=
          ⟨valid, decodes.returned, bytes.trans decodes.bytes⟩
        have less : 2 * (r.step (.receive (.upTo 1))).fd.bytes.length +
            (r.step (.receive (.upTo 1))).rx.contents.length < size := by
          rw [← total]
          simp only [Receiver.step_receive]
          omega
        obtain ⟨steps, complete⟩ := ih _ less after rfl
        exact ⟨.receive (.upTo 1) :: steps, complete⟩

/-! ### The relays -/

theorem frameLoop_waiting {σ : Type} {handle : σ → Nat → Nat → List UInt8 → Verdict σ}
    {rx rx' : SbQueue} {s s' : σ} (ended : frameLoop handle rx s = (rx', s', .waiting)) :
    sbPeek rx' = .incomplete := by
  fun_induction frameLoop handle rx s with
  | case1 rx s found =>
    cases ended
    exact found
  | case2 => cases ended
  | case3 => cases ended
  | case4 => cases ended
  | case5 rx s type size data _ _ _ ih => exact ih ended

theorem readable_report {revents : Revents} (pollin : revents.pollin = true) (wantOut : Bool) :
    (revents.report true true wantOut).readable = true := by
  simp [Revents.report, Revents.readable, pollin]

section Relays

variable {channel : Pipe} {first : Revents} {n : Nat}

theorem consoleTransfer_reads {h : Host} (waiting : sbPeek h.rx = .incomplete)
    (connected : h.connected = true) (noExit : h.receivedExit = false) (some : channel.bytes ≠ [])
    (pollin : first.pollin = true) {ev : HostEvents} (chosen : ev.channelRead = .upTo n)
    (second third fourth : Revents) :
    (consoleTransfer h channel ev first second third fourth).2.1.bytes.length <
      channel.bytes.length := by
  have room := sbRoom_of_incomplete waiting
  have read : (consoleTransfer h channel ev first second third fourth).2.1 =
      (sbReceive channel h.rx ev.channelRead).2.2 := by
    simp only [consoleTransfer, consoleIo, decide_eq_true room, connected, noExit, Bool.not_false,
      Bool.true_and, Bool.true_or, consoleChannelIn, readable_report pollin, if_true]
    split <;> rfl
  rw [read, chosen]
  exact sbReceive_progress room some n

theorem relayTransfer_reads {g : Guest} (waiting : sbPeek g.rx = .incomplete)
    (some : channel.bytes ≠ []) (pollin : first.pollin = true) {ev : GuestEvents}
    (chosen : ev.channelRead = .upTo n) (second third fourth : Revents) :
    (relayTransfer g channel ev first second third fourth).2.1.bytes.length <
      channel.bytes.length := by
  have room := sbRoom_of_incomplete waiting
  have read : (relayTransfer g channel ev first second third fourth).2.1 =
      (sbReceive channel g.rx ev.channelRead).2.2 := by
    simp only [relayTransfer, relayIo, decide_eq_true room, Bool.true_or, relayChannelIn,
      readable_report pollin, if_true]
  rw [read, chosen]
  exact sbReceive_progress room some n

/-- After a frame loop that ended with an incomplete frame the launcher reads what the channel
has, unless it leaves its loop. -/
theorem consoleAfterFrames_reads {h : Host} (waiting : sbPeek h.rx = .incomplete)
    (connected : h.connected = true) (noExit : h.receivedExit = false) (some : channel.bytes ≠ [])
    (pollin : first.pollin = true) {ev : HostEvents} (chosen : ev.channelRead = .upTo n)
    {second third fourth : Revents} (polled : ev.poll = .ready first second third fourth)
    (stays : (consoleAfterFrames h true channel ev).1.phase = .running) :
    (consoleAfterFrames h true channel ev).2.1.bytes.length < channel.bytes.length := by
  unfold consoleAfterFrames at stays ⊢
  simp only [noExit, connected, Bool.false_eq_true, false_and, not_true, if_false] at stays ⊢
  split at stays
  · cases stays
  next inTime =>
    rw [if_neg inTime, polled]
    exact consoleTransfer_reads waiting connected noExit some pollin chosen second third fourth

theorem relayAfterFrames_reads {g : Guest} (waiting : sbPeek g.rx = .incomplete)
    (some : channel.bytes ≠ []) (pollin : first.pollin = true) {ev : GuestEvents}
    (chosen : ev.channelRead = .upTo n) {second third fourth : Revents}
    (polled : ev.poll = .ready first second third fourth)
    (stays : (relayAfterFrames g channel ev).1.phase = .running) :
    (relayAfterFrames g channel ev).2.1.bytes.length < channel.bytes.length := by
  unfold relayAfterFrames at stays ⊢
  dsimp only at stays ⊢
  split at stays
  · cases stays
  next more =>
    rw [if_neg more, polled]
    -- What the relay does before it polls leaves the received bytes alone.
    have same : sbPeek (relaySendExit (relayCloseInput g)).rx = .incomplete := by
      rw [relaySendExit_rx]
      exact waiting
    exact relayTransfer_reads same some pollin chosen second third fourth

end Relays

/-! ### The result -/

/-- However the bytes of a list of frames are cut into reads and whenever frames are taken off, the
frames come out in their order and all of them in the end. A partial frame always leaves room for
the next read, which both relays then make. -/
theorem framing_independent_of_chunking :
    (∀ (frames : List Packet) (closed : Bool) (steps : List ReceiverStep),
      let r := run Receiver.step (.start ⟨packets.stream frames, closed⟩) steps
      r.returned <+: frames.map Packet.view ∧
      (sbPeek r.rx = .incomplete ∨
        ∃ p : Packet, sbPeek r.rx = p.view ∧ r.returned ++ [p.view] <+: frames.map Packet.view) ∧
      (r.fd.bytes = [] → sbPeek r.rx = .incomplete → r.returned = frames.map Packet.view) ∧
      ∃ more, (run Receiver.step r more).returned = frames.map Packet.view) ∧
    (∀ q, sbPeek q = .invalid → 8 ≤ sbSize q ∧ sbChunk < leValue (slice q.data (q.start + 4) 4)) ∧
    (∀ q, sbPeek q = .incomplete → sbChunk ≤ sbRoom q) ∧
    (∀ (rx₀ rx : SbQueue) (h₀ h : Host), frameLoop consoleFrame rx₀ h₀ = (rx, h, .waiting) →
      h.connected = true → h.receivedExit = false →
      ∀ (channel : Pipe) (ev : HostEvents) (first second third fourth : Revents) (n : Nat),
        channel.bytes ≠ [] → ev.poll = .ready first second third fourth → first.pollin = true →
        ev.channelRead = .upTo n →
        (consoleAfterFrames { h with rx } true channel ev).1.phase = .running →
        (consoleAfterFrames { h with rx } true channel ev).2.1.bytes.length <
          channel.bytes.length) ∧
    ∀ (rx₀ rx : SbQueue) (g₀ g : Guest), frameLoop relayFrame rx₀ g₀ = (rx, g, .waiting) →
      ∀ (channel : Pipe) (ev : GuestEvents) (first second third fourth : Revents) (n : Nat),
        channel.bytes ≠ [] → ev.poll = .ready first second third fourth → first.pollin = true →
        ev.channelRead = .upTo n →
        (relayAfterFrames { g with rx } channel ev).1.phase = .running →
        (relayAfterFrames { g with rx } channel ev).2.1.bytes.length < channel.bytes.length := by
  refine ⟨?_, fun q => (sbPeek_eq_invalid_iff q).mp, fun q => sbRoom_of_incomplete, ?_, ?_⟩
  · intro frames closed steps r
    obtain ⟨rest, decodes⟩ := Receiver.run_decodes (Receiver.start_decodes frames closed) steps
    -- `rest` are the frames that were not returned yet, with all their bytes.
    refine ⟨⟨rest.map Packet.view, decodes.returned.symm⟩, ?_, ?_, decodes.exists_completion⟩
    · rcases decodes.peek with ⟨p, more, cons, seen, -, -⟩ | ⟨waiting, -, -⟩
      · refine Or.inr ⟨p, seen, more.map Packet.view, ?_⟩
        rw [decodes.returned, cons, List.map_cons, List.append_assoc, List.singleton_append]
      · exact Or.inl waiting
    · intro received waiting
      rcases decodes.peek with ⟨p, more, -, seen, -, -⟩ | ⟨-, -, last⟩
      · rw [seen] at waiting
        cases waiting
      · rw [decodes.returned, last received, List.map_nil, List.append_nil]
  · intro rx₀ rx h₀ h ended connected noExit channel ev first second third fourth n some polled
      pollin chosen stays
    exact consoleAfterFrames_reads (h := { h with rx }) (frameLoop_waiting ended) connected noExit
      some pollin chosen polled stays
  · intro rx₀ rx g₀ g ended channel ev first second third fourth n some polled pollin chosen stays
    exact relayAfterFrames_reads (g := { g with rx }) (frameLoop_waiting ended) some pollin chosen
      polled stays

def partialHeader : SbQueue := (sbAppend .empty [2, 0, 0]).1

def startedHost : Host := { Host.start false .direct .direct with rx := partialHeader }

/-- One readable channel, of which a read transfers everything that fits. -/
def channelReadable : HostEvents :=
  { raw := false, window := none, late := false, channelRead := .upTo sbChunk,
    poll := .ready ⟨true, false, false, false⟩ .none .none .none, channelWrite := .again,
    inputRead := .again, outWrite := .again, errWrite := .again }

/-- The launcher reads the rest of the header. -/
theorem partialHeader_read :
    (consoleAfterFrames startedHost true ⟨[0, 0, 0, 0, 0], false⟩ channelReadable).2.1.bytes.length < 5 := by
  have waiting : sbPeek partialHeader = .incomplete := by decide +kernel
  have ended : frameLoop consoleFrame partialHeader startedHost =
      (partialHeader, startedHost, .waiting) := by
    unfold frameLoop
    split <;> simp_all
  have read := framing_independent_of_chunking.2.2.2.1 partialHeader partialHeader startedHost
    startedHost ended rfl rfl ⟨[0, 0, 0, 0, 0], false⟩ channelReadable _ _ _ _ sbChunk (by simp) rfl rfl
    rfl
  exact read (by decide +kernel)

end LashOs.Console
