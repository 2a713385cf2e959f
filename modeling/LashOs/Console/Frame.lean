import LashOs.Base.Framing
import LashOs.Console.Queue

/-!
# Frames

The messages of the console protocol, their encoding, and the loop with which both
relays take complete frames off their receive queue.
-/
namespace LashOs.Console

open Base

/-- The message types, numbered from 1 in the order of the source's enumeration. -/
inductive SbType where
  | input | output | error | eof | exit | window | ready
  deriving DecidableEq, Repr

def SbType.code : SbType → Nat
  | .input => 1
  | .output => 2
  | .error => 3
  | .eof => 4
  | .exit => 5
  | .window => 6
  | .ready => 7

theorem SbType.code_lt (type : SbType) : type.code < 256 ^ 4 := by
  cases type <;> decide

/-- A message that `sb_packet` accepts: its payload is at most one chunk. -/
structure Frame where
  type : SbType
  payload : List UInt8
  bounded : payload.length ≤ sbChunk
  deriving DecidableEq

def Frame.encode (f : Frame) : List UInt8 :=
  sbHeader f.type.code f.payload.length ++ f.payload

theorem length_message (type : Nat) (payload : List UInt8) :
    (sbHeader type payload.length ++ payload).length = 8 + payload.length := by
  simp only [sbHeader, List.length_append, length_leBytes]

theorem Frame.length_encode (f : Frame) : f.encode.length = 8 + f.payload.length :=
  length_message f.type.code f.payload

/-- `sb_peek` on the bytes a queue holds. -/
def peekBytes (bytes : List UInt8) : Peek :=
  if bytes.length < 8 then .incomplete
  else
    let type := leValue (bytes.take 4)
    let size := leValue ((bytes.drop 4).take 4)
    if size > sbChunk then .invalid
    else if bytes.length < 8 + size then .incomplete
    else .frame type size ((bytes.drop 8).take size)

private theorem slice_contents (q : SbQueue) (offset count : Nat)
    (inside : offset + count ≤ sbSize q) :
    slice q.data (q.start + offset) count = (q.contents.drop offset).take count := by
  simp only [SbQueue.contents, ← slice_drop]
  rw [slice_take]
  omega

theorem sbPeek_eq {q : SbQueue} (valid : q.Valid) : sbPeek q = peekBytes q.contents := by
  unfold sbPeek peekBytes
  rw [valid.length_contents]
  split
  · rfl
  next enough =>
    have type := slice_contents q 0 4 (by omega)
    have size := slice_contents q 4 4 (by omega)
    simp only [Nat.add_zero, List.drop_zero] at type
    dsimp only
    rw [type, size]
    split
    · rfl
    · split
      · rfl
      next whole => rw [slice_contents q 8 _ (by omega)]

private theorem header_type (type size : Nat) (rest : List UInt8) (small : type < 256 ^ 4) :
    leValue ((sbHeader type size ++ rest).take 4) = type := by
  have cut : (sbHeader type size ++ rest).take 4 = leBytes 4 type := by
    rw [sbHeader, List.append_assoc, List.take_append_of_le_length (by simp),
      List.take_of_length_le (by simp)]
  rw [cut, leValue_leBytes 4 type small]

private theorem header_size (type size : Nat) (rest : List UInt8) (small : size < 256 ^ 4) :
    leValue (((sbHeader type size ++ rest).drop 4).take 4) = size := by
  have cut : ((sbHeader type size ++ rest).drop 4).take 4 = leBytes 4 size := by
    rw [sbHeader, List.append_assoc, List.drop_append_of_le_length (by simp),
      List.drop_of_length_le (by simp), List.nil_append,
      List.take_append_of_le_length (by simp), List.take_of_length_le (by simp)]
  rw [cut, leValue_leBytes 4 size small]

section Message

variable {type : Nat} {payload : List UInt8}

private theorem size_small (bounded : payload.length ≤ sbChunk) : payload.length < 256 ^ 4 :=
  Nat.lt_of_le_of_lt bounded (by decide)

theorem peekBytes_message (small : type < 256 ^ 4) (bounded : payload.length ≤ sbChunk)
    (rest : List UInt8) :
    peekBytes (sbHeader type payload.length ++ payload ++ rest) =
      .frame type payload.length payload := by
  have size := length_message type payload
  have head : (sbHeader type payload.length).length = 8 := by simp [sbHeader]
  have long : ¬(sbHeader type payload.length ++ payload ++ rest).length < 8 := by
    rw [List.length_append]; omega
  have whole : ¬(sbHeader type payload.length ++ payload ++ rest).length < 8 + payload.length := by
    rw [List.length_append]; omega
  have body : ((sbHeader type payload.length ++ payload ++ rest).drop 8).take payload.length =
      payload := by
    rw [List.append_assoc, ← head, List.drop_left, List.take_left]
  have kind : leValue ((sbHeader type payload.length ++ payload ++ rest).take 4) = type := by
    rw [List.append_assoc, header_type _ _ _ small]
  have field : leValue (((sbHeader type payload.length ++ payload ++ rest).drop 4).take 4) =
      payload.length := by
    rw [List.append_assoc, header_size _ _ _ (size_small bounded)]
  simp only [peekBytes, if_neg long, kind, field, body, if_neg whole,
    if_neg (Nat.not_lt.mpr bounded), gt_iff_lt]

theorem peekBytes_cut (bounded : payload.length ≤ sbChunk) (arrived missing : List UInt8)
    (split : arrived ++ missing = sbHeader type payload.length ++ payload) (some : missing ≠ []) :
    peekBytes arrived = .incomplete := by
  have size := length_message type payload
  have less : arrived.length < 8 + payload.length := by
    have := List.length_pos_iff.mpr some
    rw [← split, List.length_append] at size
    omega
  unfold peekBytes
  split
  · rfl
  next header =>
    -- The size field has arrived, so it is the one of the message.
    have field : leValue ((arrived.drop 4).take 4) = payload.length := by
      rw [← header_size type payload.length payload (size_small bounded), ← split,
        List.drop_append_of_le_length (by omega),
        List.take_append_of_le_length (by rw [List.length_drop]; omega)]
    simp only [field, if_neg (Nat.not_lt.mpr bounded), if_pos less, gt_iff_lt]

end Message

theorem peekBytes_encode (f : Frame) (rest : List UInt8) :
    peekBytes (f.encode ++ rest) = .frame f.type.code f.payload.length f.payload :=
  peekBytes_message f.type.code_lt f.bounded rest

theorem peekBytes_cutOff (f : Frame) (arrived missing : List UInt8)
    (split : arrived ++ missing = f.encode) (some : missing ≠ []) :
    peekBytes arrived = .incomplete :=
  peekBytes_cut f.bounded arrived missing split some

def framing : Framing Frame UInt8 Peek where
  encode := Frame.encode
  peek := peekBytes
  view f := .frame f.type.code f.payload.length f.payload
  incomplete := .incomplete
  nonempty f := by
    have := f.length_encode
    exact List.ne_nil_of_length_pos (by omega)
  idle := rfl
  complete := peekBytes_encode
  cutOff := peekBytes_cutOff

theorem sbPacket_frame {q : SbQueue} (valid : q.Valid) (f : Frame)
    (fits : 8 + f.payload.length ≤ sbRoom q) :
    ∃ q', sbPacket q f.type.code f.payload = (q', .ok ()) ∧ q'.Valid ∧
      q'.contents = q.contents ++ f.encode :=
  sbPacket_spec valid f.type.code f.payload f.bounded fits

/-! ### The frame loop -/

/-- What a relay does with the frame at the head of its queue. -/
inductive Verdict (σ : Type) where
  -- The frame is handled; the loop consumes it.
  | next (s : σ)
  -- `break`: a destination queue is too full.
  | hold
  -- The frame violates the protocol.
  | reject

/-- How the loop `while ((frame = sb_peek(...)) > 0)` ends. -/
inductive LoopEnd where
  | waiting | held | rejected | malformed
  deriving DecidableEq, Repr

variable {σ : Type}

theorem sbPeek_stored {rx : SbQueue} {type size : Nat} {data : List UInt8}
    (found : sbPeek rx = .frame type size data) : 8 + size ≤ sbSize rx := by
  unfold sbPeek at found
  split at found
  · cases found
  · dsimp only at found
    split at found
    · cases found
    · split at found
      · cases found
      · cases found; omega

/-- The frame loop of both relays: the queue, the relay and how the loop ended. -/
def frameLoop (handle : σ → Nat → Nat → List UInt8 → Verdict σ) (rx : SbQueue) (s : σ) :
    SbQueue × σ × LoopEnd :=
  match _found : sbPeek rx with
  | .incomplete => (rx, s, .waiting)
  | .invalid => (rx, s, .malformed)
  | .frame type size data =>
    match handle s type size data with
    | .hold => (rx, s, .held)
    | .reject => (rx, s, .rejected)
    | .next s => frameLoop handle (sbConsume rx (8 + size)) s
  termination_by sbSize rx
  decreasing_by
    have stored := sbPeek_stored _found
    unfold sbConsume sbSize at *
    split <;> dsimp only <;> omega

def onFrame (handle : σ → Nat → Nat → List UInt8 → Verdict σ) (s : σ) (f : Frame) : Verdict σ :=
  handle s f.type.code f.payload.length f.payload

/-- What `sb_peek` reports when the queue holds the start of a stream, for any kind of messages
that are framed the console's way. -/
theorem sbPeek_framed {α : Type} (F : Framing α UInt8 Peek) (size : α → Nat)
    (peeks : F.peek = peekBytes) (waits : F.incomplete = .incomplete)
    (length_encode : ∀ a, (F.encode a).length = 8 + size a) {rx : SbQueue} (valid : rx.Valid)
    (later : List UInt8) (items : List α) (split : rx.contents ++ later = F.stream items) :
    (∃ a rest, items = a :: rest ∧ sbPeek rx = F.view a ∧ (sbConsume rx (8 + size a)).Valid ∧
      (sbConsume rx (8 + size a)).contents ++ later = F.stream rest) ∨
    (sbPeek rx = .incomplete ∧ (later = [] → items = [])) := by
  rw [sbPeek_eq valid, ← peeks, ← waits]
  rcases F.peek_stream _ _ _ split with ⟨a, rest, more, cons, head, tail, seen⟩ | waiting
  · left
    have stored : 8 + size a ≤ sbSize rx := by
      rw [← valid.length_contents, head, List.length_append, length_encode]
      omega
    obtain ⟨valid', contents'⟩ := sbConsume_spec valid _ stored
    refine ⟨a, rest, cons, seen, valid', ?_⟩
    rw [contents', head, ← length_encode, List.drop_left]
    exact tail
  · exact Or.inr waiting

theorem sbPeek_stream {rx : SbQueue} (valid : rx.Valid) (later : List UInt8) (frames : List Frame)
    (split : rx.contents ++ later = framing.stream frames) :
    (∃ f rest, frames = f :: rest ∧
      sbPeek rx = .frame f.type.code f.payload.length f.payload ∧
      (sbConsume rx (8 + f.payload.length)).Valid ∧
      (sbConsume rx (8 + f.payload.length)).contents ++ later = framing.stream rest) ∨
    (sbPeek rx = .incomplete ∧ (later = [] → frames = [])) :=
  sbPeek_framed framing (fun f => f.payload.length) rfl rfl Frame.length_encode valid later frames
    split

/-- Proof rule for the frame loop. `P` relates the relay to the frames still to come;
handling a frame must keep it. Afterwards the queue holds the start of the remaining
frames' stream, and a rejected frame is one the handler rejects. -/
theorem frameLoop_rule (handle : σ → Nat → Nat → List UInt8 → Verdict σ)
    (P : σ → List Frame → Prop)
    (step : ∀ s f rest s', P s (f :: rest) → onFrame handle s f = .next s' → P s' rest)
    (later : List UInt8) (rx : SbQueue) (s : σ) (frames : List Frame) (valid : rx.Valid)
    (split : rx.contents ++ later = framing.stream frames) (holds : P s frames) :
    ∃ rx' s' ended rest, frameLoop handle rx s = (rx', s', ended) ∧ rx'.Valid ∧
      rx'.contents ++ later = framing.stream rest ∧ P s' rest ∧ ended ≠ .malformed ∧
      (ended = .rejected → ∃ f more, rest = f :: more ∧ onFrame handle s' f = .reject) ∧
      (ended = .waiting → later = [] → rest = []) := by
  induction frames generalizing rx s with
  | nil =>
    rcases sbPeek_stream valid later [] split with ⟨f, rest, cons, _⟩ | ⟨seen, _⟩
    · cases cons
    · refine ⟨rx, s, .waiting, [], ?_, valid, split, holds, by simp, by simp, fun _ _ => rfl⟩
      unfold frameLoop
      split <;> simp_all
  | cons f frames ih =>
    rcases sbPeek_stream valid later _ split with ⟨g, rest, cons, seen, valid', tail⟩ | ⟨seen, last⟩
    · cases cons
      unfold frameLoop
      split
      next none => rw [seen] at none; cases none
      next bad => rw [seen] at bad; cases bad
      next type size data found =>
        rw [seen] at found
        cases found
        split
        next held =>
          exact ⟨rx, s, .held, _, rfl, valid, split, holds, by simp, by simp, by simp⟩
        next rejected =>
          exact ⟨rx, s, .rejected, _, rfl, valid, split, holds, by simp,
            fun _ => ⟨f, frames, rfl, rejected⟩, by simp⟩
        next s' handled => exact ih _ s' valid' tail (step s f frames s' holds handled)
    · refine ⟨rx, s, .waiting, _, ?_, valid, split, holds, by simp, by simp, fun _ => last⟩
      unfold frameLoop
      split <;> simp_all

end LashOs.Console
