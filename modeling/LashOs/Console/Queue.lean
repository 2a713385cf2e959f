import LashOs.Base.Bytes
import LashOs.Base.Stream
import LashOs.Errno

/-!
# The console queue

`sb_queue` and its operations, cell by cell, and the byte string that a queue holds.
Every later proof about the relays uses a queue through `contents` only.
-/
namespace LashOs.Console

open Base

/-- `SB_CHUNK`: the largest payload of one frame. -/
def sbChunk : Nat := 8192

/-- `SB_QUEUE`: the cells of one queue. -/
def sbCapacity : Nat := 128 * 1024

structure SbQueue where
  start : Nat
  end_ : Nat
  data : List UInt8

/-- A queue as `calloc` gives it. -/
def SbQueue.empty : SbQueue := ⟨0, 0, List.replicate sbCapacity 0⟩

def sbSize (q : SbQueue) : Nat := q.end_ - q.start

def sbRoom (q : SbQueue) : Nat := sbCapacity - sbSize q

def sbConsume (q : SbQueue) (n : Nat) : SbQueue :=
  if q.start + n = q.end_ then { q with start := 0, end_ := 0 } else { q with start := q.start + n }

/-- `q->start = q->end = 0`, which the relays write out by hand. -/
def SbQueue.reset (q : SbQueue) : SbQueue := { q with start := 0, end_ := 0 }

/-- The `memmove` of `sb_append`: stored bytes go to the front of the buffer. -/
def SbQueue.compact (q : SbQueue) : SbQueue :=
  { start := 0, end_ := q.end_ - q.start,
    data := overwrite q.data 0 (slice q.data q.start (sbSize q)) }

def sbAppend (q : SbQueue) (data : List UInt8) : SbQueue × Except Errno Unit :=
  if sbRoom q < data.length then (q, .error .ENOBUFS)
  else
    let q := if sbCapacity - q.end_ < data.length then q.compact else q
    ({ q with data := overwrite q.data q.end_ data, end_ := q.end_ + data.length }, .ok ())

/-- The header of a frame: its type and the size of its payload, 32 bits each. -/
def sbHeader (type size : Nat) : List UInt8 := leBytes 4 type ++ leBytes 4 size

def sbPacket (q : SbQueue) (type : Nat) (data : List UInt8) : SbQueue × Except Errno Unit :=
  if data.length > sbChunk ∨ sbRoom q < 8 + data.length then (q, .error .ENOBUFS)
  else sbAppend (sbAppend q (sbHeader type data.length)).1 data

/-- What `sb_peek` finds at the head of a queue: a complete frame (it returns 1), an
incomplete one (0) or invalid framing (-1). -/
inductive Peek where
  | frame (type size : Nat) (data : List UInt8)
  | incomplete
  | invalid
  deriving DecidableEq, Repr

def sbPeek (q : SbQueue) : Peek :=
  if sbSize q < 8 then .incomplete
  else
    let type := leValue (slice q.data q.start 4)
    let size := leValue (slice q.data (q.start + 4) 4)
    if size > sbChunk then .invalid
    else if sbSize q < 8 + size then .incomplete
    else .frame type size (slice q.data (q.start + 8) size)

/-- `sb_receive`: its return value, the queue, and the stream it read from. -/
def sbReceive (fd : Pipe) (q : SbQueue) (choice : ReadChoice) : Int × SbQueue × Pipe :=
  if sbRoom q = 0 then (1, q, fd)
  else
    match fd.read (min (sbRoom q) sbChunk) choice with
    | (.data [], fd) => (0, q, fd)
    | (.data (b :: rest), fd) =>
      match sbAppend q (b :: rest) with
      | (q, .ok _) => (1, q, fd)
      | (q, .error _) => (-1, q, fd)
    | (.again, fd) => (1, q, fd)
    | (.failed, fd) => (-1, q, fd)

/-- A `write` of the first `size` stored bytes, shared by `sb_flush` and
`stream_flush`: its return value, the queue, and the bytes the descriptor took. -/
def flushUpTo (q : SbQueue) (size : Nat) : WriteResult → Int × SbQueue × List UInt8
  | .wrote 0 => (-1, q, [])
  | .wrote (n + 1) => (0, sbConsume q (min (n + 1) size), slice q.data q.start (min (n + 1) size))
  | .again => (0, q, [])
  | .failed => (-1, q, [])

def sbFlush (q : SbQueue) (result : WriteResult) : Int × SbQueue × List UInt8 :=
  if sbSize q = 0 then (0, q, []) else flushUpTo q (sbSize q) result

/-! ### The bytes of a queue -/

structure SbQueue.Valid (q : SbQueue) : Prop where
  start_le : q.start ≤ q.end_
  end_le : q.end_ ≤ sbCapacity
  cells : q.data.length = sbCapacity

def SbQueue.contents (q : SbQueue) : List UInt8 := slice q.data q.start (sbSize q)

theorem SbQueue.empty_valid : SbQueue.empty.Valid :=
  ⟨Nat.le_refl _, Nat.zero_le _, List.length_replicate⟩

@[simp] theorem SbQueue.contents_empty : SbQueue.empty.contents = [] := by
  simp [SbQueue.contents, SbQueue.empty, sbSize]

variable {q : SbQueue}

theorem SbQueue.Valid.reset (valid : q.Valid) : q.reset.Valid :=
  ⟨Nat.le_refl _, Nat.zero_le _, valid.cells⟩

@[simp] theorem SbQueue.contents_reset (q : SbQueue) : q.reset.contents = [] := by
  simp [SbQueue.contents, SbQueue.reset, sbSize]

theorem SbQueue.Valid.length_contents (valid : q.Valid) : q.contents.length = sbSize q := by
  have := valid.start_le
  have := valid.end_le
  have := valid.cells
  apply length_slice
  simp only [sbSize]
  omega

theorem SbQueue.Valid.size_le (valid : q.Valid) : sbSize q ≤ sbCapacity := by
  have := valid.end_le
  simp only [sbSize]
  omega

theorem sbSize_eq_zero_iff (valid : q.Valid) : sbSize q = 0 ↔ q.contents = [] := by
  rw [← valid.length_contents, List.length_eq_zero_iff]

theorem sbConsume_spec (valid : q.Valid) (n : Nat) (stored : n ≤ sbSize q) :
    (sbConsume q n).Valid ∧ (sbConsume q n).contents = q.contents.drop n := by
  have order := valid.start_le
  have bound := valid.end_le
  simp only [sbSize] at stored
  unfold sbConsume
  split
  next all =>
    refine ⟨valid.reset, ?_⟩
    have short : q.contents.length ≤ n := by
      rw [valid.length_contents]; simp only [sbSize]; omega
    rw [List.drop_of_length_le short]
    exact q.contents_reset
  next more =>
    refine ⟨⟨by simp only; omega, bound, valid.cells⟩, ?_⟩
    simp only [SbQueue.contents, sbSize, ← slice_drop]
    congr 1
    omega

theorem SbQueue.Valid.compact (valid : q.Valid) :
    q.compact.Valid ∧ q.compact.contents = q.contents := by
  have order := valid.start_le
  have bound := valid.end_le
  have cells := valid.cells
  have size : (slice q.data q.start (sbSize q)).length = q.end_ - q.start := valid.length_contents
  refine ⟨⟨Nat.zero_le _, ?_, ?_⟩, ?_⟩
  · simp only [SbQueue.compact]; omega
  · simp only [SbQueue.compact]
    rw [length_overwrite _ _ _ (by omega), cells]
  · have front := slice_overwrite_front q.data (slice q.data q.start (sbSize q))
    rw [size] at front
    simpa [SbQueue.contents, SbQueue.compact, sbSize] using front

/-- `sb_append` stores all of its bytes behind the others when they fit. -/
theorem sbAppend_spec (valid : q.Valid) (data : List UInt8) (fits : data.length ≤ sbRoom q) :
    ∃ q', sbAppend q data = (q', .ok ()) ∧ q'.Valid ∧ q'.contents = q.contents ++ data := by
  -- Compaction happens exactly when the free cells behind `end_` are too few.
  obtain ⟨base, chosen, baseValid, same, space⟩ :
      ∃ base, (if sbCapacity - q.end_ < data.length then q.compact else q) = base ∧
        base.Valid ∧ base.contents = q.contents ∧ base.end_ + data.length ≤ sbCapacity := by
    have bound := valid.end_le
    simp only [sbRoom, sbSize] at fits
    split
    · refine ⟨_, rfl, valid.compact.1, valid.compact.2, ?_⟩
      have := valid.size_le
      simp only [SbQueue.compact, sbSize] at *
      omega
    · exact ⟨_, rfl, valid, rfl, by omega⟩
  have order := baseValid.start_le
  have cells := baseValid.cells
  refine ⟨{ base with data := overwrite base.data base.end_ data, end_ := base.end_ + data.length },
    by simp only [sbAppend, if_neg (Nat.not_lt.mpr fits), chosen], ⟨?_, ?_, ?_⟩, ?_⟩
  · exact Nat.le_trans order (Nat.le_add_right _ _)
  · exact space
  · rw [length_overwrite _ _ _ (by omega), cells]
  · have extended := slice_overwrite_end base.data base.start (sbSize base) data
      (by simp only [sbSize]; omega)
    have position : base.start + sbSize base = base.end_ := by simp only [sbSize]; omega
    rw [position] at extended
    rw [← same]
    simp only [SbQueue.contents]
    rw [← extended]
    congr 1
    simp only [sbSize]
    omega

theorem sbAppend_full (q : SbQueue) (data : List UInt8) (full : sbRoom q < data.length) :
    sbAppend q data = (q, .error .ENOBUFS) := by
  simp only [sbAppend, if_pos full]

theorem sbPacket_spec (valid : q.Valid) (type : Nat) (data : List UInt8)
    (small : data.length ≤ sbChunk) (fits : 8 + data.length ≤ sbRoom q) :
    ∃ q', sbPacket q type data = (q', .ok ()) ∧ q'.Valid ∧
      q'.contents = q.contents ++ (sbHeader type data.length ++ data) := by
  have head : (sbHeader type data.length).length = 8 := by simp [sbHeader]
  obtain ⟨q₁, first, valid₁, contents₁⟩ :=
    sbAppend_spec valid (sbHeader type data.length) (by rw [head]; omega)
  have size₁ : sbSize q₁ = sbSize q + 8 := by
    rw [← valid₁.length_contents, contents₁, List.length_append, valid.length_contents, head]
  obtain ⟨q₂, second, valid₂, contents₂⟩ :=
    sbAppend_spec valid₁ data (by simp only [sbRoom] at *; omega)
  refine ⟨q₂, ?_, valid₂, ?_⟩
  · have accepted : ¬(data.length > sbChunk ∨ sbRoom q < 8 + data.length) := by omega
    simp only [sbPacket, if_neg accepted, first, second]
  · rw [contents₂, contents₁, List.append_assoc]

theorem sbPacket_full (q : SbQueue) (type : Nat) (data : List UInt8)
    (refused : data.length > sbChunk ∨ sbRoom q < 8 + data.length) :
    sbPacket q type data = (q, .error .ENOBUFS) := by
  simp only [sbPacket, if_pos refused]

theorem sbReceive_spec (valid : q.Valid) (fd : Pipe) (choice : ReadChoice) :
    (sbReceive fd q choice).2.1.Valid ∧
    (sbReceive fd q choice).2.1.contents ++ (sbReceive fd q choice).2.2.bytes =
      q.contents ++ fd.bytes := by
  unfold sbReceive
  split
  · exact ⟨valid, rfl⟩
  next space =>
    rcases read : fd.read (min (sbRoom q) sbChunk) choice with ⟨result, after⟩
    cases result with
    | again => rw [fd.read_other _ _ _ _ read (by simp)]; exact ⟨valid, rfl⟩
    | failed => rw [fd.read_other _ _ _ _ read (by simp)]; exact ⟨valid, rfl⟩
    | data bytes =>
      obtain ⟨whole, bounded, -⟩ := fd.read_data _ _ _ _ read
      cases bytes with
      | nil => exact ⟨valid, by rw [← whole]; rfl⟩
      | cons b rest =>
        obtain ⟨q', appended, valid', contents'⟩ := sbAppend_spec valid (b :: rest) (by omega)
        simp only [appended]
        refine ⟨valid', ?_⟩
        rw [contents', List.append_assoc, whole]

theorem flushUpTo_spec (valid : q.Valid) (size : Nat) (stored : size ≤ sbSize q)
    (result : WriteResult) :
    (flushUpTo q size result).2.1.Valid ∧
    (flushUpTo q size result).2.2 ++ (flushUpTo q size result).2.1.contents = q.contents := by
  match result with
  | .wrote 0 => exact ⟨valid, rfl⟩
  | .again => exact ⟨valid, rfl⟩
  | .failed => exact ⟨valid, rfl⟩
  | .wrote (n + 1) =>
    have within : min (n + 1) size ≤ sbSize q := by omega
    obtain ⟨valid', contents'⟩ := sbConsume_spec valid _ within
    refine ⟨valid', ?_⟩
    simp only [flushUpTo, contents']
    rw [← slice_take q.data q.start (sbSize q) _ within]
    exact List.take_append_drop _ _

theorem sbFlush_spec (valid : q.Valid) (result : WriteResult) :
    (sbFlush q result).2.1.Valid ∧
    (sbFlush q result).2.2 ++ (sbFlush q result).2.1.contents = q.contents := by
  unfold sbFlush
  split
  · exact ⟨valid, rfl⟩
  · exact flushUpTo_spec valid _ (Nat.le_refl _) result

end LashOs.Console
