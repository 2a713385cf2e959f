import LashOs.Base.Run
import LashOs.Console.Queue

/-!
# The console queue over a run of calls

Any sequence of `sb_append`, `sb_packet` and `sb_consume` on a zeroed queue. Next to the queue
runs its history: the bytes of the calls that were accepted and how many bytes were consumed.
The queue always holds the rest of that history, wherever it lies in the array.
-/
namespace LashOs.Console

open Base

inductive QueueCall where
  | append (data : List UInt8)
  | packet (type : UInt32) (data : List UInt8)
  | consume (n : Nat)
  deriving DecidableEq, Repr

namespace QueueCall

def apply (q : SbQueue) : QueueCall → SbQueue × Except Errno Unit
  | .append data => sbAppend q data
  | .packet type data => sbPacket q type.toNat data
  | .consume n => (sbConsume q n, .ok ())

def bytes : QueueCall → List UInt8
  | .append data => data
  | .packet type data => sbHeader type.toNat data.length ++ data
  | .consume _ => []

def taken : QueueCall → Nat
  | .consume n => n
  | _ => 0

def Within (q : SbQueue) : QueueCall → Prop
  | .consume n => n ≤ sbSize q
  | _ => True

end QueueCall

structure QueueHistory where
  queue : SbQueue
  accepted : List UInt8
  consumed : Nat

namespace QueueHistory

def start : QueueHistory := ⟨.empty, [], 0⟩

def step (s : QueueHistory) (call : QueueCall) : QueueHistory :=
  match call.apply s.queue with
  | (q, .ok _) => ⟨q, s.accepted ++ call.bytes, s.consumed + call.taken⟩
  | (q, .error _) => { s with queue := q }

def Allowed (s : QueueHistory) (call : QueueCall) : Prop := call.Within s.queue

/-- The queue holds what was accepted and not yet consumed. -/
structure Tracks (s : QueueHistory) : Prop where
  valid : s.queue.Valid
  consumed_le : s.consumed ≤ s.accepted.length
  contents : s.queue.contents = s.accepted.drop s.consumed

theorem start_tracks : start.Tracks :=
  ⟨SbQueue.empty_valid, Nat.le_refl 0, SbQueue.contents_empty⟩

end QueueHistory

/-! ### When a call is accepted -/

theorem sbAppend_ok_iff {q : SbQueue} (valid : q.Valid) (data : List UInt8) :
    (sbAppend q data).2 = .ok () ↔ data.length ≤ sbRoom q := by
  constructor
  · intro accepted
    by_contra full
    rw [sbAppend_full q data (Nat.lt_of_not_le full)] at accepted
    cases accepted
  · intro fits
    obtain ⟨q', appended, -⟩ := sbAppend_spec valid data fits
    rw [appended]

theorem sbPacket_ok_iff {q : SbQueue} (valid : q.Valid) (type : Nat) (data : List UInt8) :
    (sbPacket q type data).2 = .ok () ↔ data.length ≤ sbChunk ∧ 8 + data.length ≤ sbRoom q := by
  constructor
  · intro accepted
    by_contra refused
    rw [sbPacket_full q type data (by omega)] at accepted
    cases accepted
  · rintro ⟨small, fits⟩
    obtain ⟨q', stored, -⟩ := sbPacket_spec valid type data small fits
    rw [stored]

theorem QueueCall.apply_error {q : SbQueue} (valid : q.Valid) (call : QueueCall) {error : Errno}
    (failed : (call.apply q).2 = .error error) : (call.apply q).1 = q := by
  cases call with
  | append data =>
    by_cases fits : data.length ≤ sbRoom q
    · have accepted := (sbAppend_ok_iff valid data).mpr fits
      simp only [QueueCall.apply, accepted] at failed
      cases failed
    · simp only [QueueCall.apply, sbAppend_full q data (Nat.lt_of_not_le fits)]
  | packet type data =>
    by_cases fits : data.length ≤ sbChunk ∧ 8 + data.length ≤ sbRoom q
    · have accepted := (sbPacket_ok_iff valid type.toNat data).mpr fits
      simp only [QueueCall.apply, accepted] at failed
      cases failed
    · simp only [QueueCall.apply, sbPacket_full q type.toNat data (by omega)]
  | consume n => cases failed

theorem QueueCall.apply_ok {q : SbQueue} (valid : q.Valid) (call : QueueCall)
    (within : call.Within q) (accepted : (call.apply q).2 = .ok ()) :
    (call.apply q).1.Valid ∧ call.taken ≤ q.contents.length ∧
      (call.apply q).1.contents = q.contents.drop call.taken ++ call.bytes := by
  cases call with
  | append data =>
    obtain ⟨q', appended, valid', contents'⟩ :=
      sbAppend_spec valid data ((sbAppend_ok_iff valid data).mp accepted)
    simp only [QueueCall.apply, appended, QueueCall.taken, List.drop_zero]
    exact ⟨valid', Nat.zero_le _, contents'⟩
  | packet type data =>
    obtain ⟨small, fits⟩ := (sbPacket_ok_iff valid type.toNat data).mp accepted
    obtain ⟨q', stored, valid', contents'⟩ := sbPacket_spec valid type.toNat data small fits
    simp only [QueueCall.apply, stored, QueueCall.taken, List.drop_zero]
    exact ⟨valid', Nat.zero_le _, contents'⟩
  | consume n =>
    obtain ⟨valid', contents'⟩ := sbConsume_spec valid n within
    refine ⟨valid', ?_, ?_⟩
    · rw [valid.length_contents]
      exact within
    · rw [QueueCall.bytes, List.append_nil]
      exact contents'

/-! ### Runs -/

theorem QueueHistory.step_tracks (s : QueueHistory) (call : QueueCall) (allowed : s.Allowed call)
    (tracks : s.Tracks) : (s.step call).Tracks := by
  rcases returned : call.apply s.queue with ⟨q, error | done⟩
  · -- A refused call changes neither the queue nor the history.
    have same := call.apply_error tracks.valid (congrArg Prod.snd returned)
    rw [returned] at same
    simp only [QueueHistory.step, returned]
    rw [show q = s.queue from same]
    exact tracks
  · obtain ⟨valid, stored, contents⟩ :=
      call.apply_ok tracks.valid allowed (congrArg Prod.snd returned)
    rw [returned] at valid contents
    rw [tracks.contents, List.length_drop] at stored
    have consumed_le := tracks.consumed_le
    simp only [QueueHistory.step, returned]
    have within : s.consumed + call.taken ≤ s.accepted.length := by omega
    refine ⟨valid, ?_, ?_⟩
    · rw [List.length_append]
      exact Nat.le_add_right_of_le within
    · rw [List.drop_append_of_le_length within, ← List.drop_drop, ← tracks.contents]
      exact contents

/-- The queue is a bounded first-in first-out buffer: after every sequence of calls that consume
stored bytes only, the stored bytes are the accepted ones without those that were consumed, and
whether a call is accepted depends on their number alone. -/
theorem sbQueue_refines_fifo (calls : List QueueCall)
    (allowed : Permits QueueHistory.step QueueHistory.Allowed QueueHistory.start calls) :
    let s := run QueueHistory.step QueueHistory.start calls
    s.queue.start ≤ s.queue.end_ ∧ s.queue.end_ ≤ sbCapacity ∧
      s.consumed ≤ s.accepted.length ∧
      slice s.queue.data s.queue.start (sbSize s.queue) = s.accepted.drop s.consumed ∧
      sbSize s.queue = s.accepted.length - s.consumed ∧
      (∀ data, (sbAppend s.queue data).2 = .ok () ↔
        data.length ≤ sbCapacity - sbSize s.queue) ∧
      (∀ type data, (sbPacket s.queue type data).2 = .ok () ↔
        data.length ≤ sbChunk ∧ 8 + data.length ≤ sbCapacity - sbSize s.queue) ∧
      ∀ (call : QueueCall) (error : Errno),
        (call.apply s.queue).2 = .error error → (call.apply s.queue).1 = s.queue := by
  intro s
  have tracks : s.Tracks :=
    (allowed.always QueueHistory.step_tracks QueueHistory.start_tracks).final
  have size : sbSize s.queue = s.accepted.length - s.consumed := by
    rw [← tracks.valid.length_contents, tracks.contents, List.length_drop]
  exact ⟨tracks.valid.start_le, tracks.valid.end_le, tracks.consumed_le, tracks.contents, size,
    sbAppend_ok_iff tracks.valid, sbPacket_ok_iff tracks.valid,
    fun call _ failed => call.apply_error tracks.valid failed⟩

/-- Two accepted calls of three, with a part of the first one consumed. -/
def partlyConsumed : List QueueCall :=
  [.append [1, 2, 3], .consume 2, .packet 4 (List.replicate 9000 0), .packet 7 []]

theorem partlyConsumed_held :
    let s := run QueueHistory.step QueueHistory.start partlyConsumed
    s.queue.contents = s.accepted.drop s.consumed := by
  have allowed :
      Permits QueueHistory.step QueueHistory.Allowed QueueHistory.start partlyConsumed := by
    refine ⟨trivial, ?_, trivial, trivial, trivial⟩
    change 2 ≤ 3
    decide
  exact (sbQueue_refines_fifo partlyConsumed allowed).2.2.2.1

end LashOs.Console
