import Mathlib.Data.List.Basic

/-!
# Self-delimiting frames on a byte stream

A sender writes whole frames, the stream cuts them anywhere, and a reader looks at the
head of what has arrived. A framing is usable when a complete frame is recognised
whatever follows it and a cut-off frame is recognised as incomplete.
-/
namespace Base

/-- `peek` is the reader's view of the bytes that have arrived. -/
structure Framing (α β γ : Type) where
  encode : α → List β
  peek : List β → γ
  view : α → γ
  incomplete : γ
  nonempty : ∀ a, encode a ≠ []
  idle : peek [] = incomplete
  complete : ∀ a rest, peek (encode a ++ rest) = view a
  cutOff : ∀ a some rest, some ++ rest = encode a → rest ≠ [] → peek some = incomplete

namespace Framing

variable {α β γ : Type} (F : Framing α β γ)

/-- The stream of a list of frames. -/
def stream (frames : List α) : List β := frames.flatMap F.encode

@[simp] theorem stream_nil : F.stream [] = [] := rfl

@[simp] theorem stream_cons (a : α) (frames : List α) :
    F.stream (a :: frames) = F.encode a ++ F.stream frames := by
  simp [stream]

@[simp] theorem stream_append (frames more : List α) :
    F.stream (frames ++ more) = F.stream frames ++ F.stream more := by
  simp [stream]

/-- The reader's view of any part of a stream: its next frame, or nothing yet. -/
theorem peek_stream (arrived later : List β) (frames : List α)
    (split : arrived ++ later = F.stream frames) :
    (∃ a rest more, frames = a :: rest ∧ arrived = F.encode a ++ more ∧
      more ++ later = F.stream rest ∧ F.peek arrived = F.view a) ∨
    (F.peek arrived = F.incomplete ∧ (later = [] → frames = [])) := by
  cases frames with
  | nil =>
    right
    have empty : arrived ++ later = [] := split
    rw [(List.append_eq_nil_iff.mp empty).1]
    exact ⟨F.idle, fun _ => rfl⟩
  | cons a rest =>
    rw [stream_cons] at split
    rcases List.append_eq_append_iff.mp split with ⟨missing, tail, head⟩ | ⟨more, head, tail⟩
    · -- The head frame has not arrived as a whole, unless nothing of it is missing.
      by_cases none : missing = []
      · left
        subst none
        refine ⟨a, rest, [], rfl, by simpa using tail.symm, by simpa using head, ?_⟩
        have whole : arrived = F.encode a ++ [] := by simpa using tail.symm
        rw [whole, F.complete]
      · right
        refine ⟨F.cutOff a arrived missing tail.symm none, ?_⟩
        intro last
        rw [last] at head
        exact absurd (List.append_eq_nil_iff.mp head.symm).1 none
    · left
      exact ⟨a, rest, more, rfl, head, tail.symm, by rw [head, F.complete]⟩

end Framing

end Base
