import Mathlib.Data.List.Basic

/-!
# Nonblocking byte streams

What a nonblocking `read` or `write` can report, and a reliable stream between two
processes. The kernel's freedom (how much a call transfers, whether it would block)
is an argument, so that "for every chunking" is a quantifier over these arguments.
-/
namespace Base

/-- The result of `read`. No bytes at all stand for the end of the file; `again` is
both `EAGAIN` and `EINTR`. -/
inductive ReadResult where
  | data (bytes : List UInt8)
  | again
  | failed
  deriving DecidableEq, Repr

/-- The result of `write`; `again` is both `EAGAIN` and `EINTR`. -/
inductive WriteResult where
  | wrote (count : Nat)
  | again
  | failed
  deriving DecidableEq, Repr

/-- How the kernel answers one `read` of a stream: it may transfer up to a number of
bytes, report that nothing is there yet, or fail. -/
inductive ReadChoice where
  | upTo (count : Nat)
  | again
  | failed
  deriving DecidableEq, Repr

/-- The reading end of a reliable stream: the bytes on their way, in order, and
whether the writer is gone. -/
structure Pipe where
  bytes : List UInt8
  closed : Bool
  deriving DecidableEq, Repr

/-- A read of at most `request` bytes. At least one byte is transferred if there is
one; an empty stream reports the end of the file only after its writer is gone. -/
def Pipe.read (p : Pipe) (request : Nat) : ReadChoice → ReadResult × Pipe
  | .again => (.again, p)
  | .failed => (.failed, p)
  | .upTo count =>
    let taken := min (min (max count 1) request) p.bytes.length
    if taken = 0 then (if p.closed then .data [] else .again, p)
    else (.data (p.bytes.take taken), { p with bytes := p.bytes.drop taken })

/-- What was read and what is left are the stream, and no more than requested was read. -/
theorem Pipe.read_data (p q : Pipe) (request : Nat) (choice : ReadChoice) (bytes : List UInt8)
    (returned : p.read request choice = (.data bytes, q)) :
    bytes ++ q.bytes = p.bytes ∧ bytes.length ≤ request ∧ q.closed = p.closed := by
  cases choice with
  | again => simp [Pipe.read] at returned
  | failed => simp [Pipe.read] at returned
  | upTo count =>
    simp only [Pipe.read] at returned
    split at returned
    · split at returned
      · simp only [Prod.mk.injEq, ReadResult.data.injEq] at returned
        obtain ⟨rfl, rfl⟩ := returned
        simp
      · simp at returned
    · simp only [Prod.mk.injEq, ReadResult.data.injEq] at returned
      obtain ⟨rfl, rfl⟩ := returned
      refine ⟨List.take_append_drop _ _, ?_, rfl⟩
      simp only [List.length_take]
      omega

theorem Pipe.read_other (p q : Pipe) (request : Nat) (choice : ReadChoice) (result : ReadResult)
    (returned : p.read request choice = (result, q)) (nothing : ∀ bytes, result ≠ .data bytes) :
    q = p := by
  cases choice with
  | again => exact (Prod.mk.inj returned).2.symm
  | failed => exact (Prod.mk.inj returned).2.symm
  | upTo count =>
    simp only [Pipe.read] at returned
    split at returned
    · exact (Prod.mk.inj returned).2.symm
    · exact absurd (Prod.mk.inj returned).1.symm (nothing _)

/-! ### Waiting for several streams -/

/-- The events `poll` reports for one entry. -/
structure Revents where
  pollin : Bool
  pollout : Bool
  pollhup : Bool
  pollerr : Bool
  deriving DecidableEq, Repr

def Revents.none : Revents := ⟨false, false, false, false⟩

/-- What `poll` reports of the events `r` that hold: nothing for a negative descriptor,
readiness only if it was asked for, hang-ups and errors always. -/
def Revents.report (r : Revents) (valid wantIn wantOut : Bool) : Revents :=
  if valid then { r with pollin := r.pollin && wantIn, pollout := r.pollout && wantOut } else .none

@[simp] theorem Revents.report_invalid (r : Revents) (wantIn wantOut : Bool) :
    r.report false wantIn wantOut = .none := rfl

/-- `POLLIN | POLLHUP | POLLERR` -/
def Revents.readable (r : Revents) : Bool := r.pollin || r.pollhup || r.pollerr

/-- `POLLOUT | POLLHUP | POLLERR` -/
def Revents.writable (r : Revents) : Bool := r.pollout || r.pollhup || r.pollerr

/-- The outcome of one `poll` over four entries; `interrupted` is `EINTR`. -/
inductive PollResult where
  | ready (first second third fourth : Revents)
  | interrupted
  | failed
  deriving DecidableEq, Repr

end Base
