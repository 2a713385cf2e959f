import LashOs.Base.Run
import LashOs.Console.Host

/-!
# The joined relays

The guest's and the launcher's relay with a reliable byte channel in each direction. An
action is one iteration of one of them, or a signal to the launcher; a run is a list of
actions, so it is one interleaving with all of the environment's choices.
-/
namespace LashOs.Console

open Base

structure System where
  guest : Guest
  host : Host
  -- Bytes the guest has written and the launcher has not read.
  toHost : List UInt8
  -- Bytes the launcher has written and the guest has not read.
  toGuest : List UInt8

inductive Action where
  | guest (ev : GuestEvents)
  | host (ev : HostEvents)
  | signal (signo : Nat)

def System.start (terminal active : Bool) (outKind errKind : StreamKind) : System :=
  { guest := .start terminal, host := .start active outKind errKind, toHost := [], toGuest := [] }

/-- One action. A relay that has left its loop closes its end of the channel. -/
def System.step (s : System) : Action → System
  | .guest ev =>
    let (guest, channel, written) :=
      s.guest.iterate ⟨s.toGuest, decide (s.host.phase ≠ .running)⟩ ev
    { s with guest, toGuest := channel.bytes, toHost := s.toHost ++ written }
  | .host ev =>
    let (host, channel, written) :=
      s.host.iterate ⟨s.toHost, decide (s.guest.phase ≠ .running)⟩ ev
    { s with host, toHost := channel.bytes, toGuest := s.toGuest ++ written }
  | .signal signo => { s with host := caughtSignal s.host signo }

def System.run (s : System) (actions : List Action) : System := Base.run System.step s actions

/-! ### Facts about frames that both directions use -/

def payloads (type : SbType) (frames : List Frame) : List UInt8 :=
  frames.flatMap fun f => if f.type = type then f.payload else []

@[simp] theorem payloads_nil (type : SbType) : payloads type [] = [] := rfl

@[simp] theorem payloads_cons (type : SbType) (f : Frame) (frames : List Frame) :
    payloads type (f :: frames) = (if f.type = type then f.payload else []) ++ payloads type frames := by
  simp [payloads]

@[simp] theorem payloads_append (type : SbType) (frames more : List Frame) :
    payloads type (frames ++ more) = payloads type frames ++ payloads type more := by
  simp [payloads]

theorem send_spec {tx : SbQueue} (valid : tx.Valid) (frames : List Frame) (type : SbType)
    (payload : List UInt8) (bounded : payload.length ≤ sbChunk)
    (fits : payload.length + 8 ≤ sbRoom tx) :
    (sbPacket tx type.code payload).1.Valid ∧
    (sbPacket tx type.code payload).1.contents =
      tx.contents ++ (⟨type, payload, bounded⟩ : Frame).encode ∧
    record frames type payload (sbPacket tx type.code payload).2 =
      frames ++ [⟨type, payload, bounded⟩] := by
  obtain ⟨tx', sent, valid', contents'⟩ :=
    sbPacket_frame valid ⟨type, payload, bounded⟩ (by simp only; omega)
  simp only at sent
  rw [sent]
  exact ⟨valid', contents', by simp [record, bounded]⟩

theorem frameLoop_invariant {σ : Type} (handle : σ → Nat → Nat → List UInt8 → Verdict σ)
    (P : σ → Prop)
    (step : ∀ s type size data s', handle s type size data = .next s' → P s → P s')
    (rx : SbQueue) (s : σ) (holds : P s) : P (frameLoop handle rx s).2.1 := by
  fun_induction frameLoop handle rx s with
  | case1 rx s found => exact holds
  | case2 rx s found => exact holds
  | case3 rx s type size data found held => exact holds
  | case4 rx s type size data found rejected => exact holds
  | case5 rx s type size data found s' handled ih =>
    exact ih (step s type size data s' handled holds)

end LashOs.Console
