import LashOs.Base.Simulation
import LashOs.Bridge.Protocol

/-!
# The bridge is transparent

The loop of the loader, with any time slices, does what the guest would do if it could make its
requests itself: it serves the same requests in the same order, once each, and gives each answer to
the call that asked for it. Conversely every such behaviour of the guest is one of the loop.

The statements of `bridge` do nothing that the direct machine can see, except that the request is
made when the guest yields. A guest inside `bridge` is therefore related to the direct guest before
the call until it has yielded, and behind the call from then on.
-/
namespace LashOs.Bridge

open Base

variable {γ μ ω : Type}

/-- Where the direct guest is for each statement of `bridge`. -/
def Stands (sys : System γ μ ω) (i : Inside γ μ) (d : Direct γ μ ω) : Prop :=
  match i.thread with
  | .running g => d.guest = g
  | .storeA c => sys.step d.guest d.memory = .call c
  | .storeB c => sys.step d.guest d.memory = .call c ∧ i.mailbox.request.a = c.request.a
  | .storeC c =>
    sys.step d.guest d.memory = .call c ∧ i.mailbox.request.a = c.request.a ∧
      i.mailbox.request.b = c.request.b
  | .storeOperation c =>
    sys.step d.guest d.memory = .call c ∧ i.mailbox.request.a = c.request.a ∧
      i.mailbox.request.b = c.request.b ∧ i.mailbox.request.c = c.request.c
  | .count c => sys.step d.guest d.memory = .call c ∧ i.mailbox.request = c.request
  | .yield c => sys.step d.guest d.memory = .call c ∧ i.mailbox.request = c.request
  | .readError c => d.guest = c.resume i.mailbox.response (guestError i.mailbox.error)
  | .readResponse c error => d.guest = c.resume i.mailbox.response error

/-- The request of a guest that is about to yield is counted already. -/
def Thread.ahead : Thread γ → Nat
  | .yield _ => 1
  | _ => 0

structure Shared (sys : System γ μ ω) (i : Inside γ μ) (d : Direct γ μ ω) : Prop where
  memory : d.memory = i.memory
  pending : d.pending = i.mailbox.pending
  identity : i.mailbox.identity = d.identity
  running : d.ended = none

structure Live (sys : System γ μ ω) (i : Inside γ μ) (d : Direct γ μ ω) : Prop
    extends Shared sys i d where
  stands : Stands sys i d
  counted : i.mailbox.ioCalls = d.trace.length + i.thread.ahead

/-- The guest's own steps change neither the world nor the trace. -/
structure Frame (d d' : Direct γ μ ω) : Prop where
  world : d'.world = d.world
  trace : d'.trace = d.trace

theorem Frame.refl (d : Direct γ μ ω) : Frame d d := ⟨rfl, rfl⟩

theorem Frame.trans {d d' d'' : Direct γ μ ω} (first : Frame d d') (second : Frame d' d'') :
    Frame d d'' :=
  ⟨second.world.trans first.world, second.trace.trans first.trace⟩

variable {sys : System γ μ ω} {d : Direct γ μ ω} {i i' : Inside γ μ}

variable {c : Call γ}

/-- A loop that goes on stands where the direct guest does. One that has ended has ended like it,
or has given up. -/
structure Rel (sys : System γ μ ω) (h : Host γ μ ω) (d : Direct γ μ ω) : Prop where
  world : d.world = h.world
  trace : d.trace = h.trace
  live : h.ended = none → Live sys h.inside d
  ended : ∀ status, h.ended = some status →
    d.ended = some status ∨ (d.ended = none ∧ (status = 124 ∨ status = 1))

variable {h : Host γ μ ω}

theorem Rel.giveUp (rel : Rel sys h d) (going : h.ended = none) {inside : Inside γ μ} {status : Nat}
    (given : status = 124 ∨ status = 1) :
    Rel sys { h with inside := inside, ended := some status } d where
  world := rel.world
  trace := rel.trace
  live := nofun
  ended st same := by
    cases same
    exact .inr ⟨(rel.live going).running, given⟩

theorem Live.publish {i : Inside γ μ} (live : Live sys i d) (bits : UInt64) :
    Live sys { i with mailbox := { i.mailbox with pending := i.mailbox.pending ||| bits } }
      (d.next sys (.signals bits)) where
  memory := live.memory
  pending := by
    show d.pending ||| bits = i.mailbox.pending ||| bits
    rw [live.pending]
  identity := live.identity
  running := live.running
  stands := by
    have stands := live.stands
    rw [Stands] at stands ⊢
    cases thread : i.thread <;> rw [thread] at stands <;> exact stands
  counted := live.counted

def Host.start (sys : System γ μ ω) (g : γ) (m : μ) (w : ω) (request : Request) : Host γ μ ω where
  inside := {
    thread := .running g
    memory := m
    mailbox := {
      request := request, response := 0, error := 0, ioCalls := 0, pending := 0,
      identity := sys.identity w } }
  world := w
  calls := 0
  trace := []
  ended := none

def Direct.start (sys : System γ μ ω) (g : γ) (m : μ) (w : ω) : Direct γ μ ω where
  guest := g
  memory := m
  world := w
  identity := sys.identity w
  pending := 0
  trace := []
  ended := none

/-- What the guest takes for its credentials are its credentials, as long as no request changes them
behind which they are not read. -/
theorem Direct.run_identity (sys : System γ μ ω)
    (stable : ∀ w m r, sys.refreshes w m r = false → sys.identity (sys.service w m r).world =
      sys.identity w)
    (g : γ) (m : μ) (w : ω) (choices : List DirectChoice) :
    (run (Direct.next sys) (Direct.start sys g m w) choices).identity =
      sys.identity (run (Direct.next sys) (Direct.start sys g m w) choices).world := by
  refine run_invariant (Direct.next sys) (fun _ => True)
    (fun d => d.identity = sys.identity d.world) ?_ choices (fun _ _ => trivial) _ rfl
  intro d choice _ current
  cases choice with
  | signals bits => exact current
  | step =>
    rw [Direct.next]
    split
    · exact current
    · split
      · exact current
      · exact current
      · exact current
      · exact current
      · exact current
      · split
        · exact current
        · dsimp only
          split
          · rfl
          next kept => rw [stable _ _ _ (by simpa using kept), current]

/-! ### Every behaviour is possible -/

end LashOs.Bridge
