import Mathlib.Data.List.Basic

/-!
# Signal handlers of a process

The part of a process that signal delivery works on: the mask and the stack of handlers
that are running. A delivery pushes a handler over whatever runs, holds back more signals
while it runs, and the handler's return gives the old mask back. Signals and the stages of
a handler are parameters.
-/
namespace Base

variable {S κ : Type}

/-- A running handler; `saved` is the mask its return installs. -/
structure HandlerFrame (S κ : Type) where
  signal : S
  stage : κ
  saved : S → Bool

/-- The mask in effect and the running handlers, innermost first. -/
structure SignalState (S κ : Type) where
  mask : S → Bool
  frames : List (HandlerFrame S κ)

namespace SignalState

/-- The mask in effect once every running handler has returned. -/
def base (p : SignalState S κ) : S → Bool := (p.frames.map HandlerFrame.saved).getLastD p.mask

/-- The handler of `n` starts, with `held` blocked as well while it runs. -/
def push (p : SignalState S κ) (n : S) (stage : κ) (held saved : S → Bool) : SignalState S κ where
  mask m := p.mask m || held m
  frames := ⟨n, stage, saved⟩ :: p.frames

/-- The innermost handler goes on to another stage. -/
def advance (p : SignalState S κ) (stage : κ) : SignalState S κ :=
  match p.frames with
  | [] => p
  | f :: rest => { p with frames := { f with stage } :: rest }

def pop (p : SignalState S κ) : SignalState S κ :=
  match p.frames with
  | [] => p
  | f :: rest => ⟨f.saved, rest⟩

theorem base_idle (p : SignalState S κ) (idle : p.frames = []) : p.base = p.mask := by
  simp [base, idle]

theorem base_push (p : SignalState S κ) (n : S) (stage : κ) (held : S → Bool) :
    (p.push n stage held p.mask).base = p.base := by
  simp only [base, push, List.map_cons, List.getLastD_cons]

theorem base_advance (p : SignalState S κ) (stage : κ) : (p.advance stage).base = p.base := by
  cases frames : p.frames with
  | nil => simp [base, advance, frames]
  | cons f rest => simp [base, advance, frames]

theorem base_pop (p : SignalState S κ) : p.pop.base = p.base := by
  cases frames : p.frames with
  | nil => simp only [pop, frames]
  | cons f rest => simp only [base, pop, frames, List.map_cons, List.getLastD_cons]

end SignalState

end Base
