import Mathlib.Data.List.Basic

/-!
# Runs

A system whose every step is a function of its state and of a choice of the environment.
A run is a list of choices, so a property of every run is a property of every list.
-/
namespace Base

variable {σ α : Type}

/-- The state after a list of choices. -/
def run (step : σ → α → σ) (start : σ) (choices : List α) : σ := choices.foldl step start

@[simp] theorem run_nil (step : σ → α → σ) (start : σ) : run step start [] = start := rfl

@[simp] theorem run_cons (step : σ → α → σ) (start : σ) (a : α) (choices : List α) :
    run step start (a :: choices) = run step (step start a) choices := rfl

theorem run_append (step : σ → α → σ) (start : σ) (choices more : List α) :
    run step start (choices ++ more) = run step (run step start choices) more :=
  List.foldl_append

theorem run_flatten (step : σ → α → σ) (start : σ) (runs : List (List α)) :
    run step start runs.flatten = run (run step) start runs :=
  List.foldl_flatten

/-- What every allowed step preserves holds after every run of allowed steps. -/
theorem run_invariant (step : σ → α → σ) (allowed : α → Prop) (inv : σ → Prop)
    (preserved : ∀ s a, allowed a → inv s → inv (step s a))
    (choices : List α) (permitted : ∀ a ∈ choices, allowed a) (start : σ) (initial : inv start) :
    inv (run step start choices) := by
  induction choices generalizing start with
  | nil => exact initial
  | cons a choices ih =>
    have first := preserved start a (permitted a (by simp)) initial
    exact ih (fun b member => permitted b (by simp [member])) (step start a) first

/-- A choice that lowers a measure until the goal is reached reaches it when it is repeated. -/
theorem exists_run_of_decreasing (step : σ → α → σ) (a : α) (inv goal : σ → Prop)
    (measure : σ → Nat)
    (lower : ∀ s, inv s → goal s ∨ inv (step s a) ∧ measure (step s a) < measure s) (s : σ)
    (initial : inv s) :
    ∃ count, inv (run step s (List.replicate count a)) ∧ goal (run step s (List.replicate count a)) := by
  induction size : measure s using Nat.strongRecOn generalizing s with
  | ind size ih =>
    rcases lower s initial with reached | ⟨kept, less⟩
    · exact ⟨0, initial, reached⟩
    · obtain ⟨count, holds, reached⟩ := ih _ (size ▸ less) (step s a) kept rfl
      exact ⟨count + 1, holds, reached⟩

/-! ### What holds at every point -/

/-- Every step of the run is one that the state before it allows. -/
def Permits (step : σ → α → σ) (allowed : σ → α → Prop) : σ → List α → Prop
  | _, [] => True
  | s, a :: choices => allowed s a ∧ Permits step allowed (step s a) choices

/-- A property holds before and after every step of the run. -/
def Always (step : σ → α → σ) (good : σ → Prop) : σ → List α → Prop
  | s, [] => good s
  | s, a :: choices => good s ∧ Always step good (step s a) choices

variable {step : σ → α → σ} {allowed : σ → α → Prop} {good : σ → Prop} {choices : List α} {s : σ}

theorem Always.start (always : Always step good s choices) : good s := by
  cases choices with
  | nil => exact always
  | cons a choices => exact always.1

theorem Always.final (always : Always step good s choices) : good (run step s choices) := by
  induction choices generalizing s with
  | nil => exact always
  | cons a choices ih => exact ih always.2

theorem Always.imp {better : σ → Prop} (implied : ∀ s, good s → better s)
    (always : Always step good s choices) : Always step better s choices := by
  induction choices generalizing s with
  | nil => exact implied s always
  | cons a choices ih => exact ⟨implied s always.1, ih always.2⟩

theorem always_of_forall (every : ∀ s, good s) : Always step good s choices := by
  induction choices generalizing s with
  | nil => exact every s
  | cons a choices ih => exact ⟨every s, ih⟩

/-- What holds at every point of a run with a record beside the state holds without it. -/
theorem Always.project {τ : Type} {step' : τ → α → τ} {good' : τ → Prop} (state : σ → τ)
    (follows : ∀ s a, state (step s a) = step' (state s) a)
    (implied : ∀ s, good s → good' (state s)) (always : Always step good s choices) :
    Always step' good' (state s) choices := by
  induction choices generalizing s with
  | nil => exact implied s always
  | cons a choices ih => exact ⟨implied s always.1, follows s a ▸ ih always.2⟩

theorem permits_of_forall (each : ∀ a ∈ choices, ∀ s, allowed s a) :
    Permits step allowed s choices := by
  induction choices generalizing s with
  | nil => trivial
  | cons a choices ih =>
    exact ⟨each a (by simp) s, ih fun b member => each b (by simp [member])⟩

theorem permits_append (choices more : List α) (first : Permits step allowed s choices)
    (second : Permits step allowed (run step s choices) more) :
    Permits step allowed s (choices ++ more) := by
  induction choices generalizing s with
  | nil => exact second
  | cons a choices ih => exact ⟨first.1, ih first.2 second⟩

/-- What every allowed step preserves holds at every point of a run of allowed steps. -/
theorem Permits.always (preserved : ∀ s a, allowed s a → good s → good (step s a))
    (permits : Permits step allowed s choices) (initial : good s) : Always step good s choices := by
  induction choices generalizing s with
  | nil => exact initial
  | cons a choices ih => exact ⟨initial, ih permits.2 (preserved s a permits.1 initial)⟩

/-- If every step that counts lowers a measure, a run with enough of them takes it to zero. -/
theorem Permits.exhausts {measure : σ → Nat} {counts : α → Bool}
    (kept : ∀ s a, allowed s a → good s → good (step s a)) (lower : ∀ s a, allowed s a → good s →
      measure (step s a) ≤ measure s - (if counts a then 1 else 0))
    (permits : Permits step allowed s choices) (initial : good s)
    (long : measure s ≤ choices.countP counts) : measure (run step s choices) = 0 := by
  induction choices generalizing s with
  | nil => exact Nat.le_zero.mp long
  | cons a choices ih =>
    refine ih permits.2 (kept s a permits.1 initial) ?_
    have less := lower s a permits.1 initial
    rw [List.countP_cons] at long
    omega

theorem Permits.imp {also : σ → α → Prop} (implied : ∀ s a, allowed s a → also s a)
    (permits : Permits step allowed s choices) : Permits step also s choices := by
  induction choices generalizing s with
  | nil => trivial
  | cons a choices ih => exact ⟨implied s a permits.1, ih permits.2⟩

/-- A condition that does not depend on the run can be asked for at each step. -/
theorem permits_imp {p : Prop} (permits : p → Permits step allowed s choices) :
    Permits step (fun s a => p → allowed s a) s choices := by
  induction choices generalizing s with
  | nil => trivial
  | cons a choices ih => exact ⟨fun holds => (permits holds).1, ih fun holds => (permits holds).2⟩

theorem Permits.and {also : σ → α → Prop} (first : Permits step allowed s choices)
    (second : Permits step also s choices) :
    Permits step (fun s a => allowed s a ∧ also s a) s choices := by
  induction choices generalizing s with
  | nil => trivial
  | cons a choices ih => exact ⟨⟨first.1, second.1⟩, ih first.2 second.2⟩

/-- A property that no step restores held at every point of a run behind which it holds. -/
theorem always_of_final {inv : σ → Prop} (preserved : ∀ s a, inv s → inv (step s a))
    (before : ∀ s a, inv s → good (step s a) → good s) (initial : inv s)
    (final : good (run step s choices)) : Always step (fun s => inv s ∧ good s) s choices := by
  induction choices generalizing s with
  | nil => exact ⟨initial, final⟩
  | cons a choices ih =>
    have later := ih (preserved s a initial) final
    exact ⟨⟨initial, before s a initial later.start.2⟩, later⟩

/-- If a step that is not allowed leads out of a property, a run that never leaves it has
allowed steps only. -/
theorem Always.permits (lost : ∀ s a, good s → good (step s a) → allowed s a)
    (always : Always step good s choices) : Permits step allowed s choices := by
  induction choices generalizing s with
  | nil => trivial
  | cons a choices ih => exact ⟨lost s a always.1 always.2.start, ih always.2⟩

/-! ### Steps that can fault -/

/-- The state after a list of choices, if no step faults. -/
def runPartial (step : σ → α → Option σ) (start : σ) (choices : List α) : Option σ :=
  choices.foldlM step start

/-- If every allowed step preserves a property and does not fault under it, neither does
any run of allowed steps. -/
theorem runPartial_invariant (step : σ → α → Option σ) (allowed : α → Prop) (inv : σ → Prop)
    (preserved : ∀ s a, allowed a → inv s → ∃ s', step s a = some s' ∧ inv s')
    (choices : List α) (permitted : ∀ a ∈ choices, allowed a) (start : σ) (initial : inv start) :
    ∃ s, runPartial step start choices = some s ∧ inv s := by
  induction choices generalizing start with
  | nil => exact ⟨start, rfl, initial⟩
  | cons a choices ih =>
    obtain ⟨next, stepped, kept⟩ := preserved start a (permitted a (by simp)) initial
    obtain ⟨s, ran, holds⟩ := ih (fun b member => permitted b (by simp [member])) next kept
    refine ⟨s, ?_, holds⟩
    rw [runPartial, List.foldlM_cons, stepped]
    exact ran

/-- Steps are expanded to lists of steps of another system. If each expanded step can follow the
original one, every run can be followed. -/
theorem runPartial_simulates {τ β : Type} {step : σ → α → Option σ} {step' : τ → β → Option τ}
    {expand : α → List β} {rel : σ → τ → Prop}
    (simulated : ∀ s t a next, rel s t → step s a = some next →
      ∃ t', runPartial step' t (expand a) = some t' ∧ rel next t')
    (choices : List α) {s s' : σ} {t : τ} (related : rel s t)
    (ran : runPartial step s choices = some s') :
    ∃ t', runPartial step' t (choices.flatMap expand) = some t' ∧ rel s' t' := by
  induction choices generalizing s t with
  | nil =>
    cases ran
    exact ⟨t, rfl, related⟩
  | cons a choices ih =>
    rw [runPartial, List.foldlM_cons] at ran
    obtain ⟨next, stepped, rest⟩ := Option.bind_eq_some_iff.mp ran
    obtain ⟨t', follows, related⟩ := simulated s t a next related stepped
    obtain ⟨t'', finishes, related⟩ := ih related rest
    refine ⟨t'', ?_, related⟩
    rw [List.flatMap_cons, runPartial, List.foldlM_append]
    exact Option.bind_eq_some_iff.mpr ⟨t', follows, finishes⟩

/-! ### Programs that can fail -/

@[simp] theorem ok_bind {ε : Type} (a : σ) (f : σ → Except ε α) : (Except.ok a >>= f) = f a := rfl

@[simp] theorem error_bind {ε : Type} (e : ε) (f : σ → Except ε α) :
    (Except.error e >>= f) = Except.error e := rfl

end Base
