import LashOs.Base.Run

/-!
# Following one system in another

Two systems whose steps are functions of a choice. If each step of the first can be followed by
some steps of the second, each run of the first can be followed by a run of the second.
-/
namespace Base

variable {σ τ α β : Type}

/-- Every step of the first system is answered by a list of steps of the second. -/
def Follows (step : σ → α → σ) (step' : τ → β → τ) (rel : σ → τ → Prop) : Prop :=
  ∀ s t a, rel s t → ∃ answers, rel (step s a) (run step' t answers)

theorem Follows.run {step : σ → α → σ} {step' : τ → β → τ} {rel : σ → τ → Prop}
    (follows : Follows step step' rel) (choices : List α) {s : σ} {t : τ} (related : rel s t) :
    ∃ answers, rel (Base.run step s choices) (Base.run step' t answers) := by
  induction choices generalizing s t with
  | nil => exact ⟨[], related⟩
  | cons a choices ih =>
    obtain ⟨first, related⟩ := follows s t a related
    obtain ⟨rest, related⟩ := ih related
    refine ⟨first ++ rest, ?_⟩
    rw [run_append]
    exact related

end Base
