import Mathlib.Logic.Relation
import Mathlib.Data.Set.Basic

/-!
# Exploring a graph

A search marks what it has seen and keeps what it still has to look at. When nothing is
pending, what was seen is what can be reached from the roots, in whatever order the search
went.
-/
namespace Base

variable {α : Type}

/-- How many of a list are not seen yet, which bounds a search. -/
def remaining [DecidableEq α] (all seen : List α) : Nat := (all.filter (· ∉ seen)).length

theorem remaining_cons_lt [DecidableEq α] {all seen : List α} {b : α} (member : b ∈ all)
    (new : b ∉ seen) : remaining all (b :: seen) < remaining all seen := by
  have again : all.filter (· ∉ b :: seen) = (all.filter (· ∉ seen)).filter (· ≠ b) := by
    rw [List.filter_filter]
    refine List.filter_congr fun c _ => ?_
    simp [List.mem_cons, not_or]
  rw [remaining, again]
  refine List.length_filter_lt_length_iff_exists.mpr ⟨b, ?_, by simp⟩
  rw [List.mem_filter]
  exact ⟨member, by simp [new]⟩

structure Explores (step : α → α → Prop) (roots seen pending : Set α) : Prop where
  start : ∀ r ∈ roots, r ∈ seen
  sound : ∀ b ∈ seen, ∃ r ∈ roots, Relation.ReflTransGen step r b
  waiting : ∀ b ∈ pending, b ∈ seen
  closed : ∀ b ∈ seen, b ∉ pending → ∀ c, step b c → c ∈ seen

namespace Explores

variable {step : α → α → Prop} {roots seen pending seen' pending' : Set α}

theorem init : Explores step roots roots roots where
  start _ member := member
  sound b member := ⟨b, member, .refl⟩
  waiting _ member := member
  closed _ member absent := absurd member absent

/-- One of the pending ones is looked at: what it leads to is seen, and what is new is pending. -/
theorem visit {b : α} (explores : Explores step roots seen {c | c = b ∨ c ∈ pending})
    (grown : ∀ c, c ∈ seen' ↔ c ∈ seen ∨ step b c)
    (more : ∀ c, c ∈ pending' ↔ c ∈ pending ∨ c ∈ seen' ∧ c ∉ seen) :
    Explores step roots seen' pending' := by
  have here : b ∈ seen := explores.waiting b (Or.inl rfl)
  constructor
  · intro r member
    exact (grown r).mpr (Or.inl (explores.start r member))
  · intro c member
    rcases (grown c).mp member with old | new
    · exact explores.sound c old
    · obtain ⟨r, root, path⟩ := explores.sound b here
      exact ⟨r, root, path.tail new⟩
  · intro c member
    rcases (more c).mp member with old | new
    · exact (grown c).mpr (Or.inl (explores.waiting c (Or.inr old)))
    · exact new.1
  · intro c member done next leads
    -- What is seen and no longer pending was done before, or it is the one looked at.
    have old : c ∈ seen := by
      by_contra new
      exact done ((more c).mpr (Or.inr ⟨member, new⟩))
    refine (grown next).mpr ?_
    by_cases same : c = b
    · exact Or.inr (same ▸ leads)
    · have before : c ∉ {c | c = b ∨ c ∈ pending} := fun either =>
        either.elim same fun waits => done ((more c).mpr (Or.inl waits))
      exact Or.inl (explores.closed c old before next leads)

theorem mem_of_path (explores : Explores step roots seen pending) (finished : ∀ b, b ∉ pending)
    {b c : α} (path : Relation.ReflTransGen step b c) (start : b ∈ seen) : c ∈ seen := by
  induction path with
  | refl => exact start
  | tail _ last ih => exact explores.closed _ ih (finished _) _ last

/-- A search that is finished has seen what can be reached. -/
theorem mem_iff (explores : Explores step roots seen pending) (finished : ∀ b, b ∉ pending)
    {c : α} : c ∈ seen ↔ ∃ r ∈ roots, Relation.ReflTransGen step r c := by
  constructor
  · exact explores.sound c
  · rintro ⟨r, root, path⟩
    exact explores.mem_of_path finished path (explores.start r root)

end Explores

end Base
