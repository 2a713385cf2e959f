import Mathlib.Data.List.Basic

/-!
# Absolute paths

A path is a byte string. Behind a path stands nothing or a slash and more, so that paths
are compared by components; the root is the one path that ends in its slash.
-/
namespace Base

namespace Path

def slash : UInt8 := 47

/-- What may stand behind a path. -/
def IsRest (rest : List UInt8) : Prop := rest = [] ∨ rest.head? = some slash

instance (rest : List UInt8) : Decidable (IsRest rest) := inferInstanceAs (Decidable (_ ∨ _))

/-- The path with more behind it. -/
def follow (base rest : List UInt8) : List UInt8 :=
  if base = [slash] then (if rest = [] then [slash] else rest) else base ++ rest

/-- Equal to a path or below it. -/
def Under (path base : List UInt8) : Prop := ∃ rest, IsRest rest ∧ path = follow base rest

/-- What stands behind the base of a path. -/
def restOf (base path : List UInt8) : List UInt8 :=
  if base = [slash] then path else path.drop base.length

variable {path base rest : List UInt8}

theorem follow_root (rest : List UInt8) (nonempty : rest ≠ []) : follow [slash] rest = rest := by
  simp [follow, nonempty]

theorem follow_other (other : base ≠ [slash]) (rest : List UInt8) :
    follow base rest = base ++ rest := if_neg other

/-- Whatever stands behind an absolute path, the result is absolute. -/
theorem head_follow (absolute : base.head? = some slash) (rest : List UInt8) (isRest : IsRest rest) :
    (follow base rest).head? = some slash := by
  by_cases root : base = [slash]
  · subst root
    by_cases empty : rest = []
    · simp [follow, empty]
    · rw [follow_root rest empty]
      rcases isRest with none | more
      · exact absurd none empty
      · exact more
  · rw [follow_other root]
    cases base with
    | nil => cases absolute
    | cons b base => simpa using absolute

theorem under_follow (isRest : IsRest rest) (base : List UInt8) : Under (follow base rest) base :=
  ⟨rest, isRest, rfl⟩

/-- A path below another one is that one with its rest. -/
theorem under_restOf (under : Under path base) :
    IsRest (restOf base path) ∧ path = follow base (restOf base path) := by
  obtain ⟨rest, isRest, rfl⟩ := under
  by_cases root : base = [slash]
  · subst root
    have absolute : (follow [slash] rest).head? = some slash := head_follow rfl rest isRest
    have nonempty : follow [slash] rest ≠ [] := by
      intro empty
      rw [empty] at absolute
      cases absolute
    rw [restOf, if_pos rfl]
    exact ⟨Or.inr absolute, (follow_root _ nonempty).symm⟩
  · rw [follow_other root, restOf, if_neg root, List.drop_left]
    exact ⟨isRest, (follow_other root rest).symm⟩

/-- The rest behind a base is determined, except that of the root itself. -/
theorem restOf_follow (base rest : List UInt8) :
    restOf base (follow base rest) = rest ∨
      base = [slash] ∧ rest = [] ∧ restOf base (follow base rest) = [slash] := by
  by_cases root : base = [slash]
  · subst root
    by_cases empty : rest = []
    · right
      simp [restOf, follow, empty]
    · left
      simp [restOf, follow_root rest empty]
  · left
    rw [follow_other root, restOf, if_neg root, List.drop_left]

/-- A slash more behind a path leaves it below what it was below. -/
theorem under_append_slash (under : Under path base) : Under (path ++ [slash]) base := by
  obtain ⟨rest, isRest, rfl⟩ := under
  have longer : IsRest (rest ++ [slash]) := by
    rcases isRest with rfl | more
    · exact Or.inr rfl
    · right
      cases rest with
      | nil => cases more
      | cons b rest => simpa using more
  by_cases root : base = [slash]
  · subst root
    by_cases empty : rest = []
    · refine ⟨[slash, slash], Or.inr rfl, ?_⟩
      simp [follow, empty]
    · refine ⟨rest ++ [slash], longer, ?_⟩
      simp [follow, empty]
  · refine ⟨rest ++ [slash], longer, ?_⟩
    rw [follow_other root, follow_other root, List.append_assoc]

theorem under_follow_append_slash {share : List UInt8} (under : Under (follow base rest) share) :
    Under (follow base (rest ++ [slash])) share := by
  by_cases root : base = [slash]
  · subst root
    by_cases empty : rest = []
    · simpa [follow, empty] using under
    · rw [follow_root rest empty] at under
      rw [follow_root _ (by simp)]
      exact under_append_slash under
  · rw [follow_other root] at under
    rw [follow_other root, ← List.append_assoc]
    exact under_append_slash under

/-- The same path, or the same with a slash behind it. -/
def Slashed (path longer : List UInt8) : Prop :=
  longer = path ∨ path ≠ [slash] ∧ longer = path ++ [slash]

theorem Slashed.under {longer : List UInt8} (slashed : Slashed path longer)
    (under : Under path base) : Under longer base := by
  rcases slashed with rfl | ⟨_, rfl⟩
  · exact under
  · exact under_append_slash under

theorem Slashed.restOf {longer : List UInt8} (slashed : Slashed (follow base rest) longer) :
    restOf base longer = rest ∨ restOf base longer = rest ++ [slash] := by
  rcases slashed with rfl | ⟨other, rfl⟩
  · rcases restOf_follow base rest with same | ⟨_, rfl, root⟩
    · exact Or.inl same
    · exact Or.inr root
  · right
    by_cases root : base = [slash]
    · subst root
      have more : rest ≠ [] := fun empty => other (by simp [follow, empty])
      simp [Path.restOf, follow_root rest more]
    · rw [follow_other root, Path.restOf, if_neg root, List.append_assoc, List.drop_left]

theorem slashed_follow {target : List UInt8} (located : target = follow base rest)
    (root : List UInt8) : Slashed (follow root rest) (follow root (restOf base target)) := by
  subst located
  rcases restOf_follow base rest with same | ⟨_, rfl, slashes⟩
  · exact Or.inl (by rw [same])
  · rw [slashes]
    by_cases top : root = [slash]
    · exact Or.inl (by simp [follow, top])
    · right
      rw [follow_other top, follow_other top, List.append_nil]
      exact ⟨top, rfl⟩

/-- A base of an absolute path is absolute. -/
theorem head_of_under (nonempty : base ≠ []) (under : Under path base)
    (absolute : path.head? = some slash) : base.head? = some slash := by
  obtain ⟨rest, _, rfl⟩ := under
  by_cases root : base = [slash]
  · rw [root]
    rfl
  · rw [follow_other root] at absolute
    cases base with
    | nil => exact absurd rfl nonempty
    | cons b base => simpa using absolute

end Path

end Base
