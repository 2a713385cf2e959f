import Mathlib

/-!
# Listings

Names as tools print and collect them: fields that each end with a terminator, the sorted list of
a set, and tables whose values belong to their keys.
-/
namespace Base

variable {α β : Type}

/-! ### Sorted sets -/

section Sorted

variable [LinearOrder α]

/-- The elements, each once, in ascending order. -/
def sortedSet (xs : List α) : List α := xs.dedup.insertionSort (· ≤ ·)

@[simp] theorem mem_sortedSet {xs : List α} {a : α} : a ∈ sortedSet xs ↔ a ∈ xs := by
  rw [sortedSet, (List.perm_insertionSort (· ≤ ·) xs.dedup).mem_iff, List.mem_dedup]

theorem pairwise_sortedSet (xs : List α) : (sortedSet xs).Pairwise (· < ·) := by
  have ordered := List.pairwise_insertionSort (· ≤ ·) xs.dedup
  have distinct : (sortedSet xs).Nodup :=
    (List.perm_insertionSort (· ≤ ·) xs.dedup).nodup_iff.mpr xs.nodup_dedup
  exact (ordered.and distinct).imp fun ⟨le, ne⟩ => lt_of_le_of_ne le ne

end Sorted

/-! ### Fields -/

/-- The fields, each followed by the terminator. -/
def terminateAll (stop : α) (fields : List (List α)) : List α := fields.flatMap (· ++ [stop])

/-- Splitting at the terminator gives the fields back, and nothing behind the last one. -/
theorem splitOn_terminateAll [BEq α] [LawfulBEq α] {stop : α} {fields : List (List α)}
    (plain : ∀ field ∈ fields, stop ∉ field) :
    (terminateAll stop fields).splitOn stop = fields ++ [[]] := by
  induction fields with
  | nil => rfl
  | cons field fields ih =>
    obtain ⟨first, others⟩ := List.forall_mem_cons.mp plain
    rw [terminateAll, List.flatMap_cons, List.append_assoc, List.singleton_append,
      List.splitOn_append_cons_self_of_not_mem first, List.cons_append]
    exact congrArg (field :: ·) (ih others)

/-! ### Tables -/

theorem lookup_map_self [BEq α] [LawfulBEq α] (f : α → β) (keys : List α) (key : α) :
    (keys.map fun k => (k, f k)).lookup key = if key ∈ keys then some (f key) else none := by
  induction keys with
  | nil => rfl
  | cons k keys ih =>
    rw [List.map_cons, List.lookup_cons, ih]
    by_cases same : key = k
    · simp [same]
    · have other : (key == k) = false := beq_eq_false_iff_ne.mpr same
      simp [other, same]

end Base
