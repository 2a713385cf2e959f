import Mathlib.Data.List.DropRight
import LashOs.Base.Bytes

/-!
# Ring buffers

A buffer that is written from its start to its end and then from its start again. Seen from the
cell that is written next, it holds the end of everything that was written.
-/
namespace Base

variable {α : Type}

/-! ### The end of a list -/

theorem rtake_append_of_length_le {xs ys : List α} {n : Nat} (long : n ≤ ys.length) :
    (xs ++ ys).rtake n = ys.rtake n := by
  rw [List.rtake, List.rtake, List.length_append, List.drop_append, List.drop_of_length_le (by omega),
    List.nil_append]
  congr 1
  omega

theorem rtake_of_length_le {xs : List α} {n : Nat} (short : xs.length ≤ n) : xs.rtake n = xs := by
  rw [List.rtake, Nat.sub_eq_zero_of_le short, List.drop_zero]

/-- Elements that are too far from the end may be forgotten at any time. -/
theorem rtake_rtake_append (xs ys : List α) (n : Nat) :
    (xs.rtake n ++ ys).rtake n = (xs ++ ys).rtake n := by
  by_cases short : xs.length ≤ n
  · rw [rtake_of_length_le short]
  · simp only [List.rtake, List.length_append, List.length_drop, List.drop_append, List.drop_drop]
    congr 2 <;> omega

/-! ### The cells in the order of their writing -/

/-- The cells from the one that is written next on. -/
def rotated (cells : List α) (next : Nat) : List α := cells.drop next ++ cells.take next

@[simp] theorem rotated_zero (cells : List α) : rotated cells 0 = cells := by simp [rotated]

theorem rotated_mod {cells : List α} {next : Nat} (inside : next ≤ cells.length) :
    rotated cells (next % cells.length) = rotated cells next := by
  rcases Nat.lt_or_eq_of_le inside with less | last
  · rw [Nat.mod_eq_of_lt less]
  · rw [last, Nat.mod_self, rotated_zero, rotated, List.drop_length, List.take_length,
      List.nil_append]

/-- Writing goes to the end of the order and drops as much at its start. -/
theorem rotated_overwrite {cells data : List α} {next : Nat}
    (inside : next + data.length ≤ cells.length) :
    rotated (overwrite cells next data) (next + data.length) =
      (rotated cells next ++ data).rtake cells.length := by
  have front : (cells.take next ++ data).length = next + data.length := by
    rw [List.length_append, List.length_take]
    omega
  have size : (rotated cells next ++ data).length = cells.length + data.length := by
    simp only [rotated, List.length_append, List.length_drop, List.length_take]
    omega
  have enough : data.length ≤ (cells.drop next).length := by
    rw [List.length_drop]
    omega
  calc rotated (overwrite cells next data) (next + data.length)
      = cells.drop (next + data.length) ++ (cells.take next ++ data) := by
        rw [rotated, overwrite, ← front, List.drop_left, List.take_left]
    _ = (rotated cells next ++ data).drop data.length := by
        rw [rotated, List.append_assoc, List.drop_append_of_le_length enough, List.drop_drop]
    _ = (rotated cells next ++ data).rtake cells.length := by
        rw [List.rtake, size, Nat.add_sub_cancel_left]

end Base
