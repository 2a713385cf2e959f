import Mathlib.Data.List.Basic

/-!
# Decimal numbers

A run of digits, the most significant one first, and its value.
-/
namespace Base

namespace Decimal

def isDigit (b : UInt8) : Bool := 48 ≤ b && b ≤ 57

def digit (b : UInt8) : Nat := b.toNat - 48

/-- The value of the digits behind a number that was read before them. -/
def valueFrom (n : Nat) (digits : List UInt8) : Nat := digits.foldl (fun n b => n * 10 + digit b) n

def value (digits : List UInt8) : Nat := valueFrom 0 digits

@[simp] theorem valueFrom_nil (n : Nat) : valueFrom n [] = n := rfl

@[simp] theorem valueFrom_cons (n : Nat) (b : UInt8) (digits : List UInt8) :
    valueFrom n (b :: digits) = valueFrom (n * 10 + digit b) digits := by
  simp only [valueFrom, List.foldl_cons]

theorem le_valueFrom (n : Nat) (digits : List UInt8) : n ≤ valueFrom n digits := by
  induction digits generalizing n with
  | nil => exact Nat.le_refl n
  | cons b digits ih =>
    calc n ≤ n * 10 + digit b := by omega
      _ ≤ valueFrom (n * 10 + digit b) digits := ih _
      _ = valueFrom n (b :: digits) := (valueFrom_cons n b digits).symm

/-- Digits that are read with a limit: from the limit on only the limit is kept. -/
theorem min_valueFrom (limit n : Nat) (b : UInt8) :
    min limit (min limit n * 10 + digit b) = min limit (n * 10 + digit b) := by
  rcases Nat.le_total limit n with large | small
  · rw [Nat.min_eq_left large]
    omega
  · rw [Nat.min_eq_right small]

end Decimal

end Base
