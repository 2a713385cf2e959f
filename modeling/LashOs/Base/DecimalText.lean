import Mathlib.Algebra.Ring.Nat
import LashOs.Base.Decimal

/-!
# Printing decimal numbers

The digits of a number, the most significant one first and without leading zeros. Reading them
gives the number back.
-/
namespace Base

namespace Decimal

def digitByte (n : Nat) : UInt8 := UInt8.ofNat (48 + n % 10)

def print (n : Nat) : List UInt8 :=
  if n < 10 then [digitByte n] else print (n / 10) ++ [digitByte n]
termination_by n

theorem digit_digitByte (n : Nat) : digit (digitByte n) = n % 10 := by
  have small : 48 + n % 10 < 256 := by omega
  rw [digit, digitByte, UInt8.toNat_ofNat', Nat.mod_eq_of_lt small]
  omega

theorem isDigit_digitByte (n : Nat) : isDigit (digitByte n) = true := by
  have all : ∀ d < 10, isDigit (UInt8.ofNat (48 + d)) = true := by decide
  exact all _ (Nat.mod_lt n (by decide))

theorem valueFrom_append (n : Nat) (first second : List UInt8) :
    valueFrom n (first ++ second) = valueFrom (valueFrom n first) second := by
  simp [valueFrom, List.foldl_append]

theorem value_print (n : Nat) : value (print n) = n := by
  induction n using Nat.strongRecOn with
  | ind n ih =>
    rw [print]
    split
    next small => simp [value, digit_digitByte, Nat.mod_eq_of_lt small]
    next large =>
      rw [value, valueFrom_append, show valueFrom 0 (print (n / 10)) = n / 10 from ih _ (by omega),
        valueFrom_cons, valueFrom_nil, digit_digitByte]
      omega

theorem isDigit_print (n : Nat) : ∀ b ∈ print n, isDigit b = true := by
  induction n using Nat.strongRecOn with
  | ind n ih =>
    rw [print]
    split
    next => simp [isDigit_digitByte]
    next large =>
      intro b member
      rcases List.mem_append.mp member with front | last
      · exact ih _ (by omega) b front
      · rw [List.mem_singleton.mp last]
        exact isDigit_digitByte n

theorem length_print_le {n k : Nat} (small : n < 10 ^ (k + 1)) : (print n).length ≤ k + 1 := by
  induction k generalizing n with
  | zero =>
    rw [print, if_pos (by simpa using small)]
    simp
  | succ k ih =>
    rw [print]
    split
    · simp
    · have fewer : n / 10 < 10 ^ (k + 1) := by
        rw [Nat.div_lt_iff_lt_mul (by decide)]
        simpa [Nat.pow_succ] using small
      have front := ih fewer
      simp only [List.length_append, List.length_singleton]
      omega

end Decimal

end Base
