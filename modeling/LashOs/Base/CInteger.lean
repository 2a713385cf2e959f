import Mathlib.Data.Int.ModEq

/-!
# Integer types of C

A conversion to an integer type keeps the value modulo the size of the type. A value that is
extended to a word and converted back is the same one if the type can hold it.
-/
namespace Base

structure IntType where
  signed : Bool
  bits : Nat
  deriving DecidableEq, Repr

namespace IntType

/-- The conversion to the type. -/
def wrap (t : IntType) (n : Int) : Int :=
  if t.signed then n.bmod (2 ^ t.bits) else n % 2 ^ t.bits

/-- The type can hold the value. -/
def Holds (t : IntType) (n : Int) : Prop := t.wrap n = n

instance (t : IntType) (n : Int) : Decidable (t.Holds n) := inferInstanceAs (Decidable (_ = _))

/-- Values that agree in the bits of the type are converted to the same one. -/
theorem wrap_congr (t : IntType) {m n : Int} (same : m ≡ n [ZMOD 2 ^ t.bits]) :
    t.wrap m = t.wrap n := by
  unfold wrap
  split
  · apply Int.bmod_eq_bmod_iff_bmod_sub_eq_zero.mpr
    have divides : ((2 ^ t.bits : Nat) : Int) ∣ m - n := by
      push_cast
      exact same.symm.dvd
    exact Int.bmod_eq_zero_of_dvd divides
  · exact same

end IntType

/-- `(uint64_t)n` -/
def word (n : Int) : UInt64 := UInt64.ofNat (n % 2 ^ 64).toNat

theorem toNat_word (n : Int) : ((word n).toNat : Int) = n % 2 ^ 64 := by
  have low : 0 ≤ n % 2 ^ 64 := Int.emod_nonneg n (by decide)
  have high : n % 2 ^ 64 < 2 ^ 64 := Int.emod_lt_of_pos n (by decide)
  rw [word, UInt64.toNat_ofNat']
  omega

/-- A conversion to a type that is not wider than a word sees the same value in the word. -/
theorem IntType.wrap_word {t : IntType} (narrow : t.bits ≤ 64) (n : Int) :
    t.wrap (word n).toNat = t.wrap n := by
  apply t.wrap_congr
  rw [toNat_word]
  have divides : (2 : Int) ^ t.bits ∣ 2 ^ 64 := pow_dvd_pow 2 narrow
  exact Int.emod_emod_of_dvd n divides

end Base
