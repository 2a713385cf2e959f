import Mathlib

/-!
# Arithmetic at a larger width

Extending both operands to a larger width, operating there and truncating is the operation of
the smaller width, when the kind of extension fits the operation: zeros for multiplication and
for unsigned division and remainder, copies of the sign for the signed ones.
-/
namespace Base

variable {w v : Nat} (le : w ≤ v) (a d : BitVec w)

include le

theorem setWidth_mul_setWidth : (a.setWidth v * d.setWidth v).setWidth w = a * d := by
  rw [BitVec.setWidth_mul _ _ le, BitVec.setWidth_setWidth_of_le a le,
    BitVec.setWidth_setWidth_of_le d le, BitVec.setWidth_eq, BitVec.setWidth_eq]

theorem setWidth_udiv_setWidth : (a.setWidth v / d.setWidth v).setWidth w = a / d := by
  apply BitVec.eq_of_toNat_eq
  rw [BitVec.toNat_setWidth, BitVec.toNat_udiv, BitVec.toNat_setWidth_of_le le,
    BitVec.toNat_setWidth_of_le le, BitVec.toNat_udiv]
  exact Nat.mod_eq_of_lt ((Nat.div_le_self _ _).trans_lt a.isLt)

theorem setWidth_umod_setWidth : (a.setWidth v % d.setWidth v).setWidth w = a % d := by
  apply BitVec.eq_of_toNat_eq
  rw [BitVec.toNat_setWidth, BitVec.toNat_umod, BitVec.toNat_setWidth_of_le le,
    BitVec.toNat_setWidth_of_le le, BitVec.toNat_umod]
  exact Nat.mod_eq_of_lt ((Nat.mod_le _ _).trans_lt a.isLt)

theorem setWidth_sdiv_signExtend :
    ((a.signExtend v).sdiv (d.signExtend v)).setWidth w = a.sdiv d := by
  -- Truncation does not look at the sign, so it may be written as an extension downwards.
  rw [← BitVec.signExtend_eq_setWidth_of_le _ le]
  apply BitVec.eq_of_toInt_eq
  rw [BitVec.toInt_signExtend_eq_toInt_bmod_of_le _ le, BitVec.toInt_sdiv, BitVec.toInt_sdiv,
    BitVec.toInt_signExtend_of_le le, BitVec.toInt_signExtend_of_le le]
  exact Int.bmod_bmod_of_dvd (pow_dvd_pow 2 le)

theorem setWidth_srem_signExtend :
    ((a.signExtend v).srem (d.signExtend v)).setWidth w = a.srem d := by
  rw [← BitVec.signExtend_eq_setWidth_of_le _ le]
  apply BitVec.eq_of_toInt_eq
  rw [BitVec.toInt_signExtend_eq_toInt_bmod_of_le _ le, BitVec.toInt_srem,
    BitVec.toInt_signExtend_of_le le, BitVec.toInt_signExtend_of_le le, ← BitVec.toInt_srem]
  exact BitVec.toInt_bmod_cancel _

/-! ### What is kept by extending -/

theorem setWidth_eq_zero_iff : d.setWidth v = 0 ↔ d = 0 := by
  rw [BitVec.toNat_eq, BitVec.toNat_eq, BitVec.toNat_setWidth_of_le le]
  simp

theorem signExtend_eq_zero_iff : d.signExtend v = 0 ↔ d = 0 := by
  rw [← BitVec.toInt_inj, ← BitVec.toInt_inj, BitVec.toInt_signExtend_of_le le]
  simp

/-- The one signed division that overflows stays one only at the same width. -/
theorem overflow_of_signExtend (positive : 0 < w)
    (overflow : a.signExtend v = BitVec.intMin v ∧ d.signExtend v = -1) :
    a = BitVec.intMin w ∧ d = -1 := by
  have value : a.toInt = -2 ^ (v - 1) := by
    rw [← BitVec.toInt_signExtend_of_le le, overflow.1, BitVec.toInt_intMin_of_pos (by omega)]
  have low := BitVec.le_toInt a
  -- The smallest number of the larger width is one of the smaller width only if they are equal.
  have powers : (2 : Int) ^ (v - 1) ≤ 2 ^ (w - 1) := by omega
  have same : v = w := by
    have exponents := (pow_le_pow_iff_right₀ (by decide : (1 : Int) < 2)).mp powers
    omega
  subst same
  rwa [BitVec.signExtend_eq, BitVec.signExtend_eq] at overflow

end Base
