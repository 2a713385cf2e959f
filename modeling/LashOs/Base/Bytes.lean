import Mathlib.Data.List.Basic
import Mathlib.Tactic.Ring

/-!
# Byte strings

Fixed-width little-endian words, and cells of a buffer that are overwritten in
place. Both are plain functions on lists of bytes.
-/
namespace Base

/-- The `width` little-endian bytes of a number. Higher digits are cut off, as a
store to a machine word of that width does. -/
def leBytes : Nat → Nat → List UInt8
  | 0, _ => []
  | width + 1, n => UInt8.ofNat n :: leBytes width (n / 256)

/-- The number that a little-endian byte string stands for. -/
def leValue : List UInt8 → Nat
  | [] => 0
  | b :: rest => b.toNat + 256 * leValue rest

@[simp] theorem length_leBytes (width n : Nat) : (leBytes width n).length = width := by
  induction width generalizing n with
  | zero => rfl
  | succ width ih => simp [leBytes, ih]

theorem leValue_leBytes_mod (width n : Nat) : leValue (leBytes width n) = n % 256 ^ width := by
  induction width generalizing n with
  | zero => simp [leBytes, leValue, Nat.mod_one]
  | succ width ih =>
    have low : (UInt8.ofNat n).toNat = n % 256 := by simp
    rw [leBytes, leValue, ih, low, Nat.pow_succ, Nat.mul_comm (256 ^ width), Nat.mod_mul]

theorem leValue_leBytes (width n : Nat) (fits : n < 256 ^ width) :
    leValue (leBytes width n) = n := by
  rw [leValue_leBytes_mod, Nat.mod_eq_of_lt fits]

theorem leBytes_add (low high n : Nat) :
    leBytes (low + high) n = leBytes low n ++ leBytes high (n / 256 ^ low) := by
  induction low generalizing n with
  | zero => simp [leBytes]
  | succ low ih =>
    rw [Nat.add_right_comm, leBytes, leBytes, ih, Nat.div_div_eq_div_mul, Nat.pow_succ,
      Nat.mul_comm 256, List.cons_append]

theorem leBytes_leValue (bytes : List UInt8) : leBytes bytes.length (leValue bytes) = bytes := by
  induction bytes with
  | nil => rfl
  | cons b rest ih =>
    have bound : b.toNat < 256 := b.toNat_lt
    have high : (b.toNat + 256 * leValue rest) / 256 = leValue rest := by omega
    have low : UInt8.ofNat (b.toNat + 256 * leValue rest) = b := by
      apply UInt8.toNat_inj.mp
      rw [UInt8.toNat_ofNat']
      omega
    simp only [List.length_cons, leValue, leBytes, high, low, ih]

/-- `memcpy` of `bytes` into a buffer at an offset. -/
def overwrite {α : Type} (cells : List α) (offset : Nat) (bytes : List α) : List α :=
  cells.take offset ++ bytes ++ cells.drop (offset + bytes.length)

/-- The `count` cells of a buffer from an offset on. -/
def slice {α : Type} (cells : List α) (offset count : Nat) : List α :=
  (cells.drop offset).take count

section Cells

variable {α : Type}

theorem length_overwrite (cells : List α) (offset : Nat) (bytes : List α)
    (inside : offset + bytes.length ≤ cells.length) :
    (overwrite cells offset bytes).length = cells.length := by
  simp only [overwrite, List.length_append, List.length_take, List.length_drop]
  omega

theorem length_slice (cells : List α) (offset count : Nat)
    (inside : offset + count ≤ cells.length) : (slice cells offset count).length = count := by
  simp only [slice, List.length_take, List.length_drop]
  omega

@[simp] theorem slice_zero (cells : List α) (offset : Nat) : slice cells offset 0 = [] := by
  simp [slice]

/-- Bytes written right after a slice extend that slice. -/
theorem slice_overwrite_end (cells : List α) (offset count : Nat) (bytes : List α)
    (inside : offset + count + bytes.length ≤ cells.length) :
    slice (overwrite cells (offset + count) bytes) offset (count + bytes.length) =
      slice cells offset count ++ bytes := by
  have before : offset ≤ (cells.take (offset + count)).length := by
    simp only [List.length_take]; omega
  simp only [slice, overwrite, List.append_assoc]
  rw [List.drop_append_of_le_length before, List.drop_take, Nat.add_sub_cancel_left]
  have size : ((cells.drop offset).take count).length = count := by
    simp only [List.length_take, List.length_drop]; omega
  rw [List.take_append, size, List.take_of_length_le (by omega), Nat.add_sub_cancel_left,
    List.take_append_of_le_length (Nat.le_refl _), List.take_length]

/-- Moving a slice to the front of its buffer keeps it. -/
theorem slice_overwrite_front (cells bytes : List α) :
    slice (overwrite cells 0 bytes) 0 bytes.length = bytes := by
  simp [slice, overwrite]

theorem slice_drop (cells : List α) (offset count n : Nat) :
    slice cells (offset + n) (count - n) = (slice cells offset count).drop n := by
  simp only [slice, List.drop_take, List.drop_drop]

theorem slice_take (cells : List α) (offset count n : Nat) (within : n ≤ count) :
    (slice cells offset count).take n = slice cells offset n := by
  simp only [slice, List.take_take, Nat.min_eq_left within]

theorem slice_front (field after : List α) (count : Nat) (size : field.length = count) :
    slice (field ++ after) 0 count = field := by
  subst size
  simp [slice]

theorem slice_behind (field after : List α) (offset count : Nat) (behind : field.length ≤ offset) :
    slice (field ++ after) offset count = slice after (offset - field.length) count := by
  simp [slice, List.drop_append, List.drop_of_length_le behind]

theorem getElem?_overwrite (cells : List α) (offset : Nat) (bytes : List α)
    (inside : offset + bytes.length ≤ cells.length) (i : Nat) :
    (overwrite cells offset bytes)[i]? =
      if offset ≤ i ∧ i < offset + bytes.length then bytes[i - offset]? else cells[i]? := by
  have front : (cells.take offset).length = offset := by
    rw [List.length_take]; omega
  unfold overwrite
  rw [List.append_assoc, List.getElem?_append, front, List.getElem?_append, List.getElem?_drop]
  split
  next before => rw [if_neg (by omega), List.getElem?_take_of_lt before]
  next behind =>
    split
    next within => rw [if_pos (by omega)]
    next after => rw [if_neg (by omega)]; congr 1; omega

theorem slice_congr {cells others : List α} {offset count : Nat}
    (same : ∀ i, offset ≤ i → i < offset + count → cells[i]? = others[i]?) :
    slice cells offset count = slice others offset count := by
  apply List.ext_getElem?
  intro i
  simp only [slice, List.getElem?_take, List.getElem?_drop]
  split
  next within => exact same (offset + i) (by omega) (by omega)
  · rfl

theorem slice_append (cells : List α) (offset first second : Nat) :
    slice cells offset (first + second) =
      slice cells offset first ++ slice cells (offset + first) second := by
  simp only [slice, List.take_add, List.drop_drop]

theorem slice_overwrite (cells : List α) (offset : Nat) (bytes : List α)
    (inside : offset + bytes.length ≤ cells.length) :
    slice (overwrite cells offset bytes) offset bytes.length = bytes := by
  have front : (cells.take offset).length = offset := by
    rw [List.length_take]; omega
  unfold slice overwrite
  rw [List.append_assoc, List.drop_append, front, List.drop_of_length_le (by omega)]
  simp

end Cells

theorem leValue_append_zeros (bytes : List UInt8) (count : Nat) :
    leValue (bytes ++ List.replicate count 0) = leValue bytes := by
  induction bytes with
  | nil =>
    induction count with
    | zero => rfl
    | succ count ih => simpa [List.replicate_succ, leValue] using ih
  | cons b rest ih => simp [leValue, ih]

end Base
