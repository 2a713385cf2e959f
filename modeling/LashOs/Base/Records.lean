import Mathlib.Data.List.Basic

/-!
# Records in a buffer

A buffer holds records one after the other. Each starts with a header that says how long the
record is, and the next one begins at an aligned offset. How a length is read is a parameter,
so that two readers of one buffer can be compared.
-/
namespace Base

structure Record where
  offset : Nat
  length : Nat
  deriving DecidableEq, Repr

/-- The size of a header and the unit that records are aligned to. -/
structure Layout where
  header : Nat
  unit : Nat
  header_pos : 0 < header
  unit_pos : 0 < unit

namespace Layout

variable (l : Layout)

/-- The room that a record of some length takes. -/
def room (length : Nat) : Nat := (length + l.unit - 1) / l.unit * l.unit

theorem le_room (length : Nat) : length ≤ l.room length := by
  have positive := l.unit_pos
  have split_ := Nat.div_add_mod (length + l.unit - 1) l.unit
  have small := Nat.mod_lt (length + l.unit - 1) positive
  unfold room
  rw [Nat.mul_comm]
  omega

/-- The records from an offset on, as long as a header fits; none if a length is smaller than
its header or reaches out of the buffer. -/
def records (size : Nat) (lengthAt : Nat → Nat) (offset : Nat) : Option (List Record) :=
  if offset + l.header ≤ size then
    if lengthAt offset < l.header ∨ size - offset < lengthAt offset then none
    else (records size lengthAt (offset + l.room (lengthAt offset))).map
      (⟨offset, lengthAt offset⟩ :: ·)
  else some []
termination_by size - offset
decreasing_by
  have progress := l.le_room (lengthAt offset)
  have positive := l.header_pos
  omega

variable {l} {size offset : Nat} {lengthAt : Nat → Nat} {out : List Record}

theorem records_nil (full : size < offset + l.header) :
    l.records size lengthAt offset = some [] := by
  rw [records, if_neg (by omega)]

theorem records_cons {length : Nat} (read : lengthAt offset = length) (whole : l.header ≤ length)
    (inside : offset + length ≤ size)
    (rest : l.records size lengthAt (offset + l.room length) = some out) :
    l.records size lengthAt offset = some (⟨offset, length⟩ :: out) := by
  rw [records, read, if_pos (by omega), if_neg (by omega), rest]
  rfl

theorem records_mem (found : l.records size lengthAt offset = some out) :
    ∀ r ∈ out, offset ≤ r.offset ∧ l.header ≤ r.length ∧ r.offset + r.length ≤ size := by
  induction offset using records.induct l size lengthAt generalizing out with
  | case1 offset fits bad =>
    rw [records, if_pos fits, if_pos bad] at found
    cases found
  | case2 offset fits good ih =>
    rw [records, if_pos fits, if_neg good] at found
    obtain ⟨rest, later, rfl⟩ := Option.map_eq_some_iff.mp found
    have progress := l.le_room (lengthAt offset)
    intro r member
    rcases List.mem_cons.mp member with rfl | member
    · simp only
      omega
    · obtain ⟨behind, rest⟩ := ih later r member
      exact ⟨by omega, rest⟩
  | case3 offset full =>
    rw [records, if_neg full] at found
    cases found
    simp

theorem records_congr {others : Nat → Nat} (same : ∀ o, offset ≤ o → others o = lengthAt o) :
    l.records size others offset = l.records size lengthAt offset := by
  induction offset using records.induct l size lengthAt with
  | case1 offset fits bad =>
    rw [records.eq_def l size others, records.eq_def l size lengthAt, same offset (Nat.le_refl _)]
    simp only [if_pos fits, if_pos bad]
  | case2 offset fits good ih =>
    rw [records.eq_def l size others, records.eq_def l size lengthAt, same offset (Nat.le_refl _)]
    simp only [if_pos fits, if_neg good]
    rw [ih fun o behind => same o (by omega)]
  | case3 offset full =>
    rw [records.eq_def l size others, records.eq_def l size lengthAt]
    simp only [if_neg full]

end Layout

end Base
