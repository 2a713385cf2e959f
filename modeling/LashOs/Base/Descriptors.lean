import Mathlib.Data.Nat.Find
import Mathlib.Data.List.Nodup

/-!
# Descriptor numbers of a process

A process has finitely many open numbers, and a new one is the lowest free number at or
above a minimum. What a number refers to is a parameter.
-/
namespace Base

variable {α : Type}

structure Fds (α : Type) where
  entry : Nat → Option α
  bound : Nat
  closed : ∀ n, bound ≤ n → entry n = none

namespace Fds

def empty : Fds α := ⟨fun _ => none, 0, fun _ _ => rfl⟩

def isOpen (d : Fds α) (n : Nat) : Bool := (d.entry n).isSome

theorem exists_free (d : Fds α) (minimum : Nat) : ∃ n, minimum ≤ n ∧ d.isOpen n = false := by
  refine ⟨max d.bound minimum, Nat.le_max_right _ _, ?_⟩
  rw [isOpen, d.closed _ (Nat.le_max_left _ _)]
  rfl

/-- The number that the next allocation gets. -/
def lowest (d : Fds α) (minimum : Nat) : Nat := Nat.find (d.exists_free minimum)

theorem le_lowest (d : Fds α) (minimum : Nat) : minimum ≤ d.lowest minimum :=
  (Nat.find_spec (d.exists_free minimum)).1

theorem lowest_free (d : Fds α) (minimum : Nat) : d.isOpen (d.lowest minimum) = false :=
  (Nat.find_spec (d.exists_free minimum)).2

theorem lowest_le (d : Fds α) {minimum n : Nat} (above : minimum ≤ n) (free : d.isOpen n = false) :
    d.lowest minimum ≤ n :=
  Nat.find_min' (d.exists_free minimum) ⟨above, free⟩

theorem lowest_of_free (d : Fds α) {n : Nat} (free : d.isOpen n = false) : d.lowest n = n :=
  Nat.le_antisymm (d.lowest_le (Nat.le_refl n) free) (d.le_lowest n)

/-- No number below `limit` is free. -/
theorem le_lowest_iff (d : Fds α) (limit : Nat) :
    limit ≤ d.lowest 0 ↔ ∀ n < limit, d.isOpen n = true := by
  constructor
  · intro above n below
    by_contra free
    have := d.lowest_le (Nat.zero_le n) (Bool.eq_false_iff.mpr free)
    omega
  · intro taken
    by_contra below
    have := taken _ (Nat.lt_of_not_le below)
    rw [d.lowest_free 0] at this
    cases this

/-- `n` now refers to `file`, whatever it was before. -/
def put (d : Fds α) (n : Nat) (file : α) : Fds α where
  entry m := if m = n then some file else d.entry m
  bound := max d.bound (n + 1)
  closed := by
    intro m above
    have other : m ≠ n := by omega
    rw [if_neg other, d.closed m (by omega)]

def close (d : Fds α) (n : Nat) : Fds α where
  entry m := if m = n then none else d.entry m
  bound := d.bound
  closed := by
    intro m above
    split
    · rfl
    · exact d.closed m above

@[simp] theorem entry_put (d : Fds α) (n m : Nat) (file : α) :
    (d.put n file).entry m = if m = n then some file else d.entry m := rfl

@[simp] theorem entry_close (d : Fds α) (n m : Nat) :
    (d.close n).entry m = if m = n then none else d.entry m := rfl

/-- Only the numbers that refer to what satisfies `p` stay open. -/
def keep (d : Fds α) (p : α → Bool) : Fds α where
  entry n := (d.entry n).filter p
  bound := d.bound
  closed := by
    intro n above
    rw [d.closed n above]
    rfl

/-- Some number refers to what satisfies `p`. -/
def holds (d : Fds α) (p : α → Bool) : Bool :=
  (List.range d.bound).any fun n => (d.entry n).any p

theorem holds_eq_false {d : Fds α} {p : α → Bool} :
    d.holds p = false ↔ ∀ n file, d.entry n = some file → p file = false := by
  simp only [holds, List.any_eq_false, List.mem_range]
  constructor
  · intro none_ n file here
    have below : n < d.bound := by
      by_contra above
      rw [d.closed n (by omega)] at here
      cases here
    simpa [here] using none_ n below
  · intro none_ n _
    cases here : d.entry n with
    | none => simp
    | some file => simp [none_ n file here]

theorem isOpen_eq_false {d : Fds α} {n : Nat} : d.isOpen n = false ↔ d.entry n = none := by
  simp [isOpen]

@[simp] theorem isOpen_put (d : Fds α) (n m : Nat) (file : α) :
    (d.put n file).isOpen m = (decide (m = n) || d.isOpen m) := by
  by_cases same : m = n <;> simp [isOpen, put, same]

@[simp] theorem isOpen_close (d : Fds α) (n m : Nat) :
    (d.close n).isOpen m = (!decide (m = n) && d.isOpen m) := by
  by_cases same : m = n <;> simp [isOpen, close, same]

/-- The lowest free number at or above `minimum` is opened on `file`. -/
def allocate (d : Fds α) (minimum : Nat) (file : α) : Nat × Fds α :=
  (d.lowest minimum, d.put (d.lowest minimum) file)

/-- One allocation after the other, each at the lowest free number. -/
def allocateAll (d : Fds α) : List α → List Nat × Fds α
  | [] => ([], d)
  | file :: files =>
    let (n, d) := d.allocate 0 file
    let (rest, d) := d.allocateAll files
    (n :: rest, d)

/-- New numbers are distinct, were free, and are all that changed. -/
theorem allocateAll_spec (d : Fds α) (files : List α) :
    (d.allocateAll files).1.Nodup ∧ (∀ n ∈ (d.allocateAll files).1, d.isOpen n = false) ∧
    ∀ n, (d.allocateAll files).2.isOpen n = true ↔
      n ∈ (d.allocateAll files).1 ∨ d.isOpen n = true := by
  induction files generalizing d with
  | nil => simp [allocateAll]
  | cons file files ih =>
    obtain ⟨distinct, free, others⟩ := ih (d.allocate 0 file).2
    have taken : (d.allocate 0 file).2.isOpen (d.lowest 0) = true := by simp [allocate]
    simp only [allocateAll]
    refine ⟨List.nodup_cons.mpr ⟨?_, distinct⟩, ?_, ?_⟩
    · -- The first number is open when the others are chosen.
      intro again
      have := free _ again
      rw [show (d.allocate 0 file).1 = d.lowest 0 from rfl, taken] at this
      cases this
    · intro n member
      rcases List.mem_cons.mp member with rfl | later
      · exact d.lowest_free 0
      · have := free n later
        simp [allocate] at this
        exact this.2
    · intro n
      rw [others, List.mem_cons, show (d.allocate 0 file).1 = d.lowest 0 from rfl]
      simp only [allocate, isOpen_put, Bool.or_eq_true, decide_eq_true_eq]
      exact or_left_comm.trans or_assoc.symm

end Fds

end Base
