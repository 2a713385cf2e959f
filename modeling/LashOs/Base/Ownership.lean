import Mathlib.Data.List.Perm.Subperm
import Mathlib.Logic.Function.Basic
import LashOs.Base.Descriptors

/-!
# Descriptors that a program owns

A program starts with a table of descriptors that belongs to its caller and keeps the numbers of
those that it opens itself in variables. It owns what its variables hold, each number in one
variable; everything else is as the caller left it. A program whose variables are empty again has
left the caller's table, whatever it opened and closed in between.
-/
namespace Base

variable {ι α : Type}

/-- A table of descriptors and the variables that hold some of its numbers. -/
structure Holder (ι α : Type) where
  fds : Fds α
  var : ι → Option Nat

namespace Holder

variable [DecidableEq ι]

/-- A new descriptor at the lowest free number. -/
def openInto (h : Holder ι α) (i : ι) (file : α) : Holder ι α where
  fds := (h.fds.allocate 0 file).2
  var := Function.update h.var i (some (h.fds.allocate 0 file).1)

/-- Closes what a variable holds, if it holds something. -/
def closeOf (h : Holder ι α) (i : ι) : Holder ι α :=
  match h.var i with
  | none => h
  | some n => { fds := h.fds.close n, var := Function.update h.var i none }

def closeAll (h : Holder ι α) (slots : List ι) : Holder ι α := slots.foldl closeOf h

/-- The number goes from one variable to another. -/
def move (h : Holder ι α) (i j : ι) : Holder ι α :=
  { h with var := Function.update (Function.update h.var j (h.var i)) i none }

/-! ### The variables after an operation -/

@[simp] theorem var_openInto (h : Holder ι α) (i j : ι) (file : α) :
    (h.openInto i file).var j = if j = i then some (h.fds.lowest 0) else h.var j := by
  simp [openInto, Function.update_apply, Fds.allocate]

@[simp] theorem var_closeOf (h : Holder ι α) (i j : ι) :
    (h.closeOf i).var j = if j = i then none else h.var j := by
  rw [closeOf]
  split
  next empty =>
    by_cases same : j = i
    · simp [same, empty]
    · simp [same]
  next => simp [Function.update_apply]

@[simp] theorem var_closeAll (h : Holder ι α) (slots : List ι) (j : ι) :
    (h.closeAll slots).var j = if j ∈ slots then none else h.var j := by
  induction slots generalizing h with
  | nil => simp [closeAll]
  | cons i slots ih =>
    rw [closeAll, List.foldl_cons, ← closeAll, ih]
    by_cases later : j ∈ slots
    · simp [later]
    · simp [later]

@[simp] theorem var_move (h : Holder ι α) (i j k : ι) :
    (h.move i j).var k = if k = i then none else if k = j then h.var i else h.var k := by
  simp [move, Function.update_apply]

@[simp] theorem fds_move (h : Holder ι α) (i j : ι) : (h.move i j).fds = h.fds := rfl

/-! ### Ownership -/

/-- The table is the one of the caller with the numbers in the variables open as well, each on the
file that is meant for its variable. -/
structure Owns (before : Fds α) (file : ι → α) (h : Holder ι α) : Prop where
  distinct : ∀ i j n, h.var i = some n → h.var j = some n → i = j
  free : ∀ i n, h.var i = some n → before.isOpen n = false
  held : ∀ i n, h.var i = some n → h.fds.entry n = some (file i)
  others : ∀ n, (∀ i, h.var i ≠ some n) → h.fds.entry n = before.entry n

variable {before : Fds α} {file : ι → α} {h : Holder ι α}

omit [DecidableEq ι] in
theorem Owns.start (empty : ∀ i, h.var i = none) : Owns h.fds file h where
  distinct i j n here := by simp [empty] at here
  free i n here := by simp [empty] at here
  held i n here := by simp [empty] at here
  others _ _ := rfl

omit [DecidableEq ι] in
theorem Owns.isOpen (owns : Owns before file h) {i : ι} {n : Nat} (here : h.var i = some n) :
    h.fds.isOpen n = true := by
  rw [Fds.isOpen, owns.held i n here]
  rfl

omit [DecidableEq ι] in
/-- A number that is free is in no variable, and the caller had it free too. -/
theorem Owns.unused (owns : Owns before file h) {n : Nat} (free : h.fds.isOpen n = false) :
    (∀ i, h.var i ≠ some n) ∧ before.isOpen n = false := by
  have outside : ∀ i, h.var i ≠ some n := by
    intro i here
    rw [owns.isOpen here] at free
    cases free
  refine ⟨outside, ?_⟩
  rw [Fds.isOpen, owns.others n outside] at free
  exact free

theorem Owns.openInto (owns : Owns before file h) {i : ι} (empty : h.var i = none) :
    Owns before file (h.openInto i (file i)) := by
  obtain ⟨outside, closed⟩ := owns.unused (h.fds.lowest_free 0)
  -- Each variable is the new one or an old one, and the old ones do not hold the new number.
  have cases_ : ∀ j n, (h.openInto i (file i)).var j = some n →
      j = i ∧ n = h.fds.lowest 0 ∨ j ≠ i ∧ h.var j = some n := by
    intro j n here
    rw [var_openInto] at here
    split at here
    next same => exact .inl ⟨same, by simpa using here.symm⟩
    next other => exact .inr ⟨other, here⟩
  have opened : ∀ m, (h.openInto i (file i)).fds.entry m =
      if m = h.fds.lowest 0 then some (file i) else h.fds.entry m := fun _ => rfl
  refine ⟨?_, ?_, ?_, ?_⟩
  · intro j k n first second
    rcases cases_ j n first with ⟨rfl, rfl⟩ | ⟨_, first⟩
    · rcases cases_ k _ second with ⟨rfl, -⟩ | ⟨-, second⟩
      · rfl
      · exact absurd second (outside k)
    · rcases cases_ k n second with ⟨-, rfl⟩ | ⟨-, second⟩
      · exact absurd first (outside j)
      · exact owns.distinct j k n first second
  · intro j n here
    rcases cases_ j n here with ⟨-, rfl⟩ | ⟨-, here⟩
    · exact closed
    · exact owns.free j n here
  · intro j n here
    rw [opened]
    rcases cases_ j n here with ⟨rfl, rfl⟩ | ⟨-, here⟩
    · simp
    · have different : n ≠ h.fds.lowest 0 := fun same => outside j (same ▸ here)
      rw [if_neg different]
      exact owns.held j n here
  · intro n absent
    have other : n ≠ h.fds.lowest 0 := by
      rintro rfl
      exact absent i (by simp)
    rw [opened, if_neg other]
    refine owns.others n fun j here => absent j ?_
    have old : j ≠ i := by
      rintro rfl
      rw [empty] at here
      cases here
    simpa [old] using here

theorem Owns.closeOf (owns : Owns before file h) (i : ι) : Owns before file (h.closeOf i) := by
  cases held : h.var i with
  | none =>
    rw [Holder.closeOf, held]
    exact owns
  | some n =>
    have cases_ : ∀ j m, (h.closeOf i).var j = some m → h.var j = some m ∧ m ≠ n := by
      intro j m here
      rw [var_closeOf] at here
      split at here
      · cases here
      next other =>
        refine ⟨here, ?_⟩
        rintro rfl
        exact other (owns.distinct j i m here held)
    have closed : ∀ m, (h.closeOf i).fds.entry m = if m = n then none else h.fds.entry m := by
      intro m
      rw [Holder.closeOf, held]
      rfl
    refine ⟨?_, ?_, ?_, ?_⟩
    · intro j k m first second
      exact owns.distinct j k m (cases_ j m first).1 (cases_ k m second).1
    · intro j m here
      exact owns.free j m (cases_ j m here).1
    · intro j m here
      obtain ⟨old, other⟩ := cases_ j m here
      rw [closed, if_neg other]
      exact owns.held j m old
    · intro m absent
      rw [closed]
      split
      next same => rw [same, Fds.isOpen_eq_false.mp (owns.free i n held)]
      next other =>
        refine owns.others m fun j here => ?_
        have old : j ≠ i := by
          rintro rfl
          rw [held] at here
          exact other (Option.some.inj here.symm)
        exact absent j (by simpa [old] using here)

theorem Owns.closeAll (owns : Owns before file h) (slots : List ι) :
    Owns before file (h.closeAll slots) := by
  induction slots generalizing h with
  | nil => exact owns
  | cons i slots ih => exact ih (owns.closeOf i)

theorem Owns.move (owns : Owns before file h) (i : ι) {j : ι} (empty : h.var j = none)
    (other : i ≠ j) (same : file i = file j) : Owns before file (h.move i j) := by
  -- A variable of the result holds what one variable held before.
  have cases_ : ∀ k n, (h.move i j).var k = some n →
      k = j ∧ h.var i = some n ∨ k ≠ i ∧ k ≠ j ∧ h.var k = some n := by
    intro k n here
    rw [var_move] at here
    split at here
    · cases here
    next notFrom =>
      split at here
      next target => exact .inl ⟨target, here⟩
      next notTo => exact .inr ⟨notFrom, notTo, here⟩
  refine ⟨?_, ?_, ?_, ?_⟩
  · intro k l n first second
    rcases cases_ k n first with ⟨rfl, here⟩ | ⟨kept, -, here⟩
    · rcases cases_ l n second with ⟨rfl, -⟩ | ⟨kept, -, there⟩
      · rfl
      · exact absurd (owns.distinct l i n there here) kept
    · rcases cases_ l n second with ⟨rfl, there⟩ | ⟨-, -, there⟩
      · exact absurd (owns.distinct k i n here there) kept
      · exact owns.distinct k l n here there
  · intro k n here
    rcases cases_ k n here with ⟨-, here⟩ | ⟨-, -, here⟩
    · exact owns.free i n here
    · exact owns.free k n here
  · intro k n here
    rcases cases_ k n here with ⟨rfl, there⟩ | ⟨-, -, there⟩
    · exact same ▸ owns.held i n there
    · exact owns.held k n there
  · intro n absent
    refine owns.others n fun k here => ?_
    by_cases source : k = i
    · subst source
      exact absent j (by simp [other.symm, here])
    · by_cases target : k = j
      · subst target
        rw [empty] at here
        cases here
      · exact absent k (by simp [source, target, here])

omit [DecidableEq ι] in
/-- A program whose variables are empty has left the caller's table. -/
theorem Owns.restored (owns : Owns before file h) (empty : ∀ i, h.var i = none) (n : Nat) :
    h.fds.entry n = before.entry n :=
  owns.others n fun i => by simp [empty]

/-! ### Descriptors that are never closed -/

/-- `after` is the table `before` with some of its free numbers taken by `lost`. -/
structure Grows (lost : α) (before after : Fds α) : Prop where
  kept : ∀ n, before.isOpen n = true → after.entry n = before.entry n
  gained : ∀ n, before.isOpen n = false → after.entry n = none ∨ after.entry n = some lost

variable {lost : α} {d d' d'' : Fds α}

theorem Grows.refl (lost : α) (d : Fds α) : Grows lost d d :=
  ⟨fun _ _ => rfl, fun _ free => .inl (Fds.isOpen_eq_false.mp free)⟩

theorem Grows.trans (first : Grows lost d d') (second : Grows lost d' d'') : Grows lost d d'' := by
  refine ⟨fun n open_ => ?_, fun n free => ?_⟩
  · have still : d'.isOpen n = true := by
      rw [Fds.isOpen, first.kept n open_]
      exact open_
    rw [second.kept n still, first.kept n open_]
  · rcases first.gained n free with closed | taken
    · exact second.gained n (Fds.isOpen_eq_false.mpr closed)
    · have still : d'.isOpen n = true := by
        rw [Fds.isOpen, taken]
        rfl
      exact .inr (by rw [second.kept n still, taken])

/-- A new descriptor that is closed again leaves only what was gained in between. -/
theorem Grows.bracket (file : α) (inside : Grows lost (d.allocate 0 file).2 d') :
    Grows lost d (d'.close (d.allocate 0 file).1) := by
  have free := d.lowest_free 0
  have opened (n : Nat) : (d.allocate 0 file).2.entry n =
      if n = (d.allocate 0 file).1 then some file else d.entry n := rfl
  refine ⟨fun n open_ => ?_, fun n closed => ?_⟩
  · have other : n ≠ (d.allocate 0 file).1 := by
      rintro rfl
      rw [show d.isOpen (d.allocate 0 file).1 = false from free] at open_
      cases open_
    have still : (d.allocate 0 file).2.isOpen n = true := by
      rw [Fds.isOpen, opened, if_neg other]
      exact open_
    rw [Fds.entry_close, if_neg other, inside.kept n still, opened, if_neg other]
  · rw [Fds.entry_close]
    split
    · exact .inl rfl
    next other =>
      apply inside.gained n
      rw [Fds.isOpen, opened, if_neg other]
      exact closed

theorem Grows.allocate (lost : α) (d : Fds α) : Grows lost d (d.allocate 0 lost).2 := by
  have free := d.lowest_free 0
  have opened (n : Nat) : (d.allocate 0 lost).2.entry n =
      if n = d.lowest 0 then some lost else d.entry n := rfl
  refine ⟨fun n open_ => ?_, fun n closed => ?_⟩
  · rw [opened, if_neg]
    rintro rfl
    rw [free] at open_
    cases open_
  · rw [opened]
    split
    · exact .inr rfl
    · exact .inl (Fds.isOpen_eq_false.mp closed)

omit [DecidableEq ι] in
open Classical in
/-- What is lost while the program runs belongs to no variable: it counts as the caller's. -/
theorem Owns.grow (owns : Owns before file h) (grows : Grows lost h.fds d) :
    ∃ after, Owns after file { h with fds := d } ∧ Grows lost before after ∧
      (d.entry = h.fds.entry → after.entry = before.entry) := by
  -- The new table without what the variables hold.
  let after : Fds α := {
    entry := fun n => if ∃ i, h.var i = some n then none else d.entry n
    bound := d.bound
    closed := fun n above => by
      split
      · rfl
      · exact d.closed n above }
  have held {n : Nat} (some_ : ∃ i, h.var i = some n) : after.entry n = none := if_pos some_
  have free {n : Nat} (none_ : ¬∃ i, h.var i = some n) : after.entry n = d.entry n := if_neg none_
  have absent {n : Nat} (none_ : ¬∃ i, h.var i = some n) : h.fds.entry n = before.entry n :=
    owns.others n fun i here => none_ ⟨i, here⟩
  have closed {n : Nat} (some_ : ∃ i, h.var i = some n) : before.entry n = none := by
    obtain ⟨i, here⟩ := some_
    exact Fds.isOpen_eq_false.mp (owns.free i n here)
  refine ⟨after, ⟨owns.distinct, ?_, ?_, ?_⟩, ⟨?_, ?_⟩, ?_⟩
  · intro i n here
    exact Fds.isOpen_eq_false.mpr (held ⟨i, here⟩)
  · intro i n here
    rw [grows.kept n (owns.isOpen here)]
    exact owns.held i n here
  · intro n outside
    exact (free fun ⟨i, here⟩ => outside i here).symm
  · intro n open_
    by_cases some_ : ∃ i, h.var i = some n
    · rw [Fds.isOpen, closed some_] at open_
      cases open_
    · rw [free some_, ← absent some_]
      apply grows.kept
      rw [Fds.isOpen, absent some_]
      exact open_
  · intro n shut
    by_cases some_ : ∃ i, h.var i = some n
    · exact .inl (held some_)
    · rw [free some_]
      apply grows.gained
      rw [Fds.isOpen, absent some_]
      exact shut
  · intro same
    funext n
    by_cases some_ : ∃ i, h.var i = some n
    · rw [held some_, closed some_]
    · rw [free some_, same, absent some_]

/-! ### Numbers that fill the table -/

/-- There is no free number below one that is owned. -/
def Filled (h : Holder ι α) : Prop := ∀ i n, h.var i = some n → ∀ m < n, h.fds.isOpen m = true

omit [DecidableEq ι] in
theorem Filled.start (empty : ∀ i, h.var i = none) : Filled h := by
  intro i n here
  simp [empty] at here

theorem Filled.openInto (filled : Filled h) (i : ι) (a : α) : Filled (h.openInto i a) := by
  intro j n here m below
  have opened : (h.openInto i a).fds.isOpen m =
      (decide (m = h.fds.lowest 0) || h.fds.isOpen m) := by
    simp [Holder.openInto, Fds.allocate]
  rw [opened]
  rw [var_openInto] at here
  split at here
  · have all := (h.fds.le_lowest_iff (h.fds.lowest 0)).mp (Nat.le_refl _)
    cases here
    simp [all m below]
  · simp [filled j n here m below]

theorem Filled.move (filled : Filled h) (i j : ι) : Filled (h.move i j) := by
  intro k n here
  rw [var_move] at here
  split at here
  · cases here
  · split at here
    · exact filled i n here
    · exact filled k n here

omit [DecidableEq ι] in
/-- Numbers that fill the table reach at least as far as there are variables that hold them. -/
theorem Filled.isOpen_of_lt (filled : Filled h) (owns : Owns before file h) (slots : List ι)
    (distinct : slots.Nodup) (holding : ∀ i ∈ slots, h.var i ≠ none) {n : Nat}
    (few : n < slots.length) : h.fds.isOpen n = true := by
  by_contra free
  -- Otherwise all of them are below `n`, and there are not so many numbers.
  let number (i : ι) : Nat := (h.var i).getD 0
  have holds : ∀ i ∈ slots, h.var i = some (number i) := by
    intro i member
    obtain ⟨m, here⟩ := Option.ne_none_iff_exists'.mp (holding i member)
    simp [number, here]
  have below : ∀ i ∈ slots, number i < n := by
    intro i member
    by_contra above
    rcases Nat.lt_or_eq_of_le (Nat.le_of_not_lt above) with less | same
    · exact free (filled i _ (holds i member) n less)
    · exact free (same ▸ owns.isOpen (holds i member))
  have numbers : (slots.map number).Nodup := by
    refine List.Nodup.map_on ?_ distinct
    intro i inside j within same
    exact owns.distinct i j (number i) (holds i inside) (same ▸ holds j within)
  have inside : slots.map number ⊆ List.range n := by
    intro m member
    obtain ⟨i, within, rfl⟩ := List.mem_map.mp member
    exact List.mem_range.mpr (below i within)
  have bound := (numbers.subperm inside).length_le
  rw [List.length_map, List.length_range] at bound
  omega

end Holder

end Base
