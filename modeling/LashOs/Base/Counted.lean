import Mathlib.Logic.Function.Basic
import Mathlib.Data.Nat.Init

/-!
# Counted objects

An object that is opened several times is one pointer with a count. The pointer is the
object's until the last of its opens is undone; a pointer that is free may be used again for
another object.
-/
namespace Base

variable {κ : Type}

/-- The pointer of each object that is open, and how often each pointer is. -/
structure Counted (κ : Type) where
  pointer : κ → Option Nat
  opens : Nat → Nat

namespace Counted

def empty : Counted κ := ⟨fun _ => none, fun _ => 0⟩

structure Valid (c : Counted κ) : Prop where
  counted : ∀ p, 0 < c.opens p ↔ ∃ k, c.pointer k = some p
  unique : ∀ k k' p, c.pointer k = some p → c.pointer k' = some p → k = k'

/-- The pointer that opening `k` gives, if `fresh` is the next free one. -/
def opened (c : Counted κ) (k : κ) (fresh : Nat) : Nat := (c.pointer k).getD fresh

def openOne [DecidableEq κ] (c : Counted κ) (k : κ) (fresh : Nat) : Counted κ where
  pointer := Function.update c.pointer k (some (c.opened k fresh))
  opens := Function.update c.opens (c.opened k fresh) (c.opens (c.opened k fresh) + 1)

/-- Undoes one open of the object at `p`. -/
def closeOne (c : Counted κ) (p : Nat) : Counted κ where
  pointer k := if c.opens p = 1 ∧ c.pointer k = some p then none else c.pointer k
  opens := Function.update c.opens p (c.opens p - 1)

/-- A new object gets a pointer that is not in use. -/
def Fresh (c : Counted κ) (k : κ) (fresh : Nat) : Prop := c.pointer k = none → c.opens fresh = 0

variable {c : Counted κ} {k : κ} {fresh p : Nat}

theorem opens_openOne [DecidableEq κ] (c : Counted κ) (k : κ) (fresh : Nat) :
    (c.openOne k fresh).opens =
      Function.update c.opens (c.opened k fresh) (c.opens (c.opened k fresh) + 1) := rfl

theorem pointer_openOne [DecidableEq κ] (c : Counted κ) (k : κ) (fresh : Nat) :
    (c.openOne k fresh).pointer = Function.update c.pointer k (some (c.opened k fresh)) := rfl

theorem opens_closeOne (c : Counted κ) (p : Nat) :
    (c.closeOne p).opens = Function.update c.opens p (c.opens p - 1) := rfl

theorem empty_valid : (empty : Counted κ).Valid :=
  ⟨fun p => by simp [empty], fun k k' p here => by cases here⟩

theorem opened_of_some (here : c.pointer k = some p) : c.opened k fresh = p := by
  rw [opened, here, Option.getD_some]

theorem Valid.eq_of_opened (valid : c.Valid) (free : c.Fresh k fresh) {k' : κ}
    (here : c.pointer k' = some (c.opened k fresh)) : k' = k := by
  cases old : c.pointer k with
  | some p =>
    rw [opened_of_some old] at here
    exact valid.unique k' k p here old
  | none =>
    rw [opened, old, Option.getD_none] at here
    have := (valid.counted fresh).mpr ⟨k', here⟩
    have := free old
    omega

theorem Valid.openOne [DecidableEq κ] (valid : c.Valid) (free : c.Fresh k fresh) :
    (c.openOne k fresh).Valid where
  counted q := by
    simp only [Counted.openOne, Function.update_apply]
    by_cases same : q = c.opened k fresh
    · rw [if_pos same]
      exact ⟨fun _ => ⟨k, by rw [if_pos rfl, same]⟩, fun _ => Nat.succ_pos _⟩
    · rw [if_neg same, valid.counted]
      constructor
      · rintro ⟨k', here⟩
        refine ⟨k', ?_⟩
        rw [if_neg, here]
        -- The pointer of `k` itself is the one that was opened.
        rintro rfl
        exact same (opened_of_some here).symm
      · rintro ⟨k', here⟩
        split at here
        · exact absurd (Option.some.inj here).symm same
        · exact ⟨k', here⟩
  unique k₁ k₂ q here there := by
    simp only [Counted.openOne, Function.update_apply] at here there
    split at here <;> split at there
    · rename_i first second
      rw [first, second]
    · rename_i first second
      cases here
      exact absurd (valid.eq_of_opened free there) second
    · rename_i first second
      cases there
      exact absurd (valid.eq_of_opened free here) first
    · exact valid.unique k₁ k₂ q here there

theorem Valid.closeOne (valid : c.Valid) (p : Nat) : (c.closeOne p).Valid where
  counted q := by
    simp only [Counted.closeOne, Function.update_apply]
    by_cases same : q = p
    · subst same
      rw [if_pos rfl]
      by_cases last : c.opens q = 1
      · rw [last]
        constructor
        · intro less
          exact absurd less (Nat.lt_irrefl 0)
        · rintro ⟨k, here⟩
          split at here
          · cases here
          · rename_i kept
            exact absurd ⟨rfl, here⟩ kept
      · have more := valid.counted q
        simp only [last, false_and, if_false]
        rw [← more]
        omega
    · rw [if_neg same, valid.counted]
      refine exists_congr fun k => ?_
      by_cases other : c.pointer k = some p
      · constructor
        · intro here
          rw [other] at here
          exact absurd (Option.some.inj here).symm same
        · intro here
          split at here
          · cases here
          · exact here
      · rw [if_neg fun both => other both.2]
  unique k k' q here there := by
    simp only [Counted.closeOne] at here there
    split at here
    · cases here
    · split at there
      · cases there
      · exact valid.unique k k' q here there

/-- An open that is undone leaves nothing behind. -/
theorem Valid.closeOne_openOne [DecidableEq κ] (valid : c.Valid) (free : c.Fresh k fresh) :
    (c.openOne k fresh).closeOne (c.opened k fresh) = c := by
  have count : (c.openOne k fresh).opens (c.opened k fresh) = c.opens (c.opened k fresh) + 1 :=
    Function.update_self ..
  have pointers : ((c.openOne k fresh).closeOne (c.opened k fresh)).pointer = c.pointer := by
    funext k'
    simp only [Counted.closeOne, count]
    simp only [Counted.openOne, Function.update_apply]
    by_cases same : k' = k
    · subst same
      rw [if_pos rfl]
      cases old : c.pointer k' with
      | some p =>
        have open_ := (valid.counted p).mpr ⟨k', old⟩
        rw [opened_of_some old]
        rw [if_neg (by omega)]
      | none =>
        have fresh_ : c.opened k' fresh = fresh := by rw [opened, old, Option.getD_none]
        rw [fresh_, free old, if_pos ⟨rfl, rfl⟩]
    · rw [if_neg same, if_neg]
      rintro ⟨-, here⟩
      exact same (valid.eq_of_opened free here)
  have opens : ((c.openOne k fresh).closeOne (c.opened k fresh)).opens = c.opens := by
    simp only [Counted.closeOne, count, Nat.add_sub_cancel]
    simp only [Counted.openOne, Function.update_idem, Function.update_eq_self]
  cases c
  exact congr (congrArg Counted.mk pointers) opens

end Counted

end Base
