import LashOs.Base.Decimal
import LashOs.Launch.Options

/-!
# Numbers in options

`sandbox_number` on machine words: the number is an `unsigned long` of 64 bits, the limits and the
result are 32 bits wide. The loop gives up before the next digit could exceed the maximum, so the
words hold the exact values and the function reads the same numbers as over the natural numbers.
-/
namespace LashOs.Launch

open Base

namespace Machine

/-- `n * 10 + *p - '0'` -/
def appendDigit (n : UInt64) (p : UInt8) : UInt64 := n * 10 + p.toUInt64 - 48

/-- The loop of `sandbox_number`. -/
def numberLoop (maximum : UInt32) : List UInt8 → UInt64 → Option UInt64
  | [], n => some n
  | p :: rest, n =>
    if p < 48 ∨ p > 57 ∨ n > (maximum / 10).toUInt64 then none
    else if appendDigit n p > maximum.toUInt64 then none
    else numberLoop maximum rest (appendDigit n p)

/-- What is returned, and the variable behind `value`. -/
def sandboxNumber (text : CString) (minimum maximum value : UInt32) : Int × UInt32 :=
  if text.1 = [] then (-1, value)
  else
    match numberLoop maximum text.1 0 with
    | none => (-1, value)
    | some n => if n < minimum.toUInt64 then (-1, value) else (0, n.toUInt32)

/-- The numbers and bytes with which the loop computes its next number. -/
def evaluations (maximum : UInt32) : List UInt8 → UInt64 → List (UInt64 × UInt8)
  | [], _ => []
  | p :: rest, n =>
    if p < 48 ∨ p > 57 ∨ n > (maximum / 10).toUInt64 then []
    else if appendDigit n p > maximum.toUInt64 then [(n, p)]
    else (n, p) :: evaluations maximum rest (appendDigit n p)

/-- The product, the sum and the difference are the exact ones. -/
structure Exact (n : UInt64) (p : UInt8) : Prop where
  product : n.toNat * 10 < 2 ^ 64
  sum : n.toNat * 10 + p.toNat < 2 ^ 64
  difference : 48 ≤ n.toNat * 10 + p.toNat
  value : (appendDigit n p).toNat = n.toNat * 10 + p.toNat - 48

end Machine

/-! ### Over the natural numbers -/

theorem isDigit_iff (p : UInt8) : Decimal.isDigit p = true ↔ 48 ≤ p.toNat ∧ p.toNat ≤ 57 := by
  simp [Decimal.isDigit, UInt8.le_iff_toNat_le]

/-- Text of digits with a value that is not above the maximum. -/
def ReadsAs (maximum n : Nat) (text : List UInt8) (v : Nat) : Prop :=
  (∀ b ∈ text, Decimal.isDigit b = true) ∧ Decimal.valueFrom n text = v ∧ v ≤ maximum

theorem sandboxNumberLoop_iff {maximum n : Nat} (small : n ≤ maximum) (text : List UInt8) (v : Nat) :
    sandboxNumberLoop maximum text n = some v ↔ ReadsAs maximum n text v := by
  induction text generalizing n with
  | nil =>
    constructor
    · intro read
      cases read
      exact ⟨by simp, rfl, small⟩
    · rintro ⟨-, rfl, -⟩
      rfl
  | cons p rest ih =>
    have larger := Decimal.le_valueFrom (n * 10 + Decimal.digit p) rest
    rw [sandboxNumberLoop]
    split
    next refused =>
      -- No digit, or already the product is above the maximum.
      refine iff_of_false (by simp) ?_
      rintro ⟨digits, value, below⟩
      have digit := (isDigit_iff p).mp (digits p (by simp))
      rw [Decimal.valueFrom_cons] at value
      omega
    next goesOn =>
      have digit : Decimal.isDigit p = true := (isDigit_iff p).mpr (by omega)
      change (if n * 10 + Decimal.digit p > maximum then none
        else sandboxNumberLoop maximum rest (n * 10 + Decimal.digit p)) = some v ↔ _
      split
      next above =>
        refine iff_of_false (by simp) ?_
        rintro ⟨-, value, below⟩
        rw [Decimal.valueFrom_cons] at value
        omega
      next below =>
        rw [ih (Nat.le_of_not_lt below)]
        simp only [ReadsAs, List.forall_mem_cons, digit, true_and, Decimal.valueFrom_cons]

theorem sandboxNumber_eq_some_iff {text : List UInt8} {minimum maximum v : Nat} :
    sandboxNumber text minimum maximum = some v ↔
      text ≠ [] ∧ (∀ b ∈ text, Decimal.isDigit b = true) ∧ Decimal.value text = v ∧
        minimum ≤ v ∧ v ≤ maximum := by
  unfold sandboxNumber
  split
  next empty => simp [empty]
  next more =>
    rw [Option.filter_eq_some_iff, sandboxNumberLoop_iff (Nat.zero_le _), decide_eq_true_iff]
    constructor
    · rintro ⟨⟨digits, same, high⟩, low⟩
      exact ⟨more, digits, same, low, high⟩
    · rintro ⟨-, digits, same, low, high⟩
      exact ⟨⟨digits, same, high⟩, low⟩

/-! ### On machine words -/

namespace Machine

theorem toNat_div_ten (maximum : UInt32) : (maximum / 10).toUInt64.toNat = maximum.toNat / 10 := by
  simp

theorem exact_of_small {maximum : UInt32} {n : UInt64} {p : UInt8}
    (goesOn : ¬(p < 48 ∨ p > 57 ∨ n > (maximum / 10).toUInt64)) : Exact n p := by
  have limit := maximum.toNat_lt
  have byte := p.toNat_lt
  simp only [not_or, UInt8.lt_iff_toNat_lt, UInt64.lt_iff_toNat_lt, gt_iff_lt, toNat_div_ten] at goesOn
  obtain ⟨atLeast, -, small⟩ := goesOn
  have low : 48 ≤ p.toNat := Nat.le_of_not_lt atLeast
  have product : n.toNat * 10 < 2 ^ 64 := by omega
  have sum : n.toNat * 10 + p.toNat < 2 ^ 64 := by omega
  refine ⟨product, sum, by omega, ?_⟩
  have ten : (n * 10).toNat = n.toNat * 10 := by
    rw [UInt64.toNat_mul]
    exact Nat.mod_eq_of_lt product
  have added : (n * 10 + p.toUInt64).toNat = n.toNat * 10 + p.toNat := by
    rw [UInt64.toNat_add, ten, UInt8.toNat_toUInt64]
    exact Nat.mod_eq_of_lt sum
  have enough : (48 : UInt64) ≤ n * 10 + p.toUInt64 := by
    rw [UInt64.le_iff_toNat_le, added]
    exact Nat.le_trans low (Nat.le_add_left _ _)
  rw [appendDigit, UInt64.toNat_sub_of_le _ _ enough, added]
  rfl

theorem numberLoop_eq (maximum : UInt32) (text : List UInt8) (n : UInt64) :
    (numberLoop maximum text n).map UInt64.toNat =
      sandboxNumberLoop maximum.toNat text n.toNat := by
  induction text generalizing n with
  | nil => rfl
  | cons p rest ih =>
    rw [numberLoop, sandboxNumberLoop]
    have same : (p < 48 ∨ p > 57 ∨ n > (maximum / 10).toUInt64) ↔
        (p.toNat < 48 ∨ p.toNat > 57 ∨ n.toNat > maximum.toNat / 10) := by
      rw [UInt8.lt_iff_toNat_lt, gt_iff_lt, UInt8.lt_iff_toNat_lt, gt_iff_lt, UInt64.lt_iff_toNat_lt,
        toNat_div_ten]
      rfl
    by_cases refused : p < 48 ∨ p > 57 ∨ n > (maximum / 10).toUInt64
    · rw [if_pos refused, if_pos (same.mp refused)]
      rfl
    · have exact_ := exact_of_small refused
      have next : n.toNat * 10 + (p.toNat - 48) = (appendDigit n p).toNat := by
        rw [exact_.value]
        have := mt same.mpr refused
        omega
      rw [if_neg refused, if_neg (mt same.mpr refused), next, ← ih]
      have above : appendDigit n p > maximum.toUInt64 ↔ (appendDigit n p).toNat > maximum.toNat := by
        rw [gt_iff_lt, UInt64.lt_iff_toNat_lt, UInt32.toNat_toUInt64]
      by_cases large : appendDigit n p > maximum.toUInt64
      · rw [if_pos large, if_pos (above.mp large)]
        rfl
      · rw [if_neg large, if_neg (mt above.mpr large)]

theorem evaluations_exact (maximum : UInt32) (text : List UInt8) (n : UInt64) :
    ∀ e ∈ evaluations maximum text n, Exact e.1 e.2 := by
  induction text generalizing n with
  | nil => simp [evaluations]
  | cons p rest ih =>
    rw [evaluations]
    split
    · simp
    next goesOn =>
      have first := exact_of_small goesOn
      split
      · simpa using first
      · rw [List.forall_mem_cons]
        exact ⟨first, ih _⟩

end Machine

theorem machineNumber_refines (text : CString) (minimum maximum value : UInt32) :
    Machine.sandboxNumber text minimum maximum value =
      match sandboxNumber text.1 minimum.toNat maximum.toNat with
      | some v => (0, UInt32.ofNat v)
      | none => (-1, value) := by
  unfold Machine.sandboxNumber sandboxNumber
  split
  · rfl
  · have same := Machine.numberLoop_eq maximum text.1 0
    rcases read : Machine.numberLoop maximum text.1 0 with _ | n
    · rw [read] at same
      rw [← show none = sandboxNumberLoop maximum.toNat text.1 0 from same]
      rfl
    · rw [read] at same
      rw [← show some n.toNat = sandboxNumberLoop maximum.toNat text.1 0 from same]
      simp only [Option.filter_some, UInt64.lt_iff_toNat_lt, UInt32.toNat_toUInt64, decide_eq_true_eq]
      by_cases low : n.toNat < minimum.toNat
      · rw [if_pos low, if_neg (Nat.not_le.mpr low)]
      · rw [if_neg low, if_pos (Nat.le_of_not_lt low)]
        rfl

theorem toNat_ofNat_of_read {text : List UInt8} {minimum v : Nat} {maximum : UInt32}
    (found : sandboxNumber text minimum maximum.toNat = some v) : (UInt32.ofNat v).toNat = v := by
  obtain ⟨-, -, -, -, high⟩ := sandboxNumber_eq_some_iff.mp found
  exact UInt32.toNat_ofNat_of_lt' (Nat.lt_of_le_of_lt high maximum.toNat_lt)

theorem machineNumber_stores_iff {text : CString} {minimum maximum value : UInt32} (v : UInt32) :
    Machine.sandboxNumber text minimum maximum value = (0, v) ↔
      sandboxNumber text.1 minimum.toNat maximum.toNat = some v.toNat := by
  rw [machineNumber_refines]
  rcases found : sandboxNumber text.1 minimum.toNat maximum.toNat with _ | w
  · simp
  · rw [Prod.mk.injEq, eq_self, true_and, Option.some_inj, ← UInt32.toNat_inj,
      toNat_ofNat_of_read found]

/-- A number is stored exactly when the text consists of digits, at least one, and its value is
between the limits. Otherwise the variable stays as it is, and no word ever overflows. -/
theorem sandboxNumber_exact (text : CString) (minimum maximum value : UInt32) :
    (∀ v : UInt32, Machine.sandboxNumber text minimum maximum value = (0, v) ↔
      text.1 ≠ [] ∧ (∀ b ∈ text.1, Decimal.isDigit b = true) ∧
        Decimal.value text.1 = v.toNat ∧ minimum ≤ v ∧ v ≤ maximum) ∧
    ((¬∃ v : UInt32, text.1 ≠ [] ∧ (∀ b ∈ text.1, Decimal.isDigit b = true) ∧
        Decimal.value text.1 = v.toNat ∧ minimum ≤ v ∧ v ≤ maximum) →
      Machine.sandboxNumber text minimum maximum value = (-1, value)) ∧
    ∀ e ∈ Machine.evaluations maximum text.1 0, Machine.Exact e.1 e.2 := by
  have reads : ∀ v : UInt32,
      sandboxNumber text.1 minimum.toNat maximum.toNat = some v.toNat ↔
        text.1 ≠ [] ∧ (∀ b ∈ text.1, Decimal.isDigit b = true) ∧
          Decimal.value text.1 = v.toNat ∧ minimum ≤ v ∧ v ≤ maximum := by
    intro v
    rw [sandboxNumber_eq_some_iff, UInt32.le_iff_toNat_le, UInt32.le_iff_toNat_le]
  refine ⟨fun v => (machineNumber_stores_iff v).trans (reads v), fun other => ?_,
    Machine.evaluations_exact maximum text.1 0⟩
  rw [machineNumber_refines]
  rcases found : sandboxNumber text.1 minimum.toNat maximum.toNat with _ | w
  · rfl
  · rw [← toNat_ofNat_of_read found] at found
    exact absurd ⟨UInt32.ofNat w, (reads _).mp found⟩ other

-- The largest identity that is accepted, and one that is larger by ten.
example : Machine.sandboxNumber (.ofText "004294967294") 1 4294967294 7 = (0, 4294967294) ∧
    Machine.sandboxNumber (.ofText "4294967304") 1 4294967294 7 = (-1, 7) := by decide +kernel

end LashOs.Launch
