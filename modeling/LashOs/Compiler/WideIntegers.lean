import LashOs.Base.Extension
import LashOs.Base.Run

/-!
# Wide integer arithmetic by helpers

`ExpandI128Pass` replaces multiplications, divisions and remainders of 65 to 128 bits by calls
of 128-bit helpers: the operands are extended, and the result is narrowed. The values that a
program computes stay the same wherever the replaced instructions are defined.

The overflow intrinsics, which the pass expands as well, are not changed by the patch and not
modelled.
-/

namespace LashOs.Compiler

open Base

/-! ### Operations -/

inductive Opcode where
  | add
  | sub
  | mul
  | udiv
  | sdiv
  | urem
  | srem
  | shl
  | lshr
  | ashr
  | and
  | or
  | xor
deriving DecidableEq

def Opcode.eval {w : Nat} (a d : BitVec w) : Opcode → Option (BitVec w)
  | add => some (a + d)
  | sub => some (a - d)
  | mul => some (a * d)
  | udiv => if d = 0 then none else some (a / d)
  | urem => if d = 0 then none else some (a % d)
  | sdiv => if d = 0 ∨ (a = BitVec.intMin w ∧ d = -1) then none else some (a.sdiv d)
  | srem => if d = 0 ∨ (a = BitVec.intMin w ∧ d = -1) then none else some (a.srem d)
  | shl => if d.toNat < w then some (a <<< d.toNat) else none
  | lshr => if d.toNat < w then some (a >>> d.toNat) else none
  | ashr => if d.toNat < w then some (a.sshiftRight d.toNat) else none
  | and => some (a &&& d)
  | or => some (a ||| d)
  | xor => some (a ^^^ d)

inductive Libcall where
  | mul128
  | udiv128
  | sdiv128
  | urem128
  | srem128
deriving DecidableEq

def Libcall.operator : Libcall → Opcode
  | mul128 => .mul
  | udiv128 => .udiv
  | sdiv128 => .sdiv
  | urem128 => .urem
  | srem128 => .srem

/-- Helpers that are right wherever their operator is defined. -/
structure Helpers where
  call : Libcall → BitVec 128 → BitVec 128 → BitVec 128
  correct : ∀ name a d r, name.operator.eval a d = some r → call name a d = r

/-! ### The pass -/

/-- `arithmeticLibcall` for a binary operator of an integer type. -/
def arithmeticLibcall (op : Opcode) (width : Nat) : Option Libcall :=
  if 64 < width ∧ width ≤ 128 then
    match op with
    | .mul => some .mul128
    | .udiv => some .udiv128
    | .sdiv => some .sdiv128
    | .urem => some .urem128
    | .srem => some .srem128
    | _ => none
  else none

def signedOperation (op : Opcode) : Bool := op = .sdiv || op = .srem

/-- `CreateIntCast`. -/
def createIntCast {w : Nat} (value : BitVec w) (width : Nat) (isSigned : Bool) : BitVec width :=
  if w < width ∧ isSigned = true then value.signExtend width else value.setWidth width

/-- What the pass computes in place of an operator. -/
def lowered (helpers : Helpers) {w : Nat} (op : Opcode) (a d : BitVec w) : Option (BitVec w) :=
  (arithmeticLibcall op w).map fun name =>
    createIntCast
      (helpers.call name (createIntCast a 128 (signedOperation op))
        (createIntCast d 128 (signedOperation op)))
      w (signedOperation op)

/-! ### The arithmetic -/

variable {w : Nat}

theorem createIntCast_unsigned (value : BitVec w) (width : Nat) :
    createIntCast value width false = value.setWidth width := by
  simp [createIntCast]

theorem createIntCast_signed (value : BitVec w) {width : Nat} (le : w ≤ width) :
    createIntCast value width true = value.signExtend width := by
  unfold createIntCast
  split
  · rfl
  next narrow =>
    -- At the same width the cast is none, whatever its sign.
    have same : w = width := by
      by_contra differs
      exact narrow ⟨by omega, rfl⟩
    subst same
    rw [BitVec.setWidth_eq, BitVec.signExtend_eq]

theorem createIntCast_narrow (value : BitVec 128) (le : w ≤ 128) (isSigned : Bool) :
    createIntCast value w isSigned = value.setWidth w := by
  rw [createIntCast, if_neg fun wide => absurd wide.1 (Nat.not_lt.mpr le)]

theorem helper_result (helpers : Helpers) (name : Libcall) {a d r : BitVec 128}
    (defined : name.operator.eval a d = some r) (le : w ≤ 128) (isSigned : Bool) :
    createIntCast (helpers.call name a d) w isSigned = r.setWidth w := by
  rw [helpers.correct name a d r defined, createIntCast_narrow _ le]

theorem not_overflow_signExtend (wide : 64 < w) (le : w ≤ 128) {a d : BitVec w}
    (defined : ¬ (d = 0 ∨ (a = BitVec.intMin w ∧ d = -1))) :
    ¬ (d.signExtend 128 = 0 ∨
      (a.signExtend 128 = BitVec.intMin 128 ∧ d.signExtend 128 = -1)) := by
  rintro (zero | overflow)
  · exact defined (Or.inl ((signExtend_eq_zero_iff le d).mp zero))
  · exact defined (Or.inr (overflow_of_signExtend le a d (by omega) overflow))

variable {name : Libcall} {op : Opcode}

theorem lowered_unsigned (helpers : Helpers) (le : w ≤ 128) {a d : BitVec w} {r : BitVec 128}
    (call : arithmeticLibcall op w = some name) (unsigned : signedOperation op = false)
    (defined : name.operator.eval (a.setWidth 128) (d.setWidth 128) = some r) :
    lowered helpers op a d = some (r.setWidth w) := by
  rw [lowered, call, Option.map_some, unsigned, createIntCast_unsigned a, createIntCast_unsigned d,
    helper_result helpers name defined le]

theorem lowered_signed (helpers : Helpers) (le : w ≤ 128) {a d : BitVec w} {r : BitVec 128}
    (call : arithmeticLibcall op w = some name) (isSigned : signedOperation op = true)
    (defined : name.operator.eval (a.signExtend 128) (d.signExtend 128) = some r) :
    lowered helpers op a d = some (r.setWidth w) := by
  rw [lowered, call, Option.map_some, isSigned, createIntCast_signed a le,
    createIntCast_signed d le, helper_result helpers name defined le]

theorem arithmeticLibcall_eq_some_iff :
    arithmeticLibcall op w = some name ↔ (64 < w ∧ w ≤ 128) ∧ name.operator = op := by
  unfold arithmeticLibcall
  split
  next inRange =>
    simp only [inRange, and_self, true_and]
    -- A table of thirteen operators and five helpers.
    cases op <;> cases name <;> decide
  next outside => simp [outside]

/-- What the pass puts in place of an operator has the result of the operator. -/
theorem lowered_of_libcall (helpers : Helpers) (call : arithmeticLibcall op w = some name)
    {a d r : BitVec w} (defined : op.eval a d = some r) : lowered helpers op a d = some r := by
  obtain ⟨⟨wide, le⟩, rfl⟩ := arithmeticLibcall_eq_some_iff.mp call
  -- One case for each helper: that it is called where it is defined, and the arithmetic.
  cases name with
  | mul128 =>
    cases defined
    rw [lowered_unsigned helpers le call rfl rfl, setWidth_mul_setWidth le]
  | udiv128 =>
    obtain ⟨nonzero, same⟩ := Option.ite_none_left_eq_some.mp defined
    have nonzero128 := (setWidth_eq_zero_iff le d).not.mpr nonzero
    rw [lowered_unsigned helpers le call rfl (if_neg nonzero128), setWidth_udiv_setWidth le, same]
  | sdiv128 =>
    obtain ⟨divides, same⟩ := Option.ite_none_left_eq_some.mp defined
    have divides128 := not_overflow_signExtend wide le divides
    rw [lowered_signed helpers le call rfl (if_neg divides128), setWidth_sdiv_signExtend le, same]
  | urem128 =>
    obtain ⟨nonzero, same⟩ := Option.ite_none_left_eq_some.mp defined
    have nonzero128 := (setWidth_eq_zero_iff le d).not.mpr nonzero
    rw [lowered_unsigned helpers le call rfl (if_neg nonzero128), setWidth_umod_setWidth le, same]
  | srem128 =>
    obtain ⟨divides, same⟩ := Option.ite_none_left_eq_some.mp defined
    have divides128 := not_overflow_signExtend wide le divides
    rw [lowered_signed helpers le call rfl (if_neg divides128), setWidth_srem_signExtend le, same]

/-- Each of the five operators at 65 to 128 bits is replaced, and where it is defined what is
computed in its place is its result. -/
theorem lowered_operator (helpers : Helpers) (wide : 64 < w) (le : w ≤ 128) (name : Libcall)
    (a d r : BitVec w) (defined : name.operator.eval a d = some r) :
    arithmeticLibcall name.operator w = some name ∧ lowered helpers name.operator a d = some r := by
  have call : arithmeticLibcall name.operator w = some name :=
    arithmeticLibcall_eq_some_iff.mpr ⟨⟨wide, le⟩, rfl⟩
  exact ⟨call, lowered_of_libcall helpers call defined⟩

def exactCall (name : Libcall) (a d : BitVec 128) : BitVec 128 := (name.operator.eval a d).getD 0

theorem exactCall_correct (name : Libcall) (a d r : BitVec 128)
    (defined : name.operator.eval a d = some r) : exactCall name a d = r := by
  rw [exactCall, defined, Option.getD_some]

def exactHelpers : Helpers := ⟨exactCall, exactCall_correct⟩

/-- The smallest number of 65 bits divided by three: the quotient is rounded towards zero. -/
theorem smallest_third :
    arithmeticLibcall .sdiv 65 = some .sdiv128 ∧
      lowered exactHelpers .sdiv (BitVec.intMin 65) 3 =
        some (BitVec.ofInt 65 (-6148914691236517205)) :=
  lowered_operator exactHelpers (by decide) (by decide) .sdiv128 (BitVec.intMin 65) 3 _
    (by decide +kernel)

/-! ### Programs -/

structure Value where
  width : Nat
  bits : BitVec width
deriving DecidableEq

def Value.ofWidth (value : Value) (width : Nat) : Option (BitVec width) :=
  if same : value.width = width then some (value.bits.cast same) else none

/-- The instructions that the pass reads and writes, over names for values. -/
inductive Ins (ν : Type) where
  | binary (dest : ν) (op : Opcode) (width : Nat) (a d : ν)
  | intCast (dest : ν) (value : ν) (width : Nat) (isSigned : Bool)
  | libcall (dest : ν) (name : Libcall) (a d : ν)

namespace Ins

variable {ν μ : Type}

def dest : Ins ν → ν
  | binary dest _ _ _ _ | intCast dest _ _ _ | libcall dest _ _ _ => dest

/-- The value that an instruction computes, where it is defined. -/
def result (helpers : Helpers) (env : ν → Option Value) : Ins ν → Option Value
  | binary _ op width a d => do
    let a ← (← env a).ofWidth width
    let d ← (← env d).ofWidth width
    return ⟨width, ← op.eval a d⟩
  | intCast _ value width isSigned => do
    return ⟨width, createIntCast (← env value).bits width isSigned⟩
  | libcall _ name a d => do
    return ⟨128, helpers.call name (← (← env a).ofWidth 128) (← (← env d).ofWidth 128)⟩

def exec [DecidableEq ν] (helpers : Helpers) (env : ν → Option Value) (i : Ins ν) :
    Option (ν → Option Value) :=
  (i.result helpers env).map fun value => Function.update env i.dest (some value)

def rename (f : ν → μ) : Ins ν → Ins μ
  | binary dest op width a d => binary (f dest) op width (f a) (f d)
  | intCast dest value width isSigned => intCast (f dest) (f value) width isSigned
  | libcall dest name a d => libcall (f dest) name (f a) (f d)

end Ins

/-- The names after the pass: those of before, and three for what it creates. -/
inductive Reg (ν : Type) where
  | value (name : ν)
  | wideA (name : ν)
  | wideD (name : ν)
  | wide (name : ν)
deriving DecidableEq

/-- The loop body of `ExpandI128Pass::run` for a binary operator. The uses of the instruction
become uses of the last cast, which here keeps its name. -/
def expand {ν : Type} : Ins ν → List (Ins (Reg ν))
  | .binary dest op width a d =>
    match arithmeticLibcall op width with
    | some name =>
      [.intCast (.wideA dest) (.value a) 128 (signedOperation op),
        .intCast (.wideD dest) (.value d) 128 (signedOperation op),
        .libcall (.wide dest) name (.wideA dest) (.wideD dest),
        .intCast (.value dest) (.wide dest) width (signedOperation op)]
    | none => [.binary (.value dest) op width (.value a) (.value d)]
  | i => [i.rename .value]

def Agrees {ν : Type} (before : ν → Option Value) (after : Reg ν → Option Value) : Prop :=
  ∀ name, after (.value name) = before name

section Programs

variable {ν : Type} {helpers : Helpers} {before : ν → Option Value}
  {after : Reg ν → Option Value}

theorem Value.ofWidth_eq_some_iff {value : Value} {width : Nat} {bits : BitVec width} :
    value.ofWidth width = some bits ↔ value = ⟨width, bits⟩ := by
  obtain ⟨width', bits'⟩ := value
  rw [Value.ofWidth]
  constructor
  · intro found
    split at found
    next same =>
      cases same
      cases found
      rfl
    next => cases found
  · rintro ⟨⟩
    simp

@[simp] theorem Value.ofWidth_self (width : Nat) (bits : BitVec width) :
    (⟨width, bits⟩ : Value).ofWidth width = some bits := Value.ofWidth_eq_some_iff.mpr rfl

theorem result_rename (agrees : Agrees before after) (i : Ins ν) :
    (i.rename Reg.value).result helpers after = i.result helpers before := by
  cases i <;> simp [Ins.rename, Ins.result, agrees _]

variable [DecidableEq ν]

theorem Agrees.update (agrees : Agrees before after) (name : ν) (value : Option Value) :
    Agrees (Function.update before name value) (Function.update after (.value name) value) := by
  intro other
  by_cases same : other = name
  · simp [same]
  · rw [Function.update_of_ne same, Function.update_of_ne (by simpa using same), agrees]

theorem exec_rename (agrees : Agrees before after) {i : Ins ν} {next : ν → Option Value}
    (stepped : i.exec helpers before = some next) :
    ∃ after', runPartial (Ins.exec helpers) after [i.rename Reg.value] = some after' ∧
      Agrees next after' := by
  obtain ⟨value, computed, rfl⟩ := Option.map_eq_some_iff.mp stepped
  rw [← result_rename agrees] at computed
  have named : (i.rename Reg.value).dest = .value i.dest := by cases i <;> rfl
  refine ⟨_, ?_, agrees.update i.dest (some value)⟩
  rw [runPartial, List.foldlM_cons, Ins.exec, computed, named]
  rfl

theorem Agrees.temporaries (agrees : Agrees before after) (dest : ν) (x y z : Option Value) :
    Agrees before (Function.update (Function.update (Function.update after (.wideA dest) x)
      (.wideD dest) y) (.wide dest) z) := by
  intro name
  rw [Function.update_of_ne (by simp), Function.update_of_ne (by simp),
    Function.update_of_ne (by simp), agrees]

theorem exec_expanded (agrees : Agrees before after) {dest a d : ν} {op : Opcode} {width : Nat}
    {name : Libcall} (call : arithmeticLibcall op width = some name) {x y r : BitVec width}
    (first : before a = some ⟨width, x⟩) (second : before d = some ⟨width, y⟩)
    (defined : op.eval x y = some r) :
    ∃ after', runPartial (Ins.exec helpers) after (expand (.binary dest op width a d)) =
        some after' ∧ Agrees (Function.update before dest (some ⟨width, r⟩)) after' := by
  have lower := lowered_of_libcall helpers call defined
  rw [lowered, call, Option.map_some, Option.some.injEq] at lower
  have firstAfter : after (.value a) = some ⟨width, x⟩ := (agrees a).trans first
  have secondAfter : after (.value d) = some ⟨width, y⟩ := (agrees d).trans second
  -- The four instructions one after the other, with `lower` for the last value.
  let wideX := createIntCast x 128 (signedOperation op)
  let wideY := createIntCast y 128 (signedOperation op)
  refine ⟨_, ?_, (agrees.temporaries dest (some ⟨128, wideX⟩) (some ⟨128, wideY⟩)
    (some ⟨128, helpers.call name wideX wideY⟩)).update dest (some ⟨width, r⟩)⟩
  simp [expand, call, runPartial, Ins.exec, Ins.result, Ins.dest, firstAfter, secondAfter, lower,
    wideX, wideY]

theorem expand_simulates (i : Ins ν) {next : ν → Option Value} (agrees : Agrees before after)
    (stepped : i.exec helpers before = some next) :
    ∃ after', runPartial (Ins.exec helpers) after (expand i) = some after' ∧
      Agrees next after' := by
  cases i with
  | intCast dest value width isSigned => exact exec_rename agrees stepped
  | libcall dest name a d => exact exec_rename agrees stepped
  | binary dest op width a d =>
    cases call : arithmeticLibcall op width with
    | none =>
      have kept : expand (.binary dest op width a d) =
          [(Ins.binary dest op width a d).rename Reg.value] := by
        simp only [expand, call, Ins.rename]
      rw [kept]
      exact exec_rename agrees stepped
    | some name =>
      obtain ⟨value, computed, rfl⟩ := Option.map_eq_some_iff.mp stepped
      simp only [Ins.result, Option.bind_eq_bind, Option.bind_eq_some_iff, Option.pure_def,
        Option.some.injEq, Value.ofWidth_eq_some_iff] at computed
      obtain ⟨_, first, x, rfl, _, second, y, rfl, r, defined, rfl⟩ := computed
      exact exec_expanded agrees call first second defined

/-- The pass keeps the values of every program that is defined. -/
theorem expand_preserves (program : List (Ins ν)) {last : ν → Option Value}
    (agrees : Agrees before after)
    (ran : runPartial (Ins.exec helpers) before program = some last) :
    ∃ after', runPartial (Ins.exec helpers) after (program.flatMap expand) = some after' ∧
      Agrees last after' :=
  runPartial_simulates (fun _ _ i _ => expand_simulates i) program agrees ran

end Programs

/-- The smallest number of 65 bits and three, under the names 0 and 1. -/
def smallestAndThree : Nat → Option Value
  | 0 => some ⟨65, BitVec.intMin 65⟩
  | 1 => some ⟨65, 3⟩
  | _ => none

def Reg.original {ν : Type} (env : ν → Option Value) : Reg ν → Option Value
  | value name => env name
  | wideA _ | wideD _ | wide _ => none

/-- The division of the two, and the product of the quotient with the divisor. -/
theorem smallest_third_expanded : ∃ after,
    runPartial (Ins.exec exactHelpers) (Reg.original smallestAndThree)
      ([Ins.binary 2 .sdiv 65 0 1, Ins.binary 3 .mul 65 2 1].flatMap expand) = some after ∧
    after (.value 2) = some ⟨65, BitVec.ofInt 65 (-6148914691236517205)⟩ ∧
    after (.value 3) = some ⟨65, BitVec.ofInt 65 (-18446744073709551615)⟩ := by
  have named : Agrees smallestAndThree (Reg.original smallestAndThree) := fun _ => rfl
  have defined : runPartial (Ins.exec exactHelpers) smallestAndThree
      [Ins.binary 2 .sdiv 65 0 1, Ins.binary 3 .mul 65 2 1] = some _ := rfl
  obtain ⟨after, ran, agrees⟩ := expand_preserves _ named defined
  refine ⟨after, ran, ?_, ?_⟩
  · rw [agrees]
    decide +kernel
  · rw [agrees]
    decide +kernel

end LashOs.Compiler
