import Mathlib.Data.List.Basic

/-!
# Classic BPF

Programs of `struct sock_filter` with an accumulator of 32 bits, as far as filters without
the index register and the scratch memory go. Jumps are relative to the next instruction and
only lead forward, so a program is run on what is left of it. What a load finds is a
parameter. A run that leaves the program, or meets an instruction or a load that is not
valid, has no result.
-/
namespace Base

structure SockFilter where
  code : UInt16
  jt : UInt8
  jf : UInt8
  k : UInt32
  deriving DecidableEq, Repr

namespace Bpf

/-- `BPF_STMT` -/
def stmt (code : UInt16) (k : UInt32) : SockFilter := ⟨code, 0, 0, k⟩

/-- `BPF_JUMP` -/
def jump (code : UInt16) (k : UInt32) (jt jf : UInt8) : SockFilter := ⟨code, jt, jf, k⟩

/-- `BPF_LD | BPF_W | BPF_ABS` -/
def ldAbs : UInt16 := 0x00 ||| 0x00 ||| 0x20

/-- `BPF_ALU | BPF_AND | BPF_K` -/
def aluAnd : UInt16 := 0x04 ||| 0x50 ||| 0x00

/-- `BPF_JMP | BPF_JA` -/
def jmpJa : UInt16 := 0x05 ||| 0x00

/-- `BPF_JMP | BPF_JEQ | BPF_K` -/
def jmpJeq : UInt16 := 0x05 ||| 0x10 ||| 0x00

/-- `BPF_JMP | BPF_JGE | BPF_K` -/
def jmpJge : UInt16 := 0x05 ||| 0x30 ||| 0x00

/-- `BPF_RET | BPF_K` -/
def retK : UInt16 := 0x06 ||| 0x00

inductive Instruction where
  | load (k : UInt32)
  | and (k : UInt32)
  | skip (count : Nat)
  | equal (k : UInt32) (jt jf : Nat)
  | atLeast (k : UInt32) (jt jf : Nat)
  | ret (k : UInt32)
  deriving DecidableEq, Repr

def decode (i : SockFilter) : Option Instruction :=
  if i.code = ldAbs then some (.load i.k)
  else if i.code = aluAnd then some (.and i.k)
  else if i.code = jmpJa then some (.skip i.k.toNat)
  else if i.code = jmpJeq then some (.equal i.k i.jt.toNat i.jf.toNat)
  else if i.code = jmpJge then some (.atLeast i.k i.jt.toNat i.jf.toNat)
  else if i.code = retK then some (.ret i.k)
  else none

/-- The word that the program returns. -/
def exec (load : UInt32 → Option UInt32) (program : List SockFilter) (a : UInt32) :
    Option UInt32 :=
  match program with
  | [] => none
  | i :: rest =>
    match decode i with
    | none => none
    | some (.load k) =>
      match load k with
      | none => none
      | some word => exec load rest word
    | some (.and k) => exec load rest (a &&& k)
    | some (.skip count) => exec load (rest.drop count) a
    | some (.equal k jt jf) => exec load (rest.drop (if a = k then jt else jf)) a
    | some (.atLeast k jt jf) => exec load (rest.drop (if k ≤ a then jt else jf)) a
    | some (.ret k) => some k
termination_by program.length
decreasing_by all_goals (simp only [List.length_drop, List.length_cons]; omega)

/-! ### One instruction at a time -/

section

variable (load : UInt32 → Option UInt32) (rest : List SockFilter) (a k : UInt32) (jt jf : UInt8)

@[simp] theorem decode_ldAbs : decode (stmt ldAbs k) = some (.load k) := rfl

@[simp] theorem decode_aluAnd : decode (stmt aluAnd k) = some (.and k) := rfl

@[simp] theorem decode_jmpJeq :
    decode (jump jmpJeq k jt jf) = some (.equal k jt.toNat jf.toNat) := rfl

@[simp] theorem decode_jmpJge :
    decode (jump jmpJge k jt jf) = some (.atLeast k jt.toNat jf.toNat) := rfl

@[simp] theorem decode_retK : decode (stmt retK k) = some (.ret k) := rfl

theorem exec_ldAbs {word : UInt32} (found : load k = some word) :
    exec load (stmt ldAbs k :: rest) a = exec load rest word := by
  rw [exec]
  simp [found]

theorem exec_aluAnd : exec load (stmt aluAnd k :: rest) a = exec load rest (a &&& k) := by
  rw [exec]
  simp

theorem exec_jmpJeq :
    exec load (jump jmpJeq k jt jf :: rest) a =
      if a = k then exec load (rest.drop jt.toNat) a else exec load (rest.drop jf.toNat) a := by
  rw [exec]
  by_cases holds : a = k
  · simp [holds]
  · simp [holds]

theorem exec_jmpJge :
    exec load (jump jmpJge k jt jf :: rest) a =
      if k ≤ a then exec load (rest.drop jt.toNat) a else exec load (rest.drop jf.toNat) a := by
  rw [exec]
  by_cases holds : k ≤ a
  · simp [holds]
  · simp [holds]

theorem exec_retK : exec load (stmt retK k :: rest) a = some k := by
  rw [exec]
  simp

end

end Bpf

end Base
