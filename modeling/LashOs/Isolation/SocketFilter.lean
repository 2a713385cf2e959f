import LashOs.Base.Bytes
import LashOs.Base.ClassicBpf

/-!
# The socket policy of QEMU

`socket_filter` of `sandbox_host.c` writes a classic BPF program that decides about every
system call of QEMU. Its offsets shift with the check of the x32 calls, which only one of the
three platforms has.
-/
namespace LashOs.Isolation

open Base Bpf

/-! ### System calls as the filter sees them -/

/-- `struct seccomp_data` -/
structure SeccompData where
  nr : UInt32
  arch : UInt32
  instructionPointer : UInt64
  args : Fin 6 → UInt64

local instance sixArguments : NeZero 6 := ⟨by decide⟩

/-- The structure in memory, in the byte order of the three platforms. -/
def SeccompData.encode (d : SeccompData) : List UInt8 :=
  leBytes 4 d.nr.toNat ++ (leBytes 4 d.arch.toNat ++ (leBytes 8 d.instructionPointer.toNat ++
    (leBytes 8 (d.args 0).toNat ++ (leBytes 8 (d.args 1).toNat ++ (leBytes 8 (d.args 2).toNat ++
    (leBytes 8 (d.args 3).toNat ++ (leBytes 8 (d.args 4).toNat ++
    leBytes 8 (d.args 5).toNat)))))))

/-- A load of the filter. The kernel refuses one that is not aligned or not inside. -/
def SeccompData.load (d : SeccompData) (k : UInt32) : Option UInt32 :=
  if k.toNat % 4 = 0 ∧ k.toNat < 64 then
    some (UInt32.ofNat (leValue (slice d.encode k.toNat 4)))
  else none

inductive Verdict where
  | allow
  | errno (code : Nat)
  -- Any other action of the kernel.
  | other
  deriving DecidableEq, Repr

/-- `SECCOMP_RET_ALLOW` -/
def retAllow : UInt32 := 0x7fff0000

/-- `SECCOMP_RET_ERRNO | (error & SECCOMP_RET_DATA)` -/
def retErrno (error : UInt32) : UInt32 := 0x00050000 ||| (error &&& 0xffff)

/-- What the kernel does with the word that a filter returns. -/
def verdict (word : UInt32) : Verdict :=
  if word &&& 0xffff0000 = retAllow then .allow
  else if word &&& 0xffff0000 = 0x00050000 then .errno (word &&& 0xffff).toNat
  else .other

def ENOSYS : UInt32 := 38

def ESOCKTNOSUPPORT : UInt32 := 94

def EAFNOSUPPORT : UInt32 := 97

/-! ### The program -/

/-- What differs between the platforms: `SB_AUDIT_ARCH`, the numbers of the calls, and
whether the second table of calls exists. -/
structure Platform where
  auditArch : UInt32
  nrIoUringSetup : UInt32
  nrSocket : UInt32
  nrSocketpair : UInt32
  x32 : Bool

def x8664 : Platform := ⟨0xc000003e, 425, 41, 53, true⟩

def aarch64 : Platform := ⟨0xc00000b7, 425, 198, 199, false⟩

def riscv64 : Platform := ⟨0xc00000f3, 425, 198, 199, false⟩

def afUnix : UInt32 := 1

def afInet : UInt32 := 2

def afInet6 : UInt32 := 10

def sockStream : UInt32 := 1

def sockSeqpacket : UInt32 := 5

/-- `SOCK_CLOEXEC | SOCK_NONBLOCK` -/
def sockFlags : UInt32 := 0o2000000 ||| 0o4000

/-- `SB_DENY` -/
def deny (error : UInt32) : SockFilter := stmt retK (retErrno error)

/-- The part for `socket`. The kernel truncates the family, so the low word is compared. -/
def socketPart (network : Bool) : List SockFilter :=
  [ stmt ldAbs 16,
    jump jmpJeq afInet 2 0,
    jump jmpJeq afInet6 1 0,
    deny EAFNOSUPPORT,
    if network then stmt retK retAllow else deny EAFNOSUPPORT ]

/-- The part for `socketpair`. -/
def socketpairPart : List SockFilter :=
  [ stmt ldAbs 16,
    jump jmpJeq afUnix 1 0,
    deny EAFNOSUPPORT,
    stmt ldAbs 24,
    stmt aluAnd (~~~sockFlags),
    jump jmpJeq sockStream 1 0,
    jump jmpJeq sockSeqpacket 0 1,
    stmt retK retAllow,
    deny ESOCKTNOSUPPORT ]

def callFilter (p : Platform) (network : Bool) : List SockFilter :=
  [ jump jmpJeq p.nrIoUringSetup 0 1,
    deny ENOSYS,
    jump jmpJeq p.nrSocket 2 0,
    jump jmpJeq p.nrSocketpair 6 0,
    stmt retK retAllow ] ++ (socketPart network ++ socketpairPart)

def socketFilter (p : Platform) (network : Bool) : List SockFilter :=
  [ stmt ldAbs 4,
    jump jmpJeq p.auditArch 1 0,
    deny ENOSYS,
    stmt ldAbs 0 ] ++
  ((if p.x32 then [jump jmpJge 0x40000000 0 1, deny ENOSYS] else []) ++ callFilter p network)

/-! ### The policy -/

/-- The low half of an argument, which is what the kernel makes of an `int`. -/
def SeccompData.low (d : SeccompData) (i : Fin 6) : UInt32 := (d.args i).toUInt32

def socketPolicy (network : Bool) (d : SeccompData) : Verdict :=
  if network = true ∧ (d.low 0 = afInet ∨ d.low 0 = afInet6) then .allow
  else .errno EAFNOSUPPORT.toNat

def socketpairPolicy (d : SeccompData) : Verdict :=
  if d.low 0 ≠ afUnix then .errno EAFNOSUPPORT.toNat
  else if d.low 1 &&& ~~~sockFlags = sockStream ∨ d.low 1 &&& ~~~sockFlags = sockSeqpacket then
    .allow
  else .errno ESOCKTNOSUPPORT.toNat

def policy (p : Platform) (network : Bool) (d : SeccompData) : Verdict :=
  if d.arch ≠ p.auditArch ∨ (p.x32 = true ∧ 0x40000000 ≤ d.nr) ∨ d.nr = p.nrIoUringSetup then
    .errno ENOSYS.toNat
  else if d.nr = p.nrSocket then socketPolicy network d
  else if d.nr = p.nrSocketpair then socketpairPolicy d
  else .allow

/-! ### What the loads find -/

theorem load_nr (d : SeccompData) : d.load 0 = some d.nr := by
  have word : slice d.encode 0 4 = leBytes 4 d.nr.toNat :=
    slice_front _ _ 4 (length_leBytes 4 _)
  have small := d.nr.toNat_lt
  simp [SeccompData.load, word, leValue_leBytes 4 _ small]

theorem load_arch (d : SeccompData) : d.load 4 = some d.arch := by
  have word : slice d.encode 4 4 = leBytes 4 d.arch.toNat := by
    rw [SeccompData.encode, slice_behind _ _ 4 4 (by simp), length_leBytes, Nat.sub_self,
      slice_front _ _ 4 (length_leBytes 4 _)]
  have small := d.arch.toNat_lt
  simp [SeccompData.load, word, leValue_leBytes 4 _ small]

theorem load_low {d : SeccompData} {i : Fin 6} {k : UInt32} {after : List UInt8}
    (valid : k.toNat % 4 = 0 ∧ k.toNat < 64)
    (at_ : slice d.encode k.toNat 4 = slice (leBytes 8 (d.args i).toNat ++ after) 0 4) :
    d.load k = some (d.low i) := by
  have halves : leBytes 8 (d.args i).toNat =
      leBytes 4 (d.args i).toNat ++ leBytes 4 ((d.args i).toNat / 256 ^ 4) := leBytes_add 4 4 _
  have word : slice d.encode k.toNat 4 = leBytes 4 (d.args i).toNat := by
    rw [at_, halves, List.append_assoc, slice_front _ _ 4 (length_leBytes 4 _)]
  rw [SeccompData.load, if_pos valid, word, leValue_leBytes_mod]
  congr 1
  apply UInt32.toNat_inj.mp
  simp [SeccompData.low]

theorem load_first (d : SeccompData) : d.load 16 = some (d.low 0) := by
  apply load_low (by decide)
  change slice d.encode 16 4 = _
  simp (disch := simp) only [SeccompData.encode, slice_behind, length_leBytes, Nat.reduceSub]
  rfl

theorem load_second (d : SeccompData) : d.load 24 = some (d.low 1) := by
  apply load_low (by decide)
  change slice d.encode 24 4 = _
  simp (disch := simp) only [SeccompData.encode, slice_behind, length_leBytes, Nat.reduceSub]
  rfl

/-! ### The verdict -/

theorem verdict_allow : verdict retAllow = .allow := by decide

theorem verdict_enosys : verdict (retErrno ENOSYS) = .errno ENOSYS.toNat := by decide

theorem verdict_eafnosupport : verdict (retErrno EAFNOSUPPORT) = .errno EAFNOSUPPORT.toNat := by
  decide

theorem verdict_esocktnosupport :
    verdict (retErrno ESOCKTNOSUPPORT) = .errno ESOCKTNOSUPPORT.toNat := by decide

section

variable (p : Platform) (network : Bool) (d : SeccompData) (a : UInt32) (rest : List SockFilter)

theorem socketPart_verdict :
    (exec d.load (socketPart network ++ rest) a).map verdict = some (socketPolicy network d) := by
  simp only [socketPart, deny, List.cons_append, exec_ldAbs _ _ _ _ (load_first d), exec_jmpJeq,
    UInt8.reduceToNat, List.drop_succ_cons, List.drop_zero, exec_retK]
  cases network with
  | true =>
    by_cases inet : d.low 0 = afInet
    · simp [inet, socketPolicy, exec_retK, verdict_allow]
    · by_cases inet6 : d.low 0 = afInet6
      · simp [inet6, socketPolicy, exec_retK, verdict_allow]
      · simp [inet, inet6, socketPolicy, verdict_eafnosupport]
  | false => simp [socketPolicy, exec_retK, verdict_eafnosupport]

theorem socketpairPart_verdict :
    (exec d.load socketpairPart a).map verdict = some (socketpairPolicy d) := by
  simp only [socketpairPart, deny, exec_ldAbs _ _ _ _ (load_first d),
    exec_ldAbs _ _ _ _ (load_second d), exec_aluAnd, exec_jmpJeq, UInt8.reduceToNat,
    List.drop_succ_cons, List.drop_zero, exec_retK]
  by_cases unix : d.low 0 = afUnix
  · by_cases stream : d.low 1 &&& ~~~sockFlags = sockStream
    · simp [unix, stream, socketpairPolicy, verdict_allow]
    · by_cases packets : d.low 1 &&& ~~~sockFlags = sockSeqpacket
      · simp [unix, packets, socketpairPolicy, verdict_allow]
      · simp [unix, stream, packets, socketpairPolicy, verdict_esocktnosupport]
  · simp [unix, socketpairPolicy, verdict_eafnosupport]

theorem callFilter_verdict :
    (exec d.load (callFilter p network) d.nr).map verdict =
      some (if d.nr = p.nrIoUringSetup then .errno ENOSYS.toNat
        else if d.nr = p.nrSocket then socketPolicy network d
        else if d.nr = p.nrSocketpair then socketpairPolicy d
        else .allow) := by
  -- The jump to the pairs leads beyond one return and the part for `socket`.
  have beyond : (socketPart network ++ socketpairPart).drop 5 = socketpairPart := rfl
  simp only [callFilter, deny, List.cons_append, List.nil_append, exec_jmpJeq, UInt8.reduceToNat,
    List.drop_succ_cons, List.drop_zero, exec_retK, beyond]
  by_cases ring : d.nr = p.nrIoUringSetup
  · simp [ring, verdict_enosys]
  · by_cases socket : d.nr = p.nrSocket
    · rw [if_neg ring, if_neg ring, if_pos socket, if_pos socket]
      exact socketPart_verdict network d _ _
    · by_cases pair : d.nr = p.nrSocketpair
      · rw [if_neg ring, if_neg ring, if_neg socket, if_neg socket, if_pos pair, if_pos pair]
        exact socketpairPart_verdict d _
      · simp [ring, socket, pair, verdict_allow]

end

/-- The program always reaches a return instruction, on every platform, and what it returns
is the policy. -/
theorem socketFilter_decides_policy (p : Platform) (network : Bool) (d : SeccompData) :
    (exec d.load (socketFilter p network) 0).map verdict = some (policy p network d) := by
  simp only [socketFilter, deny, List.cons_append, List.nil_append,
    exec_ldAbs _ _ _ _ (load_arch d), exec_ldAbs _ _ _ _ (load_nr d), exec_jmpJeq,
    UInt8.reduceToNat, List.drop_succ_cons, List.drop_zero, exec_retK]
  by_cases native : d.arch = p.auditArch
  · cases x32 : p.x32 with
    | false =>
      simp only [native, if_true, Bool.false_eq_true, if_false, List.nil_append]
      rw [callFilter_verdict]
      simp [policy, native, x32]
    | true =>
      simp only [native, if_true, List.cons_append, List.nil_append, exec_jmpJge,
        UInt8.reduceToNat, List.drop_succ_cons, List.drop_zero, exec_retK]
      by_cases high : 0x40000000 ≤ d.nr
      · simp [policy, native, x32, high, verdict_enosys]
      · rw [if_neg high, callFilter_verdict]
        simp [policy, native, x32, high]
  · simp [policy, native, verdict_enosys]

-- `SB_FILTER_MAX`
example : ∀ p ∈ [x8664, aarch64, riscv64], ∀ network, (socketFilter p network).length ≤ 32 := by
  decide

end LashOs.Isolation
