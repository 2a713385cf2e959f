import LashOs.Descriptors.Table
import LashOs.Guest.Memory

/-!
# Raw system calls

`service_raw` of `raw_host.h` forwards the declared Linux calls with the guest's arguments.
It checks every pointer before; what Linux then reads and writes is given by its ABI.
-/
namespace LashOs.Guest

open Base Descriptors

/-- `LINUX_BASH_SYSCALLS` -/
inductive RawCall where
  | clone | syslog | capget | capset | schedGetparam | schedSetscheduler | schedGetscheduler
  | pivotRoot | deleteModule | addKey | keyctl | ioprioSet | ioprioGet | prlimit64 | finitModule
  | schedSetattr | schedGetattr | seccomp | getrandom | pidfdSendSignal | pidfdOpen
  deriving DecidableEq, Repr

/-- `native_syscall_number` -/
def nativeSyscallNumber (wire : UInt64) : Option RawCall :=
  match wire.toNat with
  | 56 => some .clone
  | 103 => some .syslog
  | 125 => some .capget
  | 126 => some .capset
  | 143 => some .schedGetparam
  | 144 => some .schedSetscheduler
  | 145 => some .schedGetscheduler
  | 155 => some .pivotRoot
  | 176 => some .deleteModule
  | 248 => some .addKey
  | 250 => some .keyctl
  | 251 => some .ioprioSet
  | 252 => some .ioprioGet
  | 302 => some .prlimit64
  | 313 => some .finitModule
  | 314 => some .schedSetattr
  | 315 => some .schedGetattr
  | 317 => some .seccomp
  | 318 => some .getrandom
  | 424 => some .pidfdSendSignal
  | 434 => some .pidfdOpen
  | _ => none

abbrev Arguments : Type := Fin 6 → UInt64

def keyctlJoinSessionKeyring : UInt64 := 1

def keyctlRevoke : UInt64 := 3

def keyctlClear : UInt64 := 7

def keyctlSearch : UInt64 := 10

def keyctlRead : UInt64 := 11

def seccompSetModeFilter : UInt64 := 1

def checkIf (needed : Prop) [Decidable needed] (check : Except Errno Unit) : Except Errno Unit :=
  if needed then check else .ok ()

def Memory.checkString (g : Memory) (address : UInt64) : Except Errno Unit :=
  (g.string address).map fun _ => ()

/-- `struct sock_fprog`: the length, and the address of the instructions. -/
def Memory.fprogLen (g : Memory) (address : UInt64) : UInt64 := g.load address 2

def Memory.fprogFilter (g : Memory) (address : UInt64) : UInt64 := g.load (address + 8) 8

/-- The checks of one call, and its arguments with descriptors translated. -/
def checkCall (h : BridgeHost) (g : Memory) (v : Arguments) : RawCall → Except Errno Arguments
  | .getrandom => do
    checkIf (v 1 ≠ 0) (g.memory (v 0) (v 1))
    return v
  | .addKey => do
    g.checkString (v 0)
    g.checkString (v 1)
    checkIf (v 3 ≠ 0) (g.memory (v 2) (v 3))
    return v
  | .keyctl =>
    if v 0 = keyctlJoinSessionKeyring then do
      checkIf (v 1 ≠ 0) (g.checkString (v 1))
      return v
    else if v 0 = keyctlSearch then do
      g.checkString (v 2)
      g.checkString (v 3)
      return v
    else if v 0 = keyctlRead then do
      checkIf (v 3 ≠ 0) (g.memory (v 2) (v 3))
      return v
    else if v 0 = keyctlRevoke ∨ v 0 = keyctlClear then return v
    else .error .ENOTSUP
  | .seccomp =>
    if v 0 ≠ seccompSetModeFilter then .error .ENOTSUP
    else do
      g.memory (v 2) 16
      -- No error number is set for a program that is too long.
      checkIf (4096 < g.fprogLen (v 2)) (.error (.other 0))
      g.memory (g.fprogFilter (v 2)) (g.fprogLen (v 2) * 8)
      return v
  | .pidfdOpen => return v
  | .pidfdSendSignal => do
    let real ← h.fd (toInt (v 0))
    checkIf (v 2 ≠ 0) (.error .ENOTSUP)
    return Function.update v 0 (UInt64.ofNat real)
  | .capget | .capset => do
    g.memory (v 0) 8
    g.memory (v 1) 24
    return v
  | .schedGetscheduler | .ioprioGet | .ioprioSet => return v
  | .schedGetparam => do
    g.memory (v 1) 4
    return v
  | .schedSetscheduler => do
    g.memory (v 2) 4
    return v
  | .schedGetattr => do
    g.memory (v 1) (v 2)
    return v
  | .schedSetattr => do
    g.memory (v 1) 4
    g.memory (v 1) (g.load (v 1) 4)
    return v
  | .prlimit64 => do
    checkIf (v 2 ≠ 0) (g.memory (v 2) 16)
    checkIf (v 3 ≠ 0) (g.memory (v 3) 16)
    return v
  | .pivotRoot => do
    g.checkString (v 0)
    g.checkString (v 1)
    return v
  | .finitModule => do
    let real ← h.fd (toInt (v 0))
    g.checkString (v 1)
    return Function.update v 0 (UInt64.ofNat real)
  | .deleteModule => do
    g.checkString (v 0)
    return v
  | .syslog => do
    checkIf (v 1 ≠ 0 ∧ v 2 ≠ 0) (g.memory (v 1) (v 2))
    return v
  | .clone => .error .ENOTSUP

/-- `service_raw` for `PX_RAW_SYSCALL`, up to the call that it makes. -/
def serviceRaw (h : BridgeHost) (g : Memory) (request : UInt64) :
    Except Errno (RawCall × Arguments) := do
  g.memory request 56
  let word (i : Nat) : UInt64 := g.load (request + UInt64.ofNat (8 * i)) 8
  match nativeSyscallNumber (word 0) with
  | none => .error .ENOTSUP
  | some call =>
    let v ← checkCall h g (fun i => word (i.val + 1)) call
    return (call, v)

/-! ### What Linux reads and writes -/

/-- A string is read up to its NUL: a byte is read if none before it is zero. -/
def Memory.StringRange (g : Memory) (address : UInt64) (size : Nat) : Prop :=
  ∃ n, size = n + 1 ∧ ∀ i < n, g.byte (address + UInt64.ofNat i) ≠ 0

/-- The ranges that Linux may read or write for a call. Where a call does something that is
not declared, it may be any range. -/
inductive Touches (g : Memory) (v : Arguments) : RawCall → UInt64 → Nat → Prop
  | getrandom : Touches g v .getrandom (v 0) (v 1).toNat
  | addKeyType {n : Nat} : g.StringRange (v 0) n → Touches g v .addKey (v 0) n
  | addKeyDescription {n : Nat} : g.StringRange (v 1) n → Touches g v .addKey (v 1) n
  | addKeyPayload : Touches g v .addKey (v 2) (v 3).toNat
  | keyctlJoin {n : Nat} : (v 0).toUInt32 = 1 → v 1 ≠ 0 → g.StringRange (v 1) n →
      Touches g v .keyctl (v 1) n
  | keyctlSearchType {n : Nat} : (v 0).toUInt32 = 10 → g.StringRange (v 2) n →
      Touches g v .keyctl (v 2) n
  | keyctlSearchDescription {n : Nat} : (v 0).toUInt32 = 10 → g.StringRange (v 3) n →
      Touches g v .keyctl (v 3) n
  | keyctlRead : (v 0).toUInt32 = 11 → Touches g v .keyctl (v 2) (v 3).toNat
  | keyctlOther {address : UInt64} {n : Nat} : (v 0).toUInt32 ∉ [1, 3, 7, 10, 11] →
      Touches g v .keyctl address n
  | seccompProgram : (v 0).toUInt32 = 1 → Touches g v .seccomp (v 2) 16
  | seccompFilter : (v 0).toUInt32 = 1 →
      Touches g v .seccomp (g.fprogFilter (v 2)) ((g.fprogLen (v 2)).toNat * 8)
  | seccompOther {address : UInt64} {n : Nat} : (v 0).toUInt32 ≠ 1 →
      Touches g v .seccomp address n
  | pidfdSendSignal : v 2 ≠ 0 → Touches g v .pidfdSendSignal (v 2) 128
  | capgetHeader : Touches g v .capget (v 0) 8
  | capgetData : Touches g v .capget (v 1) 24
  | capsetHeader : Touches g v .capset (v 0) 8
  | capsetData : Touches g v .capset (v 1) 24
  | schedGetparam : Touches g v .schedGetparam (v 1) 4
  | schedSetscheduler : Touches g v .schedSetscheduler (v 2) 4
  | schedGetattr : Touches g v .schedGetattr (v 1) (v 2).toUInt32.toNat
  | schedSetattrSize : Touches g v .schedSetattr (v 1) 4
  -- A size of 0 stands for the first version of the structure.
  | schedSetattr : Touches g v .schedSetattr (v 1)
      (if g.load (v 1) 4 = 0 then 48 else (g.load (v 1) 4).toNat)
  | prlimit64New : v 2 ≠ 0 → Touches g v .prlimit64 (v 2) 16
  | prlimit64Old : v 3 ≠ 0 → Touches g v .prlimit64 (v 3) 16
  | pivotRootNew {n : Nat} : g.StringRange (v 0) n → Touches g v .pivotRoot (v 0) n
  | pivotRootOld {n : Nat} : g.StringRange (v 1) n → Touches g v .pivotRoot (v 1) n
  | finitModule {n : Nat} : g.StringRange (v 1) n → Touches g v .finitModule (v 1) n
  | deleteModule {n : Nat} : g.StringRange (v 0) n → Touches g v .deleteModule (v 0) n
  -- The length is an `int`.
  | syslog : v 1 ≠ 0 → 0 < toInt (v 2) → Touches g v .syslog (v 1) (toInt (v 2)).toNat
  | clone {address : UInt64} {n : Nat} : Touches g v .clone address n

/-! ### Checks that passed -/

variable {h : BridgeHost} {g : Memory} {v v' : Arguments} {call : RawCall} {address : UInt64}
  {n : Nat}

theorem bind_eq_ok {α β : Type} {x : Except Errno α} {f : α → Except Errno β} {b : β} :
    (x >>= f) = .ok b ↔ ∃ a, x = .ok a ∧ f a = .ok b := by
  cases x with
  | error e => simp [bind, Except.bind]
  | ok a => simp [bind, Except.bind]

theorem checkIf_eq_ok {needed : Prop} [Decidable needed] {check : Except Errno Unit} {u : Unit} :
    checkIf needed check = .ok u ↔ (needed → check = .ok ()) := by
  unfold checkIf
  split
  next holds => simp [holds]
  next fails => simp [fails]

theorem checkString_inside (checked : g.checkString address = .ok ())
    (range : g.StringRange address n) : g.Inside address n := by
  obtain ⟨text, found⟩ : ∃ text, g.string address = .ok text := by
    cases result : g.string address with
    | error e => simp [Memory.checkString, result, Except.map] at checked
    | ok text => exact ⟨text, rfl⟩
  obtain ⟨k, rfl, nonzero⟩ := range
  apply (string_inside found).mono
  by_contra longer
  exact nonzero text.length (by omega) (string_ends found)

theorem checkIf_inside {size : UInt64}
    (checked : size ≠ 0 → g.memory address size = .ok ()) :
    size.toNat = 0 ∨ g.Inside address size.toNat := by
  by_cases empty : size = 0
  · exact .inl (by simp [empty])
  · exact .inr (memory_inside (checked empty))

theorem checked_keyctl (checked : checkCall h g v .keyctl = .ok v')
    (touches : Touches g v' .keyctl address n) : n = 0 ∨ g.Inside address n := by
  simp only [checkCall] at checked
  -- Which option it is decides the check, and then only that option's ranges are left.
  split at checked
  next join =>
    simp only [bind_eq_ok, checkIf_eq_ok] at checked
    obtain ⟨_, name, ⟨⟩⟩ := checked
    cases touches with
    | keyctlJoin _ there range => exact .inr (checkString_inside (name there) range)
    | keyctlSearchType other | keyctlSearchDescription other | keyctlRead other
    | keyctlOther other => exact absurd other (by rw [join]; decide)
  split at checked
  next search =>
    simp only [bind_eq_ok] at checked
    obtain ⟨_, type, _, description, ⟨⟩⟩ := checked
    cases touches with
    | keyctlSearchType _ range => exact .inr (checkString_inside type range)
    | keyctlSearchDescription _ range => exact .inr (checkString_inside description range)
    | keyctlJoin other | keyctlRead other | keyctlOther other =>
      exact absurd other (by rw [search]; decide)
  split at checked
  next read =>
    simp only [bind_eq_ok, checkIf_eq_ok] at checked
    obtain ⟨_, buffer, ⟨⟩⟩ := checked
    cases touches with
    | keyctlRead _ => exact checkIf_inside buffer
    | keyctlJoin other | keyctlSearchType other | keyctlSearchDescription other
    | keyctlOther other => exact absurd other (by rw [read]; decide)
  split at checked
  next plain =>
    cases checked
    have known : (v 0).toUInt32 = 3 ∨ (v 0).toUInt32 = 7 := by
      rcases plain with revoke | clear
      · exact .inl (by rw [revoke]; decide)
      · exact .inr (by rw [clear]; decide)
    cases touches with
    | keyctlJoin other | keyctlSearchType other | keyctlSearchDescription other
    | keyctlRead other | keyctlOther other =>
      rcases known with known | known <;> exact absurd other (by rw [known]; decide)
  · cases checked

/-- Every range that is touched was checked, but for a structure whose size is left out. -/
theorem checked_inside (checked : checkCall h g v call = .ok v')
    (touches : Touches g v' call address n)
    (sized : call = .schedSetattr → g.load (v' 1) 4 = 0 → g.Inside (v' 1) 48) :
    n = 0 ∨ g.Inside address n := by
  cases call with
  | clone => cases checked
  | syslog =>
    simp only [checkCall, bind_eq_ok, checkIf_eq_ok] at checked
    obtain ⟨_, buffer, ⟨⟩⟩ := checked
    cases touches with
    | syslog there positive =>
      -- The length as an `int` is not more than the whole argument.
      have length : (toInt (v 2)).toNat ≤ (v 2).toNat := by
        unfold toInt at positive ⊢
        split at positive <;> omega
      have some_ : v 2 ≠ 0 := by
        intro zero
        rw [zero] at positive
        exact absurd positive (by decide)
      exact .inr ((memory_inside (buffer ⟨there, some_⟩)).mono length)
  | capget | capset =>
    simp only [checkCall, bind_eq_ok] at checked
    obtain ⟨_, header, _, data, ⟨⟩⟩ := checked
    cases touches
    · exact .inr (memory_inside header)
    · exact .inr (memory_inside data)
  | schedGetparam =>
    simp only [checkCall, bind_eq_ok] at checked
    obtain ⟨_, parameter, ⟨⟩⟩ := checked
    cases touches
    exact .inr (memory_inside parameter)
  | schedSetscheduler =>
    simp only [checkCall, bind_eq_ok] at checked
    obtain ⟨_, parameter, ⟨⟩⟩ := checked
    cases touches
    exact .inr (memory_inside parameter)
  | schedGetscheduler => cases touches
  | pivotRoot =>
    simp only [checkCall, bind_eq_ok] at checked
    obtain ⟨_, new, _, old, ⟨⟩⟩ := checked
    cases touches with
    | pivotRootNew range => exact .inr (checkString_inside new range)
    | pivotRootOld range => exact .inr (checkString_inside old range)
  | deleteModule =>
    simp only [checkCall, bind_eq_ok] at checked
    obtain ⟨_, name, ⟨⟩⟩ := checked
    cases touches with
    | deleteModule range => exact .inr (checkString_inside name range)
  | addKey =>
    simp only [checkCall, bind_eq_ok, checkIf_eq_ok] at checked
    obtain ⟨_, type, _, description, _, payload, ⟨⟩⟩ := checked
    cases touches with
    | addKeyType range => exact .inr (checkString_inside type range)
    | addKeyDescription range => exact .inr (checkString_inside description range)
    | addKeyPayload => exact checkIf_inside payload
  | keyctl => exact checked_keyctl checked touches
  | ioprioSet => cases touches
  | ioprioGet => cases touches
  | prlimit64 =>
    simp only [checkCall, bind_eq_ok, checkIf_eq_ok] at checked
    obtain ⟨_, new, _, old, ⟨⟩⟩ := checked
    cases touches with
    | prlimit64New there => exact .inr (memory_inside (new there))
    | prlimit64Old there => exact .inr (memory_inside (old there))
  | finitModule =>
    simp only [checkCall, bind_eq_ok] at checked
    obtain ⟨_, _, _, parameters, ⟨⟩⟩ := checked
    cases touches with
    | finitModule range => exact .inr (checkString_inside parameters range)
  | schedSetattr =>
    simp only [checkCall, bind_eq_ok] at checked
    obtain ⟨_, size, _, whole, ⟨⟩⟩ := checked
    cases touches with
    | schedSetattrSize => exact .inr (memory_inside size)
    | schedSetattr =>
      split
      next leftOut => exact .inr (sized rfl leftOut)
      · exact .inr (memory_inside whole)
  | schedGetattr =>
    simp only [checkCall, bind_eq_ok] at checked
    obtain ⟨_, attributes, ⟨⟩⟩ := checked
    cases touches with
    | schedGetattr =>
      refine .inr ((memory_inside attributes).mono ?_)
      rw [UInt64.toNat_toUInt32]
      exact Nat.mod_le _ _
  | seccomp =>
    simp only [checkCall] at checked
    split at checked
    · cases checked
    next filter =>
      simp only [bind_eq_ok, checkIf_eq_ok] at checked
      obtain ⟨_, program, _, short, _, instructions, ⟨⟩⟩ := checked
      have mode : v 0 = seccompSetModeFilter := by simpa using filter
      cases touches with
      | seccompProgram _ => exact .inr (memory_inside program)
      | seccompFilter _ =>
        have few : (g.fprogLen (v 2)).toNat ≤ 4096 := by
          by_contra long
          have impossible := short (UInt64.lt_iff_toNat_lt.mpr (by simpa using long))
          cases impossible
        have inside := memory_inside instructions
        rw [UInt64.toNat_mul] at inside
        refine .inr (inside.mono ?_)
        simp only [UInt64.reduceToNat]
        omega
      | seccompOther other =>
        rw [mode] at other
        exact absurd rfl other
  | getrandom =>
    simp only [checkCall, bind_eq_ok, checkIf_eq_ok] at checked
    obtain ⟨_, buffer, ⟨⟩⟩ := checked
    cases touches
    exact checkIf_inside buffer
  | pidfdSendSignal =>
    simp only [checkCall, bind_eq_ok, checkIf_eq_ok] at checked
    obtain ⟨real, _, _, noInfo, ⟨⟩⟩ := checked
    cases touches with
    | pidfdSendSignal info =>
      have impossible := noInfo (by simpa using info)
      cases impossible
  | pidfdOpen => cases touches

theorem serviceRaw_eq_ok {request : UInt64} (served : serviceRaw h g request = .ok (call, v')) :
    ∃ v, checkCall h g v call = .ok v' := by
  unfold serviceRaw at served
  simp only [bind_eq_ok] at served
  obtain ⟨_, _, served⟩ := served
  split at served
  · cases served
  · obtain ⟨_, checked, ⟨⟩⟩ := bind_eq_ok.mp served
    exact ⟨_, checked⟩

/-- A call that is forwarded touches only guest memory, exactly if it is not a
`sched_setattr` whose size is left out at the end of a region. -/
theorem forwarded_touches_guest_iff (h : BridgeHost) (g : Memory) (request : UInt64)
    (call : RawCall) (v : Arguments) (forwarded : serviceRaw h g request = .ok (call, v)) :
    (∀ address n, Touches g v call address n → n = 0 ∨ g.Inside address n) ↔
      ¬ (call = .schedSetattr ∧ g.load (v 1) 4 = 0 ∧ ¬ g.Inside (v 1) 48) := by
  obtain ⟨_, checked⟩ := serviceRaw_eq_ok forwarded
  constructor
  · rintro safe ⟨rfl, leftOut, outside⟩
    have whole := Touches.schedSetattr (g := g) (v := v)
    rw [if_pos leftOut] at whole
    rcases safe _ _ whole with empty | inside
    · cases empty
    · exact outside inside
  · intro sized address n touches
    apply checked_inside checked touches
    intro same leftOut
    by_contra outside
    exact sized ⟨same, leftOut, outside⟩

/-- Two pages whose second one is the guest's. At its beginning there is the request
`sched_setattr(0, attributes, 0)`, and the rest is zero. -/
def requestMemory (attributes : UInt64) : Memory where
  start := 0x10000
  total := 0x2000
  image := 0
  imageSize := 0
  byte address :=
    let i := (address - 0x11000).toNat
    if i < 2 then (leBytes 2 314).getD i 0
    else if 16 ≤ i ∧ i < 24 then (leBytes 8 attributes.toNat).getD (i - 16) 0
    else 0
  fits := by decide
  imageFits := noImage_fits
  guardFits := low_guardFits

def idleHost : BridgeHost where
  fds _ := -1
  dirs _ := none
  dirFds _ := 0
  native := ⟨fun _ => none, 0, fun _ _ => rfl⟩
  locks := []

/-- The call that is forwarded and its second argument. -/
def forwardedCall (g : Memory) : Option (RawCall × UInt64) :=
  match serviceRaw idleHost g 0x11000 with
  | .ok (call, v) => some (call, v 1)
  | .error _ => none

theorem serviceRaw_of_forwardedCall {g : Memory} {second : UInt64}
    (same : forwardedCall g = some (call, second)) :
    ∃ v, serviceRaw idleHost g 0x11000 = .ok (call, v) ∧ v 1 = second := by
  unfold forwardedCall at same
  split at same
  next found =>
    cases same
    exact ⟨_, found, rfl⟩
  · cases same

/-- Attributes in the middle of the page. -/
theorem roomyAttributes_touch_guest :
    ∃ v, serviceRaw idleHost (requestMemory 0x11800) 0x11000 = .ok (.schedSetattr, v) ∧
      ∀ address n, Touches (requestMemory 0x11800) v .schedSetattr address n →
        n = 0 ∨ (requestMemory 0x11800).Inside address n := by
  obtain ⟨v, forwarded, second⟩ := serviceRaw_of_forwardedCall
    (by decide +kernel : forwardedCall (requestMemory 0x11800) = some (.schedSetattr, 0x11800))
  refine ⟨v, forwarded, (forwarded_touches_guest_iff _ _ _ _ v forwarded).mpr ?_⟩
  rintro ⟨-, -, outside⟩
  rw [second] at outside
  exact outside (.inl (by decide))

/-- Attributes of which only the size is guest memory: Linux reads 44 bytes more. -/
theorem lastAttributes_leave_guest :
    ∃ v address n, serviceRaw idleHost (requestMemory 0x11ffc) 0x11000 = .ok (.schedSetattr, v) ∧
      Touches (requestMemory 0x11ffc) v .schedSetattr address n ∧ n ≠ 0 ∧
      ¬ (requestMemory 0x11ffc).Inside address n := by
  obtain ⟨v, forwarded, second⟩ := serviceRaw_of_forwardedCall
    (by decide +kernel : forwardedCall (requestMemory 0x11ffc) = some (.schedSetattr, 0x11ffc))
  have leftOut : (requestMemory 0x11ffc).load (v 1) 4 = 0 := by
    rw [second]
    decide +kernel
  have touches := Touches.schedSetattr (g := requestMemory 0x11ffc) (v := v)
  rw [if_pos leftOut] at touches
  refine ⟨v, v 1, 48, forwarded, touches, by decide, ?_⟩
  rw [second]
  rintro (⟨-, past⟩ | ⟨present, -⟩)
  · exact absurd past (by decide)
  · exact absurd rfl present

end LashOs.Guest
