import LashOs.Base.Declarations
import LashOs.Paths.Translation
import LashOs.Posix.Functions

/-!
# Generated adapters

`generate-posix.py` writes a wrapper for the guest and a case of `service_posix` for the loader from
each entry of its table. Both are here as the statements that are written, with their meaning in C.

The wrapper leaves an operation number and six words in the guest's memory. The case declares the
scalars first, since the sizes of buffers refer to them by name, then every other parameter, and
calls the function of the C library with the names in the order of the table.
-/
namespace LashOs.Posix

open Base Descriptors Guest Paths

/-! ### Flags and clocks -/

/-- `O_*`, by name: the two sides have different numbers for them. -/
structure OpenFlags where
  access : Fin 4
  create : Bool
  truncate : Bool
  append : Bool
  exclusive : Bool
  nonblock : Bool
  cloexec : Bool
  nofollow : Bool
  directory : Bool
  noctty : Bool
  deriving DecidableEq, Repr

/-- `pack_flags` of the guest, with the numbers of `enum bridge_open_flag`. -/
def packFlags (f : OpenFlags) : Nat :=
  f.access.val ||| (if f.create then 4 else 0) ||| (if f.truncate then 8 else 0) |||
    (if f.append then 16 else 0) ||| (if f.exclusive then 32 else 0) |||
    (if f.nonblock then 64 else 0) ||| (if f.cloexec then 128 else 0) |||
    (if f.nofollow then 256 else 0) ||| (if f.directory then 512 else 0) |||
    (if f.noctty then 1024 else 0)

theorem access_lt (bits : Nat) : bits &&& 3 < 4 :=
  Nat.lt_of_le_of_lt Nat.and_le_right (by decide)

/-- `open_flags` -/
def openFlags (bits : Nat) : OpenFlags where
  access := ⟨bits &&& 3, access_lt bits⟩
  create := bits &&& 4 != 0
  truncate := bits &&& 8 != 0
  append := bits &&& 16 != 0
  exclusive := bits &&& 32 != 0
  nonblock := bits &&& 64 != 0
  cloexec := bits &&& 128 != 0
  nofollow := bits &&& 256 != 0
  directory := bits &&& 512 != 0
  noctty := bits &&& 1024 != 0

theorem openFlags_packFlags (f : OpenFlags) : openFlags (packFlags f) = f := by
  obtain ⟨access, create, truncate, append, exclusive, nonblock, cloexec, nofollow, directory,
    noctty⟩ := f
  have bit (c : Bool) (m n : Nat) : (if c then m else 0) &&& n = if c then m &&& n else 0 := by
    cases c <;> simp
  have seen (c : Bool) (m : Nat) : ((if c then m + 1 else 0) != 0) = c := by cases c <;> simp
  have own : access.val &&& 3 = access.val := by
    revert access
    decide
  have other : access.val &&& 4 = 0 ∧ access.val &&& 8 = 0 ∧ access.val &&& 16 = 0 ∧
      access.val &&& 32 = 0 ∧ access.val &&& 64 = 0 ∧ access.val &&& 128 = 0 ∧
      access.val &&& 256 = 0 ∧ access.val &&& 512 = 0 ∧ access.val &&& 1024 = 0 := by
    revert access
    decide
  -- Each mask meets one term of the packed flags.
  simp only [openFlags, packFlags, Nat.and_or_distrib_right, bit, own, other]
  simp only [OpenFlags.mk.injEq, Nat.reduceAnd, ite_self, Nat.or_zero, Nat.zero_or, true_and]
  exact ⟨seen create 3, seen truncate 7, seen append 15, seen exclusive 31, seen nonblock 63,
    seen cloexec 127, seen nofollow 255, seen directory 511, seen noctty 1023⟩

theorem packFlags_lt (f : OpenFlags) : packFlags f < 2 ^ 64 := by
  have small (c : Bool) {m : Nat} (below : m < 2 ^ 64) : (if c then m else 0) < 2 ^ 64 := by
    split <;> omega
  have access : f.access.val < 2 ^ 64 := by omega
  unfold packFlags
  refine Nat.or_lt_two_pow (Nat.or_lt_two_pow (Nat.or_lt_two_pow (Nat.or_lt_two_pow
    (Nat.or_lt_two_pow (Nat.or_lt_two_pow (Nat.or_lt_two_pow (Nat.or_lt_two_pow
      (Nat.or_lt_two_pow access ?_) ?_) ?_) ?_) ?_) ?_) ?_) ?_) ?_ <;>
  exact small _ (by decide)

/-- `AT_SYMLINK_NOFOLLOW` -/
def atNofollow : Nat := 0x100

/-- `AT_SYMLINK_FOLLOW` -/
def atFollow : Nat := 0x400

/-- `at_flags`: the guest's bits as the numbers of Linux, where `AT_EACCESS` and `AT_REMOVEDIR` are
the same one. -/
def atFlags (bits : UInt64) : Except Errno Nat :=
  if bits &&& ~~~31 ≠ 0 then .error .EINVAL
  else .ok ((if bits &&& 1 ≠ 0 then 0x200 else 0) ||| (if bits &&& 2 ≠ 0 then atNofollow else 0) |||
    (if bits &&& 4 ≠ 0 then atFollow else 0) ||| (if bits &&& 8 ≠ 0 then 0x200 else 0) |||
    (if bits &&& 16 ≠ 0 then 0x1000 else 0))

/-- Whether the result of `at_flags` has a bit of `mask`. The value -1 has all of them. -/
def hasAtFlag (bits : UInt64) (mask : Nat) : Bool :=
  match atFlags bits with
  | .error _ => true
  | .ok flags => flags &&& mask != 0

inductive Clock where
  | realtimeCoarse | realtime | processCputime | threadCputime | monotonic | monotonicRaw
  | monotonicCoarse | boottime | realtimeAlarm | boottimeAlarm
  deriving DecidableEq, Repr

/-- `native_clock` -/
def nativeClock : Int → Option Clock
  | 0 => some .realtimeCoarse
  | 1 => some .realtime
  | 2 | 10 => some .processCputime
  | 3 | 11 => some .threadCputime
  | 4 => some .monotonic
  | 5 => some .monotonicRaw
  | 6 => some .monotonicCoarse
  | 7 => some .boottime
  | 8 => some .realtimeAlarm
  | 9 => some .boottimeAlarm
  | _ => none

/-! ### The case of the loader -/

/-- The last argument of `path_string_mode`. -/
inductive Follow where
  | never
  | always
  -- `!(at_flags(a[index]) & AT_SYMLINK_NOFOLLOW)`
  | unlessNofollow (index : Nat)
  -- `(at_flags(a[4]) & AT_SYMLINK_FOLLOW) != 0`
  | linked
  deriving DecidableEq, Repr

/-- The declarations that are written, by the kind of the parameter. `index` is that of the
argument. -/
inductive Declared where
  | cast (type : CType)
  | fd
  | dirfd
  | optstring
  | string
  | path (follow : Follow)
  | optpath (follow : Follow)
  | clock
  | atflags
  | openflags
  | optional (size : Size)
  | bytes (size : Size)
  deriving DecidableEq, Repr

structure Declaration where
  name : String
  index : Nat
  declared : Declared
  deriving DecidableEq, Repr

inductive Return where
  | plain | saveFd | error
  deriving DecidableEq, Repr

structure Case where
  declarations : List Declaration
  -- The names in the call.
  arguments : List String
  result : Return
  deriving DecidableEq, Repr

/-- `at_index`: the first parameter with flags. -/
def Function.atIndex (f : Function) : Option Nat := f.parameters.findIdx? (·.kind = .atflags)

def Function.follow (f : Function) (p : Parameter) : Follow :=
  if f.name = "linkat" then (if p.name = "old_path" then .linked else .never)
  else if f.name ∈ nofollowPaths then .never
  else
    match f.atIndex with
    | some index => .unlessNofollow index
    | none => .always

def Function.declaration (f : Function) (p : Parameter) (index : Nat) : Declaration where
  name := p.name
  index := index
  declared :=
    match p.kind with
    | .value => .cast p.type
    | .fd => .fd
    | .dirfd => .dirfd
    | .optstring => .optstring
    | .string => .string
    | .path => .path (f.follow p)
    | .optpath => .optpath (f.follow p)
    | .clock => .clock
    | .atflags => .atflags
    | .openflags => .openflags
    | .optional size => .optional size
    | .bytes size => .bytes size

def Function.items (f : Function) : List (Parameter × Nat) := f.parameters.zipIdx

def isScalar (item : Parameter × Nat) : Bool := item.1.kind = .value

def Function.case (f : Function) : Case where
  -- Scalars first so dynamic lengths can refer to the argument's name.
  declarations :=
    (f.items.filter isScalar).map (fun item => f.declaration item.1 item.2) ++
    (f.items.filter (!isScalar ·)).map fun item => f.declaration item.1 item.2
  arguments := f.parameters.map (·.name)
  result :=
    if f.name ∈ fdReturns then .saveFd else if f.name ∈ errorReturns then .error else .plain

/-! ### What a declaration computes -/

inductive NativeArg where
  | integer (n : Int)
  | descriptor (d : Nat)
  -- `AT_FDCWD`
  | workingDirectory
  | text (bytes : List UInt8)
  | buffer (address : UInt64)
  | null
  | clock (c : Clock)
  | atFlags (flags : Nat)
  | openFlags (f : OpenFlags)
  deriving DecidableEq, Repr

inductive Stop where
  -- `errno` is set and -1 is returned.
  | errno (e : Errno)
  -- The C program has no meaning: a name is not declared, an index is outside of its array.
  | undefined
  deriving DecidableEq, Repr

def Stop.ofErrno {α : Type} : Except Errno α → Except Stop α
  | .error e => .error (.errno e)
  | .ok a => .ok a

def Size.eval (scalar : String → Option Int) : Size → Option UInt64
  | .name n => (scalar n).map word
  | .number n => some (UInt64.ofNat n)
  | .sizeof l => (rawLayouts l).map UInt64.ofNat
  | .times a b => do return (← a.eval scalar) * (← b.eval scalar)

def Follow.eval (a : List UInt64) : Follow → Except Stop Bool
  | .never => .ok false
  | .always => .ok true
  | .unlessNofollow index =>
    match a[index]? with
    | none => .error .undefined
    | some bits => .ok (!hasAtFlag bits atNofollow)
  | .linked =>
    match a[4]? with
    | none => .error .undefined
    | some bits => .ok (hasAtFlag bits atFollow)

/-- `path_string_mode` as an argument. -/
def pathArg (g : Memory) (h : BridgeHost) (address : UInt64) (follow : Bool) : Except Stop NativeArg :=
  match pathStringMode g h address follow with
  | .unchanged path => .ok (.text path)
  | .translated path => .ok (.text path)
  | .failed e => .error (.errno e)
  | .overflow => .error .undefined
  | .outside => .error .undefined

/-- `memory` as an argument; a buffer of no bytes may be anywhere. -/
def bytesArg (g : Memory) (address size : UInt64) : Except Errno NativeArg :=
  match g.memory address size with
  | .ok () => .ok (.buffer address)
  | .error e => if size ≠ 0 then .error e else .ok .null

def optionalArg (g : Memory) (address size : UInt64) : Except Errno NativeArg :=
  if address = 0 then .ok .null
  else
    match g.memory address size with
    | .ok () => .ok (.buffer address)
    | .error e => .error e

def fdArg (h : BridgeHost) (guest : Int) : Except Errno NativeArg :=
  match h.fd guest with
  | .ok d => .ok (.descriptor d)
  | .error e => .error e

/-- The guest's `AT_FDCWD` is -2. -/
def dirfdArg (h : BridgeHost) (guest : Int) : Except Errno NativeArg :=
  if guest = -2 then .ok .workingDirectory else fdArg h guest

def stringArg (g : Memory) (address : UInt64) : Except Errno NativeArg :=
  match g.string address with
  | .ok text => .ok (.text text)
  | .error e => .error e

def clockArg (id : Int) : Except Errno NativeArg :=
  match nativeClock id with
  | some c => .ok (.clock c)
  | none => .error .EINVAL

def atFlagsArg (bits : UInt64) : Except Errno NativeArg :=
  match atFlags bits with
  | .ok flags => .ok (.atFlags flags)
  | .error e => .error e

def scalarIn (scope : String → Option NativeArg) (n : String) : Option Int :=
  match scope n with
  | some (.integer v) => some v
  | _ => none

/-- The value of a declaration whose argument is the word `w`. -/
def Declared.value (g : Memory) (h : BridgeHost) (a : List UInt64) (w : UInt64)
    (scope : String → Option NativeArg) : Declared → Except Stop NativeArg
  | .cast type => .ok (.integer ((hostType type).wrap w.toNat))
  | .fd => Stop.ofErrno (fdArg h ((hostType .int).wrap w.toNat))
  | .dirfd => Stop.ofErrno (dirfdArg h ((hostType .int).wrap w.toNat))
  | .optstring => if w = 0 then .ok .null else Stop.ofErrno (stringArg g w)
  | .string => Stop.ofErrno (stringArg g w)
  | .path follow => (follow.eval a).bind (pathArg g h w)
  | .optpath follow => if w = 0 then .ok .null else (follow.eval a).bind (pathArg g h w)
  | .clock => Stop.ofErrno (clockArg ((hostType .unsigned).wrap w.toNat))
  | .atflags => Stop.ofErrno (atFlagsArg w)
  | .openflags => .ok (.openFlags (Posix.openFlags w.toNat))
  | .optional size =>
    match size.eval (scalarIn scope) with
    | some size => Stop.ofErrno (optionalArg g w size)
    | none => .error .undefined
  | .bytes size =>
    match size.eval (scalarIn scope) with
    | some size => Stop.ofErrno (bytesArg g w size)
    | none => .error .undefined

def Declaration.value (g : Memory) (h : BridgeHost) (a : List UInt64) (d : Declaration)
    (scope : String → Option NativeArg) : Except Stop NativeArg :=
  match a[d.index]? with
  | none => .error .undefined
  | some w => d.declared.value g h a w scope

/-- The arguments with which a case calls the native function. -/
def Case.call (c : Case) (g : Memory) (h : BridgeHost) (a : List UInt64) :
    Except Stop (List (Option NativeArg)) :=
  (declareAll Declaration.name (Declaration.value g h a) (fun _ => none) c.declarations).map
    fun scope => c.arguments.map scope

end LashOs.Posix
