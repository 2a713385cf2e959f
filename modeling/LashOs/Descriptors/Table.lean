import Mathlib
import LashOs.Base.Descriptors
import LashOs.Errno

/-!
# The descriptor table

`bridge_host` of `host.c` as far as descriptors go, with the native descriptors of the
process, and the helpers of `fds_host.h`. The numbers below `MAX_FDS` are the guest's.
-/
namespace LashOs.Descriptors

open Base

/-- `MAX_FDS` -/
def maxFds : Nat := 256

/-- `MAX_DIRS` -/
def maxDirs : Nat := 64

/-- What a native descriptor refers to, and its close-on-exec flag. -/
structure Descriptor where
  file : Nat
  cloexec : Bool
  deriving DecidableEq, Repr

/-- `dirs` knows a directory stream by the native descriptor inside it; `dirFds` is the
second copy of the number that the loader keeps. The process holds record locks on the
files `locks`. -/
structure BridgeHost where
  fds : Fin maxFds → Int
  dirs : Fin maxDirs → Option Nat
  dirFds : Fin maxDirs → Int
  native : Fds Descriptor
  locks : List Nat

/-- An argument converted to `int`. -/
def toInt (a : UInt64) : Int :=
  if a.toNat % 2 ^ 32 < 2 ^ 31 then ((a.toNat % 2 ^ 32 : Nat) : Int)
  else ((a.toNat % 2 ^ 32 : Nat) : Int) - 2 ^ 32

/-- The argument is an `int` as the guest's wrappers pass it. -/
def SignExtended (a : UInt64) : Prop := (a.toNat : Int) = toInt a % 2 ^ 64

theorem SignExtended.toNat_eq {a : UInt64} (extended : SignExtended a) (inside : 0 ≤ toInt a) :
    (a.toNat : Int) = toInt a := by
  unfold SignExtended at extended
  unfold toInt at *
  split at extended <;> split at inside <;> omega

/-- `fd`: the native descriptor of a guest number. -/
def BridgeHost.fd (h : BridgeHost) (guest : Int) : Except Errno Nat :=
  if inside : 0 ≤ guest ∧ guest.toNat < maxFds then
    if h.fds ⟨guest.toNat, inside.2⟩ < 0 then .error .EBADF
    else .ok (h.fds ⟨guest.toNat, inside.2⟩).toNat
  else .error .EBADF

/-- A write to `h->fds[index]`; none when the index is outside the array. -/
def BridgeHost.setSlot (h : BridgeHost) (index value : Int) : Option BridgeHost :=
  if inside : 0 ≤ index ∧ index.toNat < maxFds then
    some { h with fds := Function.update h.fds ⟨index.toNat, inside.2⟩ value }
  else none

theorem BridgeHost.setSlot_natCast (h : BridgeHost) (n : Nat) (inside : n < maxFds) (value : Int) :
    h.setSlot n value = some { h with fds := Function.update h.fds ⟨n, inside⟩ value } := by
  simp [BridgeHost.setSlot, inside]

/-- The record locks that are left when a descriptor is closed: none on its file, whichever
descriptor they were taken through. -/
def BridgeHost.locksWithout (h : BridgeHost) (real : Nat) : List Nat :=
  match h.native.entry real with
  | some d => h.locks.filter (· ≠ d.file)
  | none => h.locks

/-- The native `close`. It releases the number whatever it reports. -/
def BridgeHost.closeNative (h : BridgeHost) (real : Nat) : BridgeHost :=
  { h with native := h.native.close real, locks := h.locksWithout real }

/-- A native call that creates one descriptor at or above `minimum`, or fails. -/
def BridgeHost.openNative (h : BridgeHost) (minimum : Nat) :
    Except Errno Descriptor → BridgeHost × Except Errno Nat
  | .error e => (h, .error e)
  | .ok file => ({ h with native := (h.native.allocate minimum file).2 },
      .ok (h.native.allocate minimum file).1)

/-- `adopt_descriptor`, which `save_fd` calls: a number that the table cannot hold is
closed again. -/
def adoptDescriptor (h : BridgeHost) (real : Except Errno Nat) (minimum : Nat) :
    BridgeHost × Except Errno Nat :=
  match real with
  | .error e => (h, .error e)
  | .ok real =>
    if inside : real < maxFds then
      if minimum ≤ real ∧ h.fds ⟨real, inside⟩ < 0 then
        ({ h with fds := Function.update h.fds ⟨real, inside⟩ (real : Int) }, .ok real)
      else (h.closeNative real, .error .EMFILE)
    else (h.closeNative real, .error .EMFILE)

/-- `close(h->fds[logical]); h->fds[logical] = -1`, with which the operations that adopt
several descriptors take one back. -/
def takeBack (h : BridgeHost) (logical : Nat) : Option BridgeHost :=
  if inside : logical < maxFds then
    (h.closeNative (h.fds ⟨logical, inside⟩).toNat).setSlot logical (-1)
  else none

/-- An error that does not say that the descriptor is closed or the call interrupted. -/
def Fault : Type := { e : Errno // e ≠ .EBADF ∧ e ≠ .EINTR }

/-- `fcntl(i, F_GETFD)`, repeated while it is interrupted. -/
def getFd (native : Fds Descriptor) (i : Nat) (fault : Option Fault) : Except Errno Unit :=
  match fault with
  | some e => .error e.1
  | none => if native.isOpen i then .ok () else .error .EBADF

/-- The loop of `inherit_descriptors` over the slots that are left. -/
def inheritSlots (native : Fds Descriptor) (fault : Fin maxFds → Option Fault) :
    List (Fin maxFds) → (Fin maxFds → Int) → Option (Fin maxFds → Int)
  | [], descriptors => some descriptors
  | i :: rest, descriptors =>
    match getFd native i (fault i) with
    | .ok () => inheritSlots native fault rest (Function.update descriptors i (i : Int))
    | .error e => if e ≠ .EBADF then none else inheritSlots native fault rest descriptors

def inheritDescriptors (native : Fds Descriptor) (fault : Fin maxFds → Option Fault) :
    Option (Fin maxFds → Int) :=
  inheritSlots native fault (List.finRange maxFds) fun _ => -1

theorem inheritSlots_spec (native : Fds Descriptor) (fault : Fin maxFds → Option Fault)
    (slots : List (Fin maxFds)) (descriptors result : Fin maxFds → Int)
    (inherited : inheritSlots native fault slots descriptors = some result) (i : Fin maxFds) :
    result i = if i ∈ slots ∧ native.isOpen i then (i : Int) else descriptors i := by
  induction slots generalizing descriptors with
  | nil =>
    cases inherited
    simp
  | cons j rest ih =>
    unfold inheritSlots getFd at inherited
    cases faulty : fault j with
    | some e =>
      rw [faulty] at inherited
      simp [e.2.1] at inherited
    | none =>
      rw [faulty] at inherited
      by_cases opened : native.isOpen j = true
      · simp only [opened, if_true] at inherited
        rw [ih _ inherited]
        by_cases same : i = j
        · subst same; simp [opened]
        · simp [same]
      · simp only [opened] at inherited
        rw [ih _ (by simpa using inherited)]
        by_cases same : i = j
        · subst same; simp [opened]
        · simp [same]

end LashOs.Descriptors
