import LashOs.Guest.RawCalls
import LashOs.Network.Control

/-!
# Sending messages

The sending half of `network_message`, from the guest's `struct network_msghdr` to the
arguments of `sendmsg`.
-/
namespace LashOs.Network

open Base
open Descriptors (BridgeHost toInt)
open Guest (Memory checkIf)

/-- `struct network_msghdr`, without the field that only receiving writes. -/
structure NetworkMsghdr where
  name : UInt64
  namelen : UInt64
  iov : UInt64
  iovlen : UInt64
  control : UInt64
  controllen : UInt64

def msghdrAt (g : Memory) (address : UInt64) : NetworkMsghdr where
  name := g.load address 8
  namelen := g.load (address + 8) 4
  iov := g.load (address + 16) 8
  iovlen := g.load (address + 24) 4
  control := g.load (address + 32) 8
  controllen := g.load (address + 40) 4

/-- `EMSGSIZE` -/
def messageTooLong : Errno := .other 90

/-- What `sendmsg` gets. -/
structure Sendmsg where
  socket : Nat
  vectors : List (UInt64 × UInt64)
  name : UInt64
  namelen : UInt64
  control : List UInt8
  flags : Int
  deriving DecidableEq

/-- The loop over the guest's vectors. -/
def checkVectors (g : Memory) (iov : UInt64) : Nat → Except Errno (List (UInt64 × UInt64))
  | 0 => .ok []
  | count + 1 => do
    let base := g.load iov 8
    let length := g.load (iov + 8) 8
    checkIf (length ≠ 0) (g.memory base length)
    let rest ← checkVectors g (iov + 16) count
    return (base, length) :: rest

def checkControl (g : Memory) (h : BridgeHost) (wire : NetworkMsghdr) (allocated : Bool) :
    Except Errno (List UInt8) :=
  if wire.controllen = 0 then .ok []
  else do
    g.memory wire.control wire.controllen
    checkIf (allocated = false) (.error .ENOMEM)
    controlLoop h wire.controllen.toNat (g.bytes wire.control wire.controllen.toNat) 0

/-- `network_message` with `receiving` false, up to `sendmsg`. The two flags say which
allocations succeed. -/
def networkSend (g : Memory) (h : BridgeHost) (a₀ a₁ a₂ : UInt64)
    (iovAllocated controlAllocated : Bool) : Except Errno Sendmsg := do
  -- Both calls are made before their results are looked at, so the second `errno` stays.
  g.memory a₁ 56
  let actual ← h.fd (toInt a₀)
  let wire := msghdrAt g a₁
  checkIf (1024 < wire.iovlen ∨ 65536 < wire.controllen) (.error messageTooLong)
  checkIf (wire.iovlen ≠ 0) (g.memory wire.iov (wire.iovlen * 16))
  checkIf (iovAllocated = false) (.error .ENOMEM)
  let vectors ← checkVectors g wire.iov wire.iovlen.toNat
  checkIf (wire.name ≠ 0) (g.memory wire.name wire.namelen)
  let control ← checkControl g h wire controlAllocated
  return ⟨actual, vectors, wire.name, wire.namelen, control, toInt a₂⟩

def guestControl (g : Memory) (a₁ : UInt64) : List UInt8 :=
  g.bytes (msghdrAt g a₁).control (msghdrAt g a₁).controllen.toNat

variable {g : Memory} {h : BridgeHost} {a₀ a₁ a₂ : UInt64} {iovAllocated controlAllocated : Bool}

theorem networkSend_ok {call : Sendmsg}
    (reached : networkSend g h a₀ a₁ a₂ iovAllocated controlAllocated = .ok call) :
    checkControl g h (msghdrAt g a₁) controlAllocated = .ok call.control := by
  simp only [networkSend, Guest.bind_eq_ok] at reached
  obtain ⟨-, -, actual, -, -, -, -, -, -, -, vectors, -, -, -, control, checked, made⟩ := reached
  cases made
  exact checked

theorem checkControl_ok {wire : NetworkMsghdr} {sent : List UInt8}
    (checked : checkControl g h wire controlAllocated = .ok sent) :
    ∃ records, wireRecords (g.bytes wire.control wire.controllen.toNat) = some records ∧
      linuxRecords sent = some records ∧
      ∀ r ∈ records, Translated h (g.bytes wire.control wire.controllen.toNat) sent r := by
  unfold checkControl at checked
  split at checked
  next none =>
    cases checked
    have empty : g.bytes wire.control wire.controllen.toNat = [] := by
      simp [none, Memory.bytes]
    rw [empty]
    exact ⟨[], Layout.records_nil (by decide), Layout.records_nil (by decide), by simp⟩
  · simp only [Guest.bind_eq_ok] at checked
    obtain ⟨-, -, -, -, ran⟩ := checked
    obtain ⟨length, -, records, wire_, linux, translated⟩ :=
      controlLoop_ok (Guest.length_bytes g wire.control wire.controllen.toNat) ran
    refine ⟨records, ?_, ?_, translated⟩
    · rw [wireRecords, Guest.length_bytes]
      exact wire_
    · rw [linuxRecords, length]
      exact linux

/-- A record that must not reach Linux: half of a descriptor, or one that is not open. -/
def Refusable (h : BridgeHost) (control : List UInt8) (r : Record) : Prop :=
  isRights control r.offset = true ∧
    ((r.length - 16) % 4 ≠ 0 ∨ ∃ j < (r.length - 16) / 4,
      ∀ real, h.fd (intAt control (r.offset + 16 + 4 * j)) ≠ .ok real)

theorem Translated.not_refusable {control sent : List UInt8} {r : Record}
    (translated : Translated h control sent r) : ¬ Refusable h control r := by
  rintro ⟨rights, bad⟩
  have content := translated.2
  rw [if_pos rights] at content
  rcases bad with half | ⟨j, small, closed⟩
  · exact half content.1
  · obtain ⟨real, opened, -⟩ := content.2 j small
    exact closed real opened

/-- If `sendmsg` is reached, Linux sees the records that the bridge has looked at, and every
descriptor in them is a native one of an open descriptor of the guest. If a record is
malformed or names a descriptor that is not open, `sendmsg` is not reached. -/
theorem sent_rights_translated (g : Memory) (h : BridgeHost) (a₀ a₁ a₂ : UInt64)
    (iovAllocated controlAllocated : Bool) :
    (∀ call, networkSend g h a₀ a₁ a₂ iovAllocated controlAllocated = .ok call →
      ∃ records, wireRecords (guestControl g a₁) = some records ∧
        linuxRecords call.control = some records ∧
        ∀ r ∈ records, Translated h (guestControl g a₁) call.control r) ∧
    (wireRecords (guestControl g a₁) = none ∨
        (∃ records, wireRecords (guestControl g a₁) = some records ∧
          ∃ r ∈ records, Refusable h (guestControl g a₁) r) →
      ∀ call, networkSend g h a₀ a₁ a₂ iovAllocated controlAllocated ≠ .ok call) := by
  have translates : ∀ call, networkSend g h a₀ a₁ a₂ iovAllocated controlAllocated = .ok call →
      ∃ records, wireRecords (guestControl g a₁) = some records ∧
        linuxRecords call.control = some records ∧
        ∀ r ∈ records, Translated h (guestControl g a₁) call.control r :=
    fun call reached => checkControl_ok (networkSend_ok reached)
  refine ⟨translates, fun bad call reached => ?_⟩
  obtain ⟨records, wire, -, translated⟩ := translates call reached
  rcases bad with malformed | ⟨others, same, r, member, refusable⟩
  · rw [wire] at malformed
    cases malformed
  · rw [wire] at same
    cases same
    exact (translated r member).not_refusable refusable

/-- A guest with a control buffer at 0x12000 and its header at 0x11000. -/
def oneRight : Memory where
  start := 0x10000
  total := 0x10000
  image := 0
  imageSize := 0
  byte address :=
    if 0x12000 ≤ address then
      ([20, 0, 0, 0, 255, 255, 255, 255, 1, 0, 0, 0, 1, 0, 0, 0, 3, 0, 0, 0] : List UInt8).getD
        (address - 0x12000).toNat 0
    else if address = 0x11021 then 0x20
    else if address = 0x11022 then 1
    else if address = 0x11028 then 20
    else 0
  fits := by decide
  imageFits := Guest.noImage_fits
  guardFits := Guest.low_guardFits

def oneSocket : BridgeHost where
  fds i := if i.val = 3 then 7 else -1
  dirs _ := none
  dirFds _ := -1
  native := Fds.empty
  locks := []

/-- The descriptor is replaced, and the upper half of the length cleared. -/
theorem oneRight_translated : ∃ call records,
    networkSend oneRight oneSocket 3 0x11000 0 true true = .ok call ∧
      call.control = [20, 0, 0, 0, 0, 0, 0, 0, 1, 0, 0, 0, 1, 0, 0, 0, 7, 0, 0, 0] ∧
      linuxRecords call.control = some records := by
  have reached : networkSend oneRight oneSocket 3 0x11000 0 true true =
      .ok ⟨7, [], 0, 0, [20, 0, 0, 0, 0, 0, 0, 0, 1, 0, 0, 0, 1, 0, 0, 0, 7, 0, 0, 0], 0⟩ := by
    decide +kernel
  obtain ⟨records, -, linux, -⟩ :=
    (sent_rights_translated oneRight oneSocket 3 0x11000 0 true true).1 _ reached
  exact ⟨_, records, reached, rfl, linux⟩

end LashOs.Network
