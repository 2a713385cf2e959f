import Mathlib.Data.Nat.Log
import Mathlib.Data.List.Basic
import Mathlib.Tactic.Ring

/-!
# The newc format

An archive is a sequence of entries. An entry has a header of a magic number and thirteen
fields of eight hexadecimal digits, then a name with its NUL and data, both padded to a
multiple of four. An archive ends with an entry of a special name, and archives may follow
each other.
-/
namespace Base

/-! ### Hexadecimal numbers -/

def hexDigit (d : Nat) : UInt8 := UInt8.ofNat (if d < 10 then 48 + d else 87 + d)

/-- The last `width` digits of a number. -/
def hexFixed : Nat → Nat → List UInt8
  | 0, _ => []
  | width + 1, n => hexFixed width (n / 16) ++ [hexDigit (n % 16)]

/-- All digits of a number, with zeros in front up to a width. -/
def hexAtLeast (width n : Nat) : List UInt8 := hexFixed (max width (Nat.log 16 n + 1)) n

structure Newc where
  ino : Nat
  mode : Nat
  uid : Nat
  gid : Nat
  nlink : Nat
  mtime : Nat
  devMajor : Nat
  devMinor : Nat
  rdevMajor : Nat
  rdevMinor : Nat
  check : Nat
  name : List UInt8
  data : List UInt8
  deriving DecidableEq, Repr

/-- `070701` -/
def newcMagic : List UInt8 := [48, 55, 48, 55, 48, 49]

/-- The number of zeros up to a multiple of four. -/
def padding (size : Nat) : Nat := (4 - size % 4) % 4

/-- Zeros behind a buffer up to a multiple of four. -/
def padded (bytes : List UInt8) : List UInt8 := bytes ++ List.replicate (padding bytes.length) 0

theorem length_padded (bytes : List UInt8) : (padded bytes).length % 4 = 0 := by
  simp only [padded, padding, List.length_append, List.length_replicate]
  omega

namespace Newc

def fields (e : Newc) : List Nat :=
  [e.ino, e.mode, e.uid, e.gid, e.nlink, e.mtime, e.data.length, e.devMajor, e.devMinor,
    e.rdevMajor, e.rdevMinor, e.name.length + 1, e.check]

/-- The header, with the name that follows it. -/
def front (e : Newc) : List UInt8 :=
  newcMagic ++ e.fields.flatMap (hexFixed 8) ++ (e.name ++ [0])

def encode (e : Newc) : List UInt8 := padded e.front ++ padded e.data

/-- An entry that the format can hold. -/
structure Fits (e : Newc) : Prop where
  fields : ∀ n ∈ e.fields, n < 16 ^ 8
  name : 0 ∉ e.name

theorem length_encode (e : Newc) : e.encode.length % 4 = 0 := by
  have first := length_padded e.front
  have second := length_padded e.data
  rw [encode, List.length_append]
  omega

end Newc

/-! ### The reader -/

def readBytes (count : Nat) (bytes : List UInt8) : Option (List UInt8 × List UInt8) :=
  if count ≤ bytes.length then some (bytes.take count, bytes.drop count) else none

variable {count : Nat}

variable {bytes rest : List UInt8}

/-- `TRAILER!!!` -/
def trailerName : List UInt8 := [84, 82, 65, 73, 76, 69, 82, 33, 33, 33]

/-- Entries up to a trailer. -/
structure Archive where
  entries : List Newc
  trailer : Newc
  deriving DecidableEq, Repr

/-- Entries grouped by the trailers, the last of which ends the stream. -/
def archives (before : List Newc) : List Newc → Option (List Archive)
  | [] => if before = [] then some [] else none
  | e :: rest =>
    if e.name = trailerName then (archives [] rest).map (⟨before, e⟩ :: ·)
    else archives (before ++ [e]) rest

end Base
