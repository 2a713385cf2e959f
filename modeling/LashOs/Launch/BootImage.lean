import Mathlib.Data.List.Nodup
import LashOs.Base.CString
import LashOs.Base.Newc

/-!
# The boot image

The image of the virtual machine is the archive that `newc` of `build-sandbox.py` makes from
the staged tree, and the entries that `configure_guest` appends to it with `cpio_entry`. The
first writer pads relative to the whole archive, the second relative to its own entry.
-/
namespace LashOs.Launch

open Base

/-! ### `newc` -/

inductive FileType where
  | link | directory | regular
  -- Devices, sockets and pipes.
  | other
  deriving DecidableEq, Repr

/-- A path of the staged tree relative to its root, with the type and permissions of
`st_mode`, and what is read: the target of a link or the contents of a file. -/
structure Staged where
  name : List UInt8
  type : FileType
  permissions : Nat
  data : List UInt8
  deriving DecidableEq, Repr

/-- The mode and data of the entry; `newc` raises an error for other types. -/
def Staged.member (s : Staged) : Option (Nat × List UInt8) :=
  match s.type with
  -- `S_IFLNK`
  | .link => some (0o120000 ||| 0o777, s.data)
  -- `S_IFDIR`; 0o1000 is `S_ISVTX`
  | .directory =>
    some (0o040000 ||| (if s.permissions &&& 0o1000 ≠ 0 then 0o1777 else 0o755), [])
  -- `S_IFREG`
  | .regular =>
    some (0o100000 ||| (if s.permissions &&& 0o111 ≠ 0 then 0o755 else 0o644), s.data)
  | .other => none

structure Writer where
  archive : List UInt8
  inode : Nat

/-- `entry`; a number with more than eight digits is formatted with all of them. -/
def Writer.entry (w : Writer) (name : List UInt8) (mode : Nat) (data : List UInt8)
    (major minor : Nat) : Writer :=
  let inode := w.inode + 1
  let encoded := name ++ [0]
  let fields := [inode, mode, 0, 0, 1, 0, data.length, 0, 0, major, minor, encoded.length, 0]
  let archive := w.archive ++ (newcMagic ++ fields.flatMap (hexAtLeast 8))
  let archive := padded (archive ++ encoded)
  let archive := padded (archive ++ data)
  ⟨archive, inode⟩

/-- The entries of both writers have one owner, one link and no date. -/
def memberEntry (ino mode : Nat) (name data : List UInt8) (major minor : Nat) : Newc :=
  ⟨ino, mode, 0, 0, 1, 0, 0, 0, major, minor, 0, name, data⟩

/-- The entry of a path. A link and a file keep their contents, and of the permissions only the
sticky bit of a directory and whether a file is a program count. Other types have no entry. -/
def Staged.entry (s : Staged) (ino : Nat) : Newc :=
  match s.type with
  | .link => memberEntry ino 0o120777 s.name s.data 0 0
  | .directory =>
    memberEntry ino (if s.permissions &&& 0o1000 = 0 then 0o040755 else 0o041777) s.name [] 0 0
  | .regular =>
    memberEntry ino (if s.permissions &&& 0o111 = 0 then 0o100644 else 0o100755) s.name s.data 0 0
  | .other => memberEntry ino 0 s.name [] 0 0

structure Staged.Fits (s : Staged) : Prop where
  known : s.type ≠ .other
  text : 0 ∉ s.name
  plain : s.name ≠ trailerName
  nameSize : s.name.length + 1 < 2 ^ 32
  dataSize : s.data.length < 2 ^ 32

theorem memberEntry_fits {ino mode major minor : Nat} {name data : List UInt8}
    (inoSmall : ino < 2 ^ 32) (modeSmall : mode < 2 ^ 32) (majorSmall : major < 2 ^ 32)
    (minorSmall : minor < 2 ^ 32) (text : 0 ∉ name) (nameSize : name.length + 1 < 2 ^ 32)
    (dataSize : data.length < 2 ^ 32) : (memberEntry ino mode name data major minor).Fits := by
  refine ⟨?_, text⟩
  simp only [Newc.fields, memberEntry, List.mem_cons, List.not_mem_nil, or_false]
  rintro n (rfl | rfl | rfl | rfl | rfl | rfl | rfl | rfl | rfl | rfl | rfl | rfl | rfl) <;> omega

theorem Staged.Fits.member {s : Staged} (fits : s.Fits) (ino : Nat) : ∃ mode data,
    s.member = some (mode, data) ∧ s.entry ino = memberEntry ino mode s.name data 0 0 ∧
      mode < 2 ^ 32 ∧ data.length < 2 ^ 32 := by
  unfold Staged.member Staged.entry
  cases kind : s.type with
  | link => exact ⟨_, _, rfl, rfl, by decide, fits.dataSize⟩
  | directory =>
    by_cases plain : s.permissions &&& 0o1000 = 0
    · exact ⟨0o040755, [], by simp [plain], by simp [plain], by decide, by decide⟩
    · exact ⟨0o041777, [], by simp [plain], by simp [plain], by decide, by decide⟩
  | regular =>
    by_cases plain : s.permissions &&& 0o111 = 0
    · exact ⟨0o100644, s.data, by simp [plain], by simp [plain], by decide, fits.dataSize⟩
    · exact ⟨0o100755, s.data, by simp [plain], by simp [plain], by decide, fits.dataSize⟩
  | other => exact absurd kind fits.known

theorem Staged.Fits.entry {s : Staged} (fits : s.Fits) (ino : Nat) (small : ino < 2 ^ 32) :
    ∃ mode data, s.member = some (mode, data) ∧
      s.entry ino = memberEntry ino mode s.name data 0 0 ∧ (s.entry ino).Fits := by
  obtain ⟨mode, data, member, entry, modeSmall, dataSmall⟩ := fits.member ino
  refine ⟨mode, data, member, entry, ?_⟩
  rw [entry]
  exact memberEntry_fits small modeSmall (by decide) (by decide) fits.text fits.nameSize dataSmall

def numbered (count : Nat) : List Staged :=
  (List.range count).map fun i => ⟨hexFixed 8 i, .regular, 0x1a4, []⟩

end LashOs.Launch
