import Mathlib.Data.List.TakeWhile
import LashOs.Base.Bytes

/-!
# NUL-terminated strings

A string of C is a byte string without NUL. In a buffer it is followed by one.
-/
namespace Base

/-- A string without NUL. -/
def CString : Type := { bytes : List UInt8 // (0 : UInt8) ∉ bytes }

instance : DecidableEq CString := inferInstanceAs (DecidableEq { bytes : List UInt8 // (0 : UInt8) ∉ bytes })

/-- The bytes of a text of ASCII characters. -/
def ascii (text : String) : List UInt8 := text.toList.map fun c => UInt8.ofNat c.toNat

namespace CString

/-- A literal, which ends at its first NUL. -/
def ofText (text : String) : CString :=
  ⟨(ascii text).takeWhile (· != 0), fun member => by simpa using List.mem_takeWhile_imp member⟩

def empty : CString := ⟨[], List.not_mem_nil⟩

def cons (b : UInt8) (nonzero : b ≠ 0) (s : CString) : CString :=
  ⟨b :: s.1, by simp only [List.mem_cons, not_or]; exact ⟨Ne.symm nonzero, s.2⟩⟩

/-- `strlen` -/
def length (s : CString) : Nat := s.1.length

/-- The string as it stands in a buffer. -/
def terminated (s : CString) : List UInt8 := s.1 ++ [0]

@[simp] theorem length_terminated (s : CString) : s.terminated.length = s.length + 1 := by
  simp [terminated, length]

/-- The string at the start of a buffer and what follows it, if there is a NUL. -/
def read : List UInt8 → Option (CString × List UInt8)
  | [] => none
  | b :: rest =>
    if nonzero : b ≠ 0 then
      match read rest with
      | some (s, after) => some (cons b nonzero s, after)
      | none => none
    else some (empty, rest)

theorem read_terminated (s : CString) (rest : List UInt8) :
    read (s.terminated ++ rest) = some (s, rest) := by
  obtain ⟨bytes, free⟩ := s
  induction bytes with
  | nil => simp [terminated, read, empty]
  | cons b bytes ih =>
    have nonzero : b ≠ 0 := fun zero => free (by simp [zero])
    have tail : (0 : UInt8) ∉ bytes := fun member => free (List.mem_cons_of_mem _ member)
    have found := ih tail
    simp only [terminated] at found
    simp only [terminated, List.cons_append, read, dif_pos nonzero, found]
    rfl

/-- Strings that stand one behind the other. -/
def allTerminated (strings : List CString) : List UInt8 := strings.flatMap terminated

@[simp] theorem allTerminated_cons (s : CString) (strings : List CString) :
    allTerminated (s :: strings) = s.terminated ++ allTerminated strings := rfl

end CString

end Base
