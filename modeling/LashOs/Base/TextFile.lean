import Mathlib.Data.List.Basic

/-!
# Reading a file in lines

`fgets` of C: it stores bytes up to a newline, up to the end of the file or until the buffer is
full, whichever comes first. Only the second case sets the end-of-file indicator. A file may also
fail to be read behind some of its bytes.
-/
namespace Base

def newline : UInt8 := 10

/-- The bytes that are stored, those that are left, and whether the end was met. -/
def gather : Nat → List UInt8 → List UInt8 × List UInt8 × Bool
  | 0, bytes => ([], bytes, false)
  | _ + 1, [] => ([], [], true)
  | room + 1, b :: bytes =>
    if b = newline then ([b], bytes, false)
    else
      let (line, rest, ended) := gather room bytes
      (b :: line, rest, ended)

/-- A file that is open for reading. Behind its bytes it ends, or reading it fails; `eof` and
`error` are the indicators that `feof` and `ferror` return. -/
structure TextFile where
  bytes : List UInt8
  fails : Bool
  eof : Bool
  error : Bool
  deriving DecidableEq, Repr

namespace TextFile

def opened (bytes : List UInt8) (fails : Bool) : TextFile := ⟨bytes, fails, false, false⟩

/-- `fgets` into a buffer of some size. -/
def fgets (f : TextFile) (size : Nat) : Option (List UInt8) × TextFile :=
  let (line, rest, ended) := gather (size - 1) f.bytes
  let after : TextFile :=
    ⟨rest, f.fails, f.eof || (ended && !f.fails), f.error || (ended && f.fails)⟩
  if ended ∧ (line = [] ∨ f.fails) then (none, after) else (some line, after)

end TextFile

/-! ### What is gathered -/

theorem gather_append (room : Nat) (bytes : List UInt8) :
    (gather room bytes).1 ++ (gather room bytes).2.1 = bytes := by
  fun_induction gather room bytes with
  | case1 => rfl
  | case2 => rfl
  | case3 => rfl
  | case4 room b bytes other line rest ended gathered ih =>
    rw [gathered] at ih
    exact congrArg (b :: ·) ih

theorem gather_ended_or (room : Nat) (bytes : List UInt8) (space : 0 < room) :
    (gather room bytes).2.2 = true ∨ (gather room bytes).1 ≠ [] := by
  fun_cases gather room bytes with
  | case1 => cases space
  | case2 => exact Or.inl rfl
  | case3 => exact Or.inr (List.cons_ne_nil _ _)
  | case4 => exact Or.inr (List.cons_ne_nil _ _)

section

variable {line : List UInt8} (plain : newline ∉ line)

include plain

/-- Bytes without a newline are stored as long as there is room. -/
theorem gather_plain (room : Nat) (rest : List UInt8) :
    gather (line.length + room) (line ++ rest) =
      (line ++ (gather room rest).1, (gather room rest).2) := by
  induction line with
  | nil => rw [List.length_nil, Nat.zero_add, List.nil_append, List.nil_append]
  | cons b line ih =>
    have other : b ≠ newline := fun same => plain (by simp [same])
    have tail := ih fun member => plain (List.mem_cons_of_mem b member)
    rw [List.length_cons, Nat.add_right_comm, List.cons_append, gather, if_neg other, tail]
    rfl

theorem gather_line {room : Nat} (fits : line.length < room) (rest : List UInt8) :
    gather room (line ++ newline :: rest) = (line ++ [newline], rest, false) := by
  obtain ⟨more, rfl⟩ := Nat.exists_eq_add_of_lt fits
  exact gather_plain plain (more + 1) (newline :: rest)

theorem gather_end {room : Nat} (fits : line.length < room) : gather room line = (line, [], true) := by
  obtain ⟨more, rfl⟩ := Nat.exists_eq_add_of_lt fits
  have whole := gather_plain plain (more + 1) []
  rwa [gather, List.append_nil] at whole

/-- A line that does not fit, whether it has a newline or not. -/
theorem gather_full {room : Nat} (long : room ≤ line.length) (rest : List UInt8) :
    gather room (line ++ rest) = (line.take room, line.drop room ++ rest, false) := by
  have front : newline ∉ line.take room := fun member => plain (List.mem_of_mem_take member)
  have whole := gather_plain front 0 (line.drop room ++ rest)
  rwa [List.length_take_of_le long, Nat.add_zero, ← List.append_assoc, List.take_append_drop, gather,
    List.append_nil] at whole

end

namespace TextFile

/-- A line that is returned has bytes, which are no longer there. -/
theorem fgets_shorter {f after : TextFile} {size : Nat} {line : List UInt8} (space : 1 < size)
    (read : f.fgets size = (some line, after)) : after.bytes.length < f.bytes.length := by
  have whole := congrArg List.length (gather_append (size - 1) f.bytes)
  have some := gather_ended_or (size - 1) f.bytes (by omega)
  rcases gathered : gather (size - 1) f.bytes with ⟨stored, rest, ended⟩
  rw [gathered, List.length_append] at whole
  rw [gathered] at some
  simp only [fgets, gathered] at read
  split at read
  · cases read
  next more =>
    cases read
    have nonempty : line ≠ [] := by
      rcases some with ended | nonempty
      · exact fun empty => more ⟨ended, Or.inl empty⟩
      · exact nonempty
    have := List.length_pos_iff.mpr nonempty
    dsimp only at whole ⊢
    omega

section

variable {line : List UInt8} (plain : newline ∉ line)

include plain

theorem fgets_line {size : Nat} (fits : line.length + 1 < size) (rest : List UInt8) :
    (opened (line ++ newline :: rest) false).fgets size =
      (some (line ++ [newline]), opened rest false) := by
  have gathered := gather_line plain (Nat.lt_sub_of_add_lt fits) rest
  simp [fgets, opened, gathered]

theorem fgets_last {size : Nat} (fits : line.length + 1 < size) (more : line ≠ []) :
    (opened line false).fgets size = (some line, ⟨[], false, true, false⟩) := by
  have gathered := gather_end plain (Nat.lt_sub_of_add_lt fits)
  simp [fgets, opened, gathered, more]

/-- A line that fills the buffer: its end was not seen. -/
theorem fgets_full {size : Nat} (long : size ≤ line.length + 1) (rest : List UInt8) :
    (opened (line ++ rest) false).fgets size =
      (some (line.take (size - 1)), opened (line.drop (size - 1) ++ rest) false) := by
  have gathered := gather_full plain (Nat.sub_le_of_le_add long) rest
  simp [fgets, opened, gathered]

end

end TextFile

end Base
