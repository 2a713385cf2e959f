import LashOs.Base.TextFile
import LashOs.Launch.Options

/-!
# The installed system

`os_identity` and `sandbox_installed_os` of `sandbox_host.c`: whether the loader runs in the system
that it belongs to, where Bash may run without a virtual machine. The file is read with `fgets`
into a buffer of 512 bytes, so a line that does not fit, or that may go on, refuses the file.
-/
namespace LashOs.Launch

open Base

/-! ### The file -/

def carriageReturn : UInt8 := 13

/-- The texts that `ID=` may be followed by. -/
def identities : List (List UInt8) :=
  [ascii "linux-bash-os", ascii "\"linux-bash-os\"", ascii "'linux-bash-os'"]

/-- `sizeof(line)` -/
def lineSize : Nat := 512

/-- `line[strcspn(line, "\r\n")] = 0` -/
def chomp (line : List UInt8) : List UInt8 :=
  line.takeWhile fun b => b ≠ carriageReturn ∧ b ≠ newline

/-- The loop of `os_identity`. A line in the buffer ends at its first NUL. -/
def osIdentityLoop (file : TextFile) (matched seen : Bool) : Bool :=
  match _read : file.fgets lineSize with
  | (none, file) => !file.error && matched
  | (some buffer, file) =>
    let line := buffer.takeWhile (· ≠ 0)
    if newline ∉ line ∧ file.eof = false then false
    else if (chomp line).take 3 = ascii "ID=" then
      if seen then false
      else osIdentityLoop file (identities.contains ((chomp line).drop 3)) true
    else osIdentityLoop file matched seen
  termination_by file.bytes.length
  decreasing_by all_goals exact TextFile.fgets_shorter (by decide) _read

def osIdentity (file : TextFile) : Bool := osIdentityLoop file false false

/-! ### The two places of the file -/

/-- The fields of `struct stat` that are looked at. -/
structure Stat where
  regular : Bool
  uid : Nat
  mode : Nat
  size : Int
  deriving DecidableEq, Repr

/-- What `open`, `fstat` and `fdopen` give for a path that can be opened; there is no `stat` if
`fstat` fails. -/
structure Opened where
  stat : Option Stat
  fdopen : Bool
  file : TextFile

/-- The checks before the file is read: a regular file of root that others cannot write to and that
has at most 16 KiB. -/
def trusted : Option Stat → Bool
  | none => false
  | some st => st.regular && st.uid == 0 && st.mode &&& 0o22 == 0 && decide (st.size ≤ 16384)

def osReleasePaths : List String := ["/etc/os-release", "/usr/lib/os-release"]

/-- The loop over the paths: the first one that can be opened decides. -/
def installedLoop (opens : String → Option Opened) : List String → Bool
  | [] => false
  | path :: rest =>
    match opens path with
    | none => installedLoop opens rest
    | some o => trusted o.stat && o.fdopen && osIdentity o.file

def sandboxInstalledOs (opens : String → Option Opened) : Bool := installedLoop opens osReleasePaths

/-! ### Lines -/

def isIdLine (line : List UInt8) : Bool := (ascii "ID=").isPrefixOf line

def idValue (line : List UInt8) : List UInt8 := (line.drop 3).takeWhile (· ≠ carriageReturn)

/-- The name of this system, bare or in two quotes of one kind. -/
def ThisSystem (value : List UInt8) : Prop :=
  ∃ quotes, (quotes = ascii "" ∨ quotes = ascii "\"" ∨ quotes = ascii "'") ∧
    value = quotes ++ ascii "linux-bash-os" ++ quotes

/-- A file that names this system: one line with an identity, the right one, and no line that is
too long. -/
structure Identifies (contents : List UInt8) : Prop where
  short : ∀ line ∈ contents.splitOn newline, line.length ≤ 510
  one : ∃ line, (contents.splitOn newline).filter isIdLine = [line] ∧ ThisSystem (idValue line)

theorem mem_identities_iff (value : List UInt8) : value ∈ identities ↔ ThisSystem value := by
  have bare : ascii "" ++ ascii "linux-bash-os" ++ ascii "" = ascii "linux-bash-os" := by decide
  have double : ascii "\"" ++ ascii "linux-bash-os" ++ ascii "\"" = ascii "\"linux-bash-os\"" := by
    decide
  have single : ascii "'" ++ ascii "linux-bash-os" ++ ascii "'" = ascii "'linux-bash-os'" := by decide
  simp only [identities, ThisSystem, List.mem_cons, List.not_mem_nil, or_false, or_and_right,
    exists_or, exists_eq_left, bare, double, single]

/-- The loop over the lines of the file. -/
def checkLines (matched seen : Bool) : List (List UInt8) → Bool
  | [] => matched
  | line :: lines =>
    if 510 < line.length then false
    else if isIdLine line then
      if seen then false else checkLines (identities.contains (idValue line)) true lines
    else checkLines matched seen lines

theorem checkLines_seen (matched : Bool) (lines : List (List UInt8)) :
    checkLines matched true lines = true ↔
      (∀ line ∈ lines, line.length ≤ 510) ∧ lines.filter isIdLine = [] ∧ matched = true := by
  induction lines with
  | nil => simp [checkLines]
  | cons line lines ih =>
    rw [checkLines, List.forall_mem_cons]
    by_cases long : 510 < line.length
    · simp [long, Nat.not_le.mpr long]
    · have short : line.length ≤ 510 := Nat.le_of_not_lt long
      cases isId : isIdLine line with
      | true => simp [long, isId]
      | false => simp [long, short, isId, ih]

theorem checkLines_iff (lines : List (List UInt8)) :
    checkLines false false lines = true ↔
      (∀ line ∈ lines, line.length ≤ 510) ∧
        ∃ line, lines.filter isIdLine = [line] ∧ idValue line ∈ identities := by
  induction lines with
  | nil => simp [checkLines]
  | cons line lines ih =>
    rw [checkLines, List.forall_mem_cons]
    by_cases long : 510 < line.length
    · simp [long, Nat.not_le.mpr long]
    · have short : line.length ≤ 510 := Nat.le_of_not_lt long
      cases isId : isIdLine line with
      | true =>
        simp only [long, short, isId, if_false, if_true, Bool.false_eq_true, checkLines_seen,
          List.filter_cons, List.contains_iff_mem, List.cons.injEq, true_and]
        constructor
        · rintro ⟨all, none_, right⟩
          exact ⟨all, line, ⟨rfl, none_⟩, right⟩
        · rintro ⟨all, _, ⟨rfl, none_⟩, right⟩
          exact ⟨all, none_, right⟩
      | false =>
        simp only [long, short, isId, if_false, Bool.false_eq_true, List.filter_cons, true_and]
        exact ih

/-! ### The buffer and the line -/

section Buffer

variable {line : List UInt8} (plain : newline ∉ line)

theorem takeWhile_idLine (value : List UInt8) :
    (ascii "ID=" ++ value).takeWhile (· ≠ carriageReturn) =
      ascii "ID=" ++ value.takeWhile (· ≠ carriageReturn) :=
  List.takeWhile_append_of_pos (by decide +kernel)

theorem take_chomp_eq_iff : (line.takeWhile (· ≠ carriageReturn)).take 3 = ascii "ID=" ↔
    isIdLine line = true := by
  have three : (ascii "ID=").length = 3 := rfl
  rw [isIdLine, List.isPrefixOf_iff_prefix, ← three, ← List.prefix_iff_eq_take.trans eq_comm]
  constructor
  · exact fun inside => inside.trans (List.takeWhile_prefix _)
  · rintro ⟨value, rfl⟩
    exact ⟨value.takeWhile (· ≠ carriageReturn), (takeWhile_idLine value).symm⟩

theorem drop_chomp (isId : isIdLine line = true) :
    (line.takeWhile (· ≠ carriageReturn)).drop 3 = idValue line := by
  rw [isIdLine, List.isPrefixOf_iff_prefix] at isId
  obtain ⟨value, rfl⟩ := isId
  rw [takeWhile_idLine]
  rfl

include plain

theorem chomp_plain (ending : List UInt8) (last : ending = [] ∨ ending = [newline]) :
    chomp (line ++ ending) = line.takeWhile (· ≠ carriageReturn) := by
  induction line with
  | nil => rcases last with rfl | rfl <;> rfl
  | cons b line ih =>
    have other : b ≠ newline := fun same => plain (by simp [same])
    have tail := ih fun member => plain (List.mem_cons_of_mem b member)
    simp only [chomp] at tail ⊢
    rw [List.cons_append, List.takeWhile_cons, List.takeWhile_cons, tail]
    simp [other]

end Buffer

/-! ### The loop -/

theorem osIdentityLoop_line {file after : TextFile} {line ending : List UInt8} (matched seen : Bool)
    (plain : newline ∉ line) (noNul : (0 : UInt8) ∉ line)
    (last : ending = [] ∧ after.eof = true ∨ ending = [newline])
    (read : file.fgets lineSize = (some (line ++ ending), after)) :
    osIdentityLoop file matched seen =
      if isIdLine line then
        if seen then false else osIdentityLoop after (identities.contains (idValue line)) true
      else osIdentityLoop after matched seen := by
  have whole : (line ++ ending).takeWhile (· ≠ 0) = line ++ ending := by
    rw [List.takeWhile_eq_self_iff]
    intro b member
    rcases List.mem_append.mp member with inside | final
    · exact decide_eq_true fun zero => noNul (zero ▸ inside)
    · rcases last with ⟨rfl, -⟩ | rfl
      · cases final
      · rw [List.mem_singleton.mp final]
        rfl
  have goesOn : ¬(newline ∉ line ++ ending ∧ after.eof = false) := by
    rcases last with ⟨-, ended⟩ | rfl
    · simp [ended]
    · simp
  have cut := chomp_plain plain ending (last.imp And.left id)
  rw [osIdentityLoop]
  split
  next found => rw [read] at found; cases found
  next found =>
    rw [read] at found
    cases found
    simp only [whole, if_neg goesOn, cut, take_chomp_eq_iff]
    split
    next isId => rw [drop_chomp isId]
    · rfl

theorem osIdentityLoop_long {file after : TextFile} {line : List UInt8} (matched seen : Bool)
    (plain : newline ∉ line) (more : after.eof = false)
    (read : file.fgets lineSize = (some line, after)) : osIdentityLoop file matched seen = false := by
  have stops : newline ∉ line.takeWhile (· ≠ 0) ∧ after.eof = false :=
    ⟨fun member => plain (List.takeWhile_subset _ member), more⟩
  rw [osIdentityLoop]
  split
  next found => rw [read] at found; cases found
  next found =>
    rw [read] at found
    cases found
    exact if_pos stops

theorem osIdentityLoop_done {file after : TextFile} (matched seen : Bool)
    (read : file.fgets lineSize = (none, after)) :
    osIdentityLoop file matched seen = (!after.error && matched) := by
  rw [osIdentityLoop]
  split
  next found =>
    rw [read] at found
    cases found
    rfl
  next found => rw [read] at found; cases found

theorem osIdentityLoop_end (eof matched seen : Bool) :
    osIdentityLoop ⟨[], false, eof, false⟩ matched seen = matched := by
  have read : TextFile.fgets ⟨[], false, eof, false⟩ lineSize =
      (none, ⟨[], false, eof || true, false⟩) := rfl
  rw [osIdentityLoop_done matched seen read]
  rfl

theorem lt_lineSize {n : Nat} (short : ¬510 < n) : n + 1 < lineSize :=
  Nat.lt_succ_of_le (Nat.succ_le_succ (Nat.le_of_not_lt short))

/-- Reading the file with `fgets` is going through its lines. -/
theorem osIdentityLoop_eq (contents : List UInt8) (noNul : (0 : UInt8) ∉ contents)
    (matched seen : Bool) :
    osIdentityLoop (.opened contents false) matched seen =
      checkLines matched seen (contents.splitOn newline) := by
  induction total : contents.length using Nat.strongRecOn generalizing contents matched seen with
  | ind size ih =>
    by_cases member : newline ∈ contents
    · obtain ⟨line, rest, rfl, plain⟩ := List.eq_append_cons_of_mem member
      have noNul₁ : (0 : UInt8) ∉ line := fun zero => noNul (List.mem_append_left _ zero)
      have noNul₂ : (0 : UInt8) ∉ rest := fun zero =>
        noNul (List.mem_append_right _ (List.mem_cons_of_mem _ zero))
      rw [List.splitOn_append_cons_self_of_not_mem plain, checkLines]
      split
      next long =>
        have read := TextFile.fgets_full plain (Nat.succ_le_succ long) (newline :: rest)
        exact osIdentityLoop_long matched seen (fun inside => plain (List.mem_of_mem_take inside)) rfl read
      next short =>
        have read := TextFile.fgets_line plain (lt_lineSize short) rest
        have shorter : rest.length < size := by
          rw [← total, List.length_append, List.length_cons]
          omega
        rw [osIdentityLoop_line matched seen plain noNul₁ (Or.inr rfl) read,
          ih _ shorter rest noNul₂ _ _ rfl, ih _ shorter rest noNul₂ _ _ rfl]
    · rw [List.splitOn_eq_singleton member, checkLines]
      split
      next long =>
        have read := TextFile.fgets_full member (Nat.succ_le_succ long) []
        rw [List.append_nil, List.append_nil] at read
        exact osIdentityLoop_long matched seen (fun inside => member (List.mem_of_mem_take inside)) rfl read
      next short =>
        -- Behind a newline at the end of the file there is an empty line, which is never read.
        by_cases empty : contents = []
        · subst empty
          exact osIdentityLoop_end false matched seen
        · have read := TextFile.fgets_last member (lt_lineSize short) empty
          rw [← List.append_nil contents] at read
          rw [← List.append_nil contents,
            osIdentityLoop_line matched seen member noNul (Or.inl ⟨rfl, rfl⟩) read]
          simp only [osIdentityLoop_end, checkLines, List.append_nil]

/-- A file that is read without an error is recognised exactly when it names this system. With any
other one Bash runs without a virtual machine only if the command line says so. -/
theorem osIdentity_iff (contents : CString) :
    (osIdentity (.opened contents.1 false) = true ↔ Identifies contents.1) ∧
    (¬Identifies contents.1 → ∀ words o arguments,
      main (osIdentity (.opened contents.1 false)) words = .host o arguments → o.mode = .host) := by
  have exact_ : osIdentity (.opened contents.1 false) = true ↔ Identifies contents.1 := by
    rw [osIdentity, osIdentityLoop_eq contents.1 contents.2, checkLines_iff]
    simp only [mem_identities_iff]
    exact ⟨fun ⟨short, one⟩ => ⟨short, one⟩, fun identifies => ⟨identifies.short, identifies.one⟩⟩
  refine ⟨exact_, fun other words o arguments hosted => ?_⟩
  have notInstalled := mt exact_.mp other
  unfold main at hosted
  split at hosted
  · cases hosted
  next o' rest ran =>
    split at hosted
    · cases hosted
    · split at hosted
      · cases hosted
      next stays =>
        cases hosted
        cases chosen : o.mode with
        | host => rfl
        | sandbox => exact absurd (Or.inl chosen) stays
        | unset => exact absurd (Or.inr (Or.inr ⟨chosen, notInstalled⟩)) stays

-- Quotes and a carriage return are accepted, a second line is not.
example : osIdentity (.opened (ascii "NAME=x\nID='linux-bash-os'\r\n") false) = true ∧
    osIdentity (.opened (ascii "ID=linux-bash-os\nID=linux-bash-os") false) = false := by
  decide +kernel

/-- The loader takes the system for its own exactly when the first of the two files that can be
opened is trusted and recognised. -/
theorem sandboxInstalledOs_iff (opens : String → Option Opened) :
    sandboxInstalledOs opens = true ↔
      ∃ o, (opens "/etc/os-release" <|> opens "/usr/lib/os-release") = some o ∧
        trusted o.stat = true ∧ o.fdopen = true ∧ osIdentity o.file = true := by
  rw [sandboxInstalledOs, osReleasePaths, installedLoop]
  rcases opens "/etc/os-release" with _ | first
  · rw [installedLoop]
    rcases opens "/usr/lib/os-release" with _ | second
    · simp [installedLoop]
    · simp [and_assoc]
  · simp [and_assoc]

end LashOs.Launch
