import LashOs.Base.CString
import LashOs.Base.Path

/-!
# The archive of the bundled machine

`build-sandbox.py` writes a header, the name and the contents of each file, and a header of
zeros at the end. `extract_bundle` of `sandbox_host.c` reads it back from a buffer; a read
outside of the buffer is `outside`.
-/
namespace LashOs.Bundle

open Base Path

/-! ### Names -/

def GoodName (name : List UInt8) : Prop :=
  name ≠ [] ∧ name ≠ ascii "." ∧ name ≠ ascii ".."

instance (name : List UInt8) : Decidable (GoodName name) := inferInstanceAs (Decidable (_ ∧ _))

/-- What `strchr` finds between the slashes. -/
def components (name : List UInt8) : List (List UInt8) := name.splitOn slash

/-- The loop of `safe_name`. -/
def safeLoop (p : List UInt8) : Bool :=
  if p = [] then true
  else
    let part := p.takeWhile (· != slash)
    let rest := p.dropWhile (· != slash)
    if part = [] ∨ part = ascii "." ∨ part = ascii ".." then false
    else if rest = [] then true
    else if rest.tail = [] then false
    else safeLoop rest.tail
termination_by p.length
decreasing_by
  have shorter := (List.dropWhile_suffix (· != slash) (l := p)).length_le
  have more : p.length ≠ 0 := by simpa using ‹¬p = []›
  simp only [List.length_tail]
  omega

def safeName (name : List UInt8) : Bool :=
  if name = [] ∨ name.head? = some slash then false else safeLoop name

/-! ### The writer -/

def regularMode : Nat := 0o600

def executableMode : Nat := 0o700

structure Entry where
  name : List UInt8
  mode : Nat
  data : List UInt8
  short : name.length ≤ 1023
  free : (0 : UInt8) ∉ name
  safe : ∀ c ∈ components name, GoodName c
  private_ : mode = regularMode ∨ mode = executableMode
  sized : data.length < 2 ^ 64

theorem regular_private : regularMode = regularMode ∨ regularMode = executableMode := .inl rfl

/-- `struct.pack("<IIQ", len(name), mode, len(data))`, the name and the data. -/
def Entry.encode (e : Entry) : List UInt8 :=
  leBytes 4 e.name.length ++ (leBytes 4 e.mode ++ (leBytes 8 e.data.length ++ (e.name ++ e.data)))

def terminator : List UInt8 := List.replicate 16 0

/-- The archive of some files, in the order in which they are written. -/
def archiveOf (entries : List Entry) : List UInt8 := entries.flatMap Entry.encode ++ terminator

/-! ### The reader -/

def sub64 (a b : Nat) : Nat := if b ≤ a then a - b else 2 ^ 64 - (b - a)

def readAt (archive : List UInt8) (pos count : Nat) : Option (List UInt8) :=
  if pos + count ≤ archive.length then some (slice archive pos count) else none

inductive Parsed where
  -- The header of zeros at the very end.
  | finished
  | file (name : List UInt8) (mode : Nat) (data : List UInt8) (next : Nat)
  | malformed
  | outside
  deriving DecidableEq, Repr

/-- One turn of the loop of `extract_bundle`, without the count of the entries. -/
def parseEntry (archive : List UInt8) (pos : Nat) : Parsed :=
  let size := archive.length
  if sub64 size pos < 16 then .malformed
  else
    match readAt archive pos 16 with
    | none => .outside
    | some header =>
      let namesize := leValue (slice header 0 4)
      let mode := leValue (slice header 4 4)
      let bytes := leValue (slice header 8 8)
      let pos := pos + 16
      if namesize = 0 ∧ mode = 0 ∧ bytes = 0 ∧ pos = size then .finished
      else if namesize = 0 ∨ namesize > 1023 ∨ namesize > sub64 size pos ∨
          bytes > sub64 (sub64 size pos) namesize ∨ (mode ≠ regularMode ∧ mode ≠ executableMode) then
        .malformed
      else
        match readAt archive pos namesize with
        | none => .outside
        | some name =>
          if (0 : UInt8) ∈ name ∨ safeName name = false then .malformed
          else
            match readAt archive (pos + namesize) bytes with
            | none => .outside
            | some data => .file name mode data (pos + namesize + bytes)

/-! ### Names that are accepted -/

theorem components_cases (p : List UInt8) :
    let part := p.takeWhile (· != slash)
    let rest := p.dropWhile (· != slash)
    (rest = [] ∧ components p = [part]) ∨
      (rest = slash :: rest.tail ∧ components p = part :: components rest.tail) := by
  intro part rest
  have free : slash ∉ part := by
    intro member
    simpa using List.mem_takeWhile_imp member
  have whole : part ++ rest = p := List.takeWhile_append_dropWhile
  by_cases empty : rest = []
  · left
    refine ⟨empty, ?_⟩
    rw [empty, List.append_nil] at whole
    rw [components, ← whole, List.splitOn_eq_singleton free]
  · right
    have first := List.head_dropWhile_not (· != slash) empty
    obtain ⟨b, after, shape⟩ := List.exists_cons_of_ne_nil empty
    have isSlash : b = slash := by simpa [rest, shape] using first
    subst isSlash
    refine ⟨by rw [shape]; rfl, ?_⟩
    rw [shape, List.tail_cons, components, ← whole, shape,
      List.splitOn_append_cons_self_of_not_mem free, components]

theorem safeLoop_iff (p : List UInt8) (more : p ≠ []) :
    safeLoop p = true ↔ ∀ c ∈ components p, GoodName c := by
  induction size : p.length using Nat.strong_induction_on generalizing p with
  | _ n ih =>
    have cases_ := components_cases p
    simp only at cases_
    rw [safeLoop, if_neg more]
    simp only
    by_cases good : GoodName (p.takeWhile (· != slash))
    · have accepted : ¬(p.takeWhile (· != slash) = [] ∨ p.takeWhile (· != slash) = ascii "." ∨
          p.takeWhile (· != slash) = ascii "..") := by
        simpa [GoodName, not_or] using good
      rw [if_neg accepted]
      rcases cases_ with ⟨last, one⟩ | ⟨shape, several⟩
      · simp [last, one, good]
      · rw [if_neg (by rw [shape]; exact List.cons_ne_nil _ _), several]
        simp only [List.forall_mem_cons, good, true_and]
        by_cases trailing : (p.dropWhile (· != slash)).tail = []
        · simp only [trailing, if_true, Bool.false_eq_true, false_iff]
          -- A slash at the end leaves an empty component.
          intro all
          exact absurd rfl (all [] (by simp [components])).1
        · rw [if_neg trailing]
          apply ih _ _ _ trailing rfl
          have shorter := (List.dropWhile_suffix (· != slash) (l := p)).length_le
          rw [shape, List.length_cons] at shorter
          omega
    · have refused : p.takeWhile (· != slash) = [] ∨ p.takeWhile (· != slash) = ascii "." ∨
          p.takeWhile (· != slash) = ascii ".." := by
        by_contra accepted
        exact good (by simpa [GoodName, not_or] using accepted)
      rw [if_pos refused]
      simp only [Bool.false_eq_true, false_iff]
      intro all
      apply good
      apply all
      rcases cases_ with ⟨_, one⟩ | ⟨_, several⟩
      · simp [one]
      · simp [several]

theorem safeName_iff (name : List UInt8) :
    safeName name = true ↔ ∀ c ∈ components name, GoodName c := by
  unfold safeName
  by_cases empty : name = []
  · subst empty
    simp [components, GoodName]
  · by_cases absolute : name.head? = some slash
    · rw [if_pos (Or.inr absolute)]
      simp only [Bool.false_eq_true, false_iff]
      intro all
      obtain ⟨b, rest, rfl⟩ := List.exists_cons_of_ne_nil empty
      obtain rfl : b = slash := by simpa using absolute
      have first : components (slash :: rest) = [] :: components rest :=
        List.splitOn_append_cons_self_of_not_mem List.not_mem_nil rest
      exact absurd rfl (all [] (by simp [first])).1
    · rw [if_neg (by simp [empty, absolute]), safeLoop_iff name empty]

/-! ### What the reader takes from the buffer -/

theorem sub64_eq {a b : Nat} (below : b ≤ a) : sub64 a b = a - b := if_pos below

theorem readAt_inside {archive : List UInt8} {pos count : Nat}
    (inside : pos + count ≤ archive.length) :
    readAt archive pos count = some ((archive.drop pos).take count) := if_pos inside

def headerOf (namesize mode bytes : Nat) : List UInt8 :=
  leBytes 4 namesize ++ (leBytes 4 mode ++ leBytes 8 bytes)

@[simp] theorem length_headerOf (namesize mode bytes : Nat) :
    (headerOf namesize mode bytes).length = 16 := by simp [headerOf]

theorem headerOf_fields (namesize mode bytes : Nat) (name : namesize < 2 ^ 32)
    (bits : mode < 2 ^ 32) (size : bytes < 2 ^ 64) :
    leValue (slice (headerOf namesize mode bytes) 0 4) = namesize ∧
    leValue (slice (headerOf namesize mode bytes) 4 4) = mode ∧
    leValue (slice (headerOf namesize mode bytes) 8 8) = bytes := by
  have last : slice (leBytes 8 bytes) 0 8 = leBytes 8 bytes := by
    rw [slice, List.drop_zero, List.take_of_length_le (by simp)]
  simp (disch := simp) only [headerOf, slice_front, slice_behind, length_leBytes, Nat.reduceSub,
    Nat.sub_self, last]
  exact ⟨leValue_leBytes 4 _ name, leValue_leBytes 4 _ bits, leValue_leBytes 8 _ size⟩

theorem eq_headerOf {header : List UInt8} (size : header.length = 16) :
    header = headerOf (leValue (slice header 0 4)) (leValue (slice header 4 4))
      (leValue (slice header 8 8)) := by
  have field : ∀ offset count, offset + count ≤ 16 →
      leBytes count (leValue (slice header offset count)) = slice header offset count := by
    intro offset count inside
    have length := length_slice header offset count (by omega)
    have back := leBytes_leValue (slice header offset count)
    rwa [length] at back
  rw [headerOf, field 0 4 (by omega), field 4 4 (by omega), field 8 8 (by omega)]
  have whole : (header.drop 8).take 8 = header.drop 8 := List.take_of_length_le (by simp [size])
  have middle : (header.drop 4).take 4 ++ header.drop 8 = header.drop 4 := by
    have split := List.take_append_drop 4 (header.drop 4)
    rwa [List.drop_drop] at split
  simp only [slice, whole, middle, List.drop_zero, List.take_append_drop]

theorem Entry.name_ne_nil (e : Entry) : e.name ≠ [] := by
  intro empty
  have safe := e.safe [] (by simp [empty, components])
  exact safe.1 rfl

theorem Entry.encode_eq (e : Entry) :
    e.encode = headerOf e.name.length e.mode e.data.length ++ (e.name ++ e.data) := by
  simp [Entry.encode, headerOf, List.append_assoc]

theorem Entry.length_encode (e : Entry) :
    e.encode.length = 16 + e.name.length + e.data.length := by
  simp [Entry.encode_eq, Nat.add_assoc]

theorem terminator_eq : terminator = headerOf 0 0 0 := by decide

section

variable {archive : List UInt8} {pos : Nat}

theorem drop_length {tail : List UInt8} (at_ : archive.drop pos = tail) (more : tail ≠ []) :
    archive.length = pos + tail.length := by
  have size := congrArg List.length at_
  have positive := List.length_pos_iff.mpr more
  rw [List.length_drop] at size
  omega

theorem parseEntry_terminator (at_ : archive.drop pos = terminator) :
    parseEntry archive pos = .finished := by
  have size : archive.length = pos + 16 := drop_length at_ (by decide)
  have header : (archive.drop pos).take 16 = headerOf 0 0 0 := by
    rw [at_, ← terminator_eq]
    rfl
  obtain ⟨first, second, third⟩ := headerOf_fields 0 0 0 (by decide) (by decide) (by decide)
  simp only [parseEntry, sub64_eq (by omega : pos ≤ archive.length),
    readAt_inside (by omega : pos + 16 ≤ archive.length), header, first, second, third]
  rw [if_neg (by omega), if_pos ⟨trivial, trivial, trivial, size.symm⟩]

/-- What the writer has written is read back. -/
theorem parseEntry_encode (e : Entry) {more : List UInt8}
    (at_ : archive.drop pos = e.encode ++ more) :
    parseEntry archive pos = .file e.name e.mode e.data (pos + e.encode.length) := by
  have nonempty := e.name_ne_nil
  have positive := List.length_pos_iff.mpr nonempty
  have short := e.short
  have size : archive.length = pos + (e.encode ++ more).length := by
    apply drop_length at_
    simp [Entry.encode_eq, nonempty]
  rw [List.length_append, e.length_encode] at size
  have bits : e.mode < 2 ^ 32 := by
    rcases e.private_ with mode | mode <;> rw [mode] <;> decide
  obtain ⟨first, second, third⟩ :=
    headerOf_fields e.name.length e.mode e.data.length (by omega) bits e.sized
  have header : (archive.drop pos).take 16 = headerOf e.name.length e.mode e.data.length := by
    rw [at_, Entry.encode_eq, List.append_assoc, List.take_left' (by simp)]
  have behind : archive.drop (pos + 16) = e.name ++ (e.data ++ more) := by
    rw [← List.drop_drop, at_, Entry.encode_eq, List.append_assoc, List.drop_left' (by simp),
      List.append_assoc]
  have name : (archive.drop (pos + 16)).take e.name.length = e.name := by
    rw [behind, List.take_left' rfl]
  have data : (archive.drop (pos + 16 + e.name.length)).take e.data.length = e.data := by
    rw [← List.drop_drop, behind, List.drop_left' rfl, List.take_left' rfl]
  have accepted : ¬((0 : UInt8) ∈ e.name ∨ safeName e.name = false) := by
    rw [not_or, Bool.not_eq_false, safeName_iff]
    exact ⟨e.free, e.safe⟩
  simp only [parseEntry, sub64_eq (by omega : pos ≤ archive.length),
    sub64_eq (by omega : pos + 16 ≤ archive.length),
    sub64_eq (by omega : e.name.length ≤ archive.length - (pos + 16)),
    readAt_inside (by omega : pos + 16 ≤ archive.length), header, first, second, third,
    readAt_inside (by omega : pos + 16 + e.name.length ≤ archive.length), name,
    readAt_inside (by omega : pos + 16 + e.name.length + e.data.length ≤ archive.length), data]
  rw [if_neg (by omega), if_neg (by omega), if_neg, if_neg accepted, e.length_encode]
  · refine congrArg (Parsed.file e.name e.mode e.data) ?_
    omega
  · have mode := e.private_
    omega

/-- A header with a good name and enough bytes behind it is the start of an entry. -/
theorem entry_at {namesize mode bytes : Nat} (small : archive.length < 2 ^ 64)
    (header : (archive.drop pos).take 16 = headerOf namesize mode bytes)
    (fits : pos + 16 + namesize + bytes ≤ archive.length) (short : namesize ≤ 1023)
    (free : (0 : UInt8) ∉ (archive.drop (pos + 16)).take namesize)
    (safe : safeName ((archive.drop (pos + 16)).take namesize) = true)
    (private_ : mode = regularMode ∨ mode = executableMode) :
    ∃ e : Entry, e.name = (archive.drop (pos + 16)).take namesize ∧ e.mode = mode ∧
      e.data = (archive.drop (pos + 16 + namesize)).take bytes ∧
      pos + 16 + namesize + bytes = pos + e.encode.length ∧
      ∃ more, archive.drop pos = e.encode ++ more := by
  have name : ((archive.drop (pos + 16)).take namesize).length = namesize := by
    simp only [List.length_take, List.length_drop]
    omega
  have data : ((archive.drop (pos + 16 + namesize)).take bytes).length = bytes := by
    simp only [List.length_take, List.length_drop]
    omega
  have sized : ((archive.drop (pos + 16 + namesize)).take bytes).length < 2 ^ 64 := by
    rw [data]
    omega
  obtain ⟨e, sameName, sameMode, sameData⟩ : ∃ e : Entry,
      e.name = (archive.drop (pos + 16)).take namesize ∧ e.mode = mode ∧
      e.data = (archive.drop (pos + 16 + namesize)).take bytes :=
    ⟨⟨_, mode, _, le_of_eq_of_le name short, free, (safeName_iff _).mp safe, private_, sized⟩,
      rfl, rfl, rfl⟩
  refine ⟨e, sameName, sameMode, sameData, ?_, archive.drop (pos + 16 + namesize + bytes), ?_⟩
  · rw [e.length_encode, sameName, sameData, name, data]
    omega
  · -- The header, the name, the data and what follows are the whole rest of the buffer.
    rw [e.encode_eq, sameName, sameMode, sameData, name, data, ← header, List.append_assoc,
      List.append_assoc, ← List.drop_drop (i := bytes), List.take_append_drop,
      ← List.drop_drop (i := namesize), List.take_append_drop, ← List.drop_drop (i := 16),
      List.take_append_drop]

theorem room_of_parse (entry : parseEntry archive pos ≠ .malformed) :
    ¬ sub64 archive.length pos < 16 := by
  intro short
  exact entry (by rw [parseEntry, if_pos short])

def Parsed.Sound (archive : List UInt8) (pos : Nat) : Parsed → Prop
  | .finished => archive.drop pos = terminator
  | .file name mode data next => ∃ e : Entry, e.name = name ∧ e.mode = mode ∧ e.data = data ∧
      next = pos + e.encode.length ∧ ∃ more, archive.drop pos = e.encode ++ more
  | .malformed => True
  | .outside => False

theorem parseEntry_sound (small : archive.length < 2 ^ 64) (inside : pos ≤ archive.length) :
    (parseEntry archive pos).Sound archive pos := by
  unfold parseEntry
  dsimp only
  rw [sub64_eq inside]
  -- The checks in the order of the source, each with what it rules out.
  by_cases room : archive.length - pos < 16
  · rw [if_pos room]
    trivial
  rw [if_neg room, readAt_inside (by omega : pos + 16 ≤ archive.length)]
  dsimp only
  have sixteen : ((archive.drop pos).take 16).length = 16 := by
    simp only [List.length_take, List.length_drop]
    omega
  have header := eq_headerOf sixteen
  generalize leValue (slice ((archive.drop pos).take 16) 0 4) = namesize at *
  generalize leValue (slice ((archive.drop pos).take 16) 4 4) = mode at *
  generalize leValue (slice ((archive.drop pos).take 16) 8 8) = bytes at *
  by_cases zero : namesize = 0 ∧ mode = 0 ∧ bytes = 0 ∧ pos + 16 = archive.length
  · rw [if_pos zero]
    obtain ⟨rfl, rfl, rfl, last⟩ := zero
    unfold Parsed.Sound
    rw [terminator_eq, ← header, List.take_of_length_le]
    rw [List.length_drop]
    omega
  rw [if_neg zero, sub64_eq (by omega : pos + 16 ≤ archive.length)]
  by_cases refused : namesize = 0 ∨ namesize > 1023 ∨ namesize > archive.length - (pos + 16) ∨
      bytes > sub64 (archive.length - (pos + 16)) namesize ∨ (mode ≠ regularMode ∧ mode ≠ executableMode)
  · rw [if_pos refused]
    trivial
  rw [if_neg refused]
  simp only [not_or, not_and, Decidable.not_not, Nat.not_lt] at refused
  obtain ⟨_, shortName, fitsName, fitsData, goodMode⟩ := refused
  rw [sub64_eq fitsName] at fitsData
  rw [readAt_inside (by omega : pos + 16 + namesize ≤ archive.length)]
  simp only
  by_cases named : (0 : UInt8) ∈ (archive.drop (pos + 16)).take namesize ∨
      safeName ((archive.drop (pos + 16)).take namesize) = false
  · rw [if_pos named]
    trivial
  rw [if_neg named, readAt_inside (by omega : pos + 16 + namesize + bytes ≤ archive.length)]
  simp only [not_or, Bool.not_eq_false] at named
  exact entry_at small header (by omega) shortName named.1 named.2
    (or_iff_not_imp_left.mpr goodMode)

end

end LashOs.Bundle
