import LashOs.Base.CString
import LashOs.Base.Decimal
import LashOs.Base.Path
import LashOs.Descriptors.Table
import LashOs.Guest.Memory

/-!
# Descriptor paths

`path_string_mode` of `paths_host.h`: a path that names one of the guest's descriptors is
translated to the path of the native descriptor behind it, and every other path is used as
it is.
-/
namespace LashOs.Paths

open Base Base.Path Descriptors Guest

/-- `BRIDGE_PATH_SIZE` -/
def bridgePathSize : Nat := 4096 + 32

inductive Outcome where
  -- The running number is larger than an `int`.
  | overflow
  -- A byte is stored behind the translation buffer.
  | outside
  -- The guest's own string.
  | unchanged (path : List UInt8)
  -- The string in the translation buffer.
  | translated (path : List UInt8)
  | failed (e : Errno)
  deriving DecidableEq, Repr

/-- `snprintf`: the bytes that it stores in a buffer of some size, and its value. -/
def snprintf (size : Nat) (text : List UInt8) : List UInt8 × Int :=
  (if size = 0 then [] else text.take (size - 1) ++ [0],
    if text.length < 2 ^ 31 then text.length else -1)

/-- The text of the format `/proc/self/fd/%d%s`. -/
def descriptorPath (actual : Nat) (suffix : List UInt8) : List UInt8 :=
  ascii "/proc/self/fd/" ++ ascii (toString actual) ++ suffix

/-- The end of `path_string_mode`: the descriptor is looked up and its path is printed. -/
def throughTable (h : BridgeHost) (logical : Int) (suffix : List UInt8) : Outcome :=
  match h.fd logical with
  | .error _ => .failed .ENOENT
  | .ok actual =>
    let printed := snprintf bridgePathSize (descriptorPath actual suffix)
    if printed.1.length > bridgePathSize then .outside
    else if printed.2 < 0 ∨ printed.2 ≥ bridgePathSize then .failed .ENAMETOOLONG
    -- The string ends before the NUL that was stored last.
    else .translated printed.1.dropLast

inductive Number where
  | overflow
  | tooLarge
  | stopped (logical : Nat) (suffix : List UInt8)
  deriving DecidableEq, Repr

/-- The loop over the digits, of which `b` is the next one. The sum that an `int` has to hold
is taken before the code of `0` is subtracted. -/
def numberLoop (logical : Nat) (b : UInt8) : List UInt8 → Number
  | [] =>
    if logical * 10 + b.toNat ≥ 2 ^ 31 then .overflow
    else if logical * 10 + Decimal.digit b ≥ maxFds then .tooLarge
    else .stopped (logical * 10 + Decimal.digit b) []
  | next :: rest =>
    if logical * 10 + b.toNat ≥ 2 ^ 31 then .overflow
    else if logical * 10 + Decimal.digit b ≥ maxFds then .tooLarge
    else if Decimal.isDigit next then numberLoop (logical * 10 + Decimal.digit b) next rest
    else .stopped (logical * 10 + Decimal.digit b) (next :: rest)

/-- The byte `0`. -/
def zeroDigit : UInt8 := 48

def byNumber (h : BridgeHost) (path : List UInt8) : List UInt8 → Outcome
  | [] => .unchanged path
  | b :: rest =>
    if !Decimal.isDigit b then .unchanged path
    else if b = zeroDigit ∧ rest.head?.any Decimal.isDigit then .failed .ENOENT
    else
      match numberLoop 0 b rest with
      | .overflow => .overflow
      | .tooLarge => .failed .ENOENT
      | .stopped logical suffix =>
        if suffix ≠ [] ∧ suffix.head? ≠ some slash then .unchanged path
        else throughTable h logical suffix

def aliases : List (List UInt8) := [ascii "/dev/stdin", ascii "/dev/stdout", ascii "/dev/stderr"]

/-- The loop over the aliases, from the one of the descriptor `i` on. -/
def aliasLoop (h : BridgeHost) (path : List UInt8) (followStreams : Bool) :
    Nat → List (List UInt8) → Outcome
  | _, [] => .unchanged path
  | i, name :: more =>
    match name.isPrefixOf? path with
    | none => aliasLoop h path followStreams (i + 1) more
    | some suffix =>
      if suffix = [] ∨ suffix.head? = some slash then
        if followStreams = false ∧ suffix = [] then .unchanged path else throughTable h i suffix
      else aliasLoop h path followStreams (i + 1) more

/-- What a path of the guest stands for. -/
def translate (h : BridgeHost) (path : List UInt8) (followStreams : Bool) : Outcome :=
  match (ascii "/dev/fd/").isPrefixOf? path with
  | some number => byNumber h path number
  | none =>
    match (ascii "/proc/self/fd/").isPrefixOf? path with
    | some number => byNumber h path number
    | none =>
      match (ascii "/proc/thread-self/fd/").isPrefixOf? path with
      | some number => byNumber h path number
      | none => aliasLoop h path followStreams 0 aliases

def pathStringMode (g : Memory) (h : BridgeHost) (address : UInt64) (followStreams : Bool) : Outcome :=
  match g.string address with
  | .error e => .failed e
  | .ok path => translate h path followStreams

/-! ### What a path means -/

/-- The directories in which a descriptor has the name of its number. -/
def directories : List (List UInt8) :=
  [ascii "/dev/fd/", ascii "/proc/self/fd/", ascii "/proc/thread-self/fd/"]

def Canonical (digits : List UInt8) : Prop :=
  digits ≠ [] ∧ (∀ b ∈ digits, Decimal.isDigit b = true) ∧
    (digits.head? = some zeroDigit → digits = [zeroDigit])

instance (digits : List UInt8) : Decidable (Canonical digits) := inferInstanceAs (Decidable (_ ∧ _ ∧ _))

/-- A path through one of the directories to the descriptor `n`. -/
def NamesDescriptor (path : List UInt8) (n : Fin maxFds) (suffix : List UInt8) : Prop :=
  ∃ directory ∈ directories, ∃ digits, path = directory ++ (digits ++ suffix) ∧
    Canonical digits ∧ Decimal.value digits = n ∧ IsRest suffix

/-- A path into one of the directories with a number that no descriptor has. -/
def NamesNone (path : List UInt8) : Prop :=
  ∃ directory ∈ directories, ∃ digits rest, path = directory ++ (digits ++ rest) ∧
    digits ≠ [] ∧ (∀ b ∈ digits, Decimal.isDigit b = true) ∧
    (∀ b ∈ rest.head?, Decimal.isDigit b = false) ∧
    (¬ Canonical digits ∨ maxFds ≤ Decimal.value digits)

def NamesStream (path : List UInt8) (n : Fin maxFds) (suffix : List UInt8) : Prop :=
  ∃ name, aliases[n.val]? = some name ∧ path = name ++ suffix ∧ IsRest suffix

/-- The descriptor `n` of the guest, as the table has it, with what stands behind its path. -/
def resolved (h : BridgeHost) (n : Fin maxFds) (suffix : List UInt8) : Outcome :=
  if h.fds n < 0 then .failed .ENOENT
  else if (descriptorPath (h.fds n).toNat suffix).length < bridgePathSize then
    .translated (descriptorPath (h.fds n).toNat suffix)
  else .failed .ENAMETOOLONG

/-! ### Printing -/

variable {h : BridgeHost}

theorem fd_fin (h : BridgeHost) (n : Fin maxFds) :
    h.fd (n.val : Int) = if h.fds n < 0 then .error .EBADF else .ok (h.fds n).toNat := by
  have inside : (0 : Int) ≤ (n.val : Int) ∧ (n.val : Int).toNat < maxFds := ⟨by omega, by simp⟩
  rw [BridgeHost.fd, dif_pos inside]
  rfl

theorem snprintf_fits {size : Nat} (text : List UInt8) : (snprintf size text).1.length ≤ size := by
  unfold snprintf
  dsimp only
  split
  next empty => simp [empty]
  next => simp; omega

theorem throughTable_eq (h : BridgeHost) (n : Fin maxFds) (suffix : List UInt8) :
    throughTable h (n.val : Int) suffix = resolved h n suffix := by
  unfold throughTable resolved
  rw [fd_fin]
  by_cases closed : h.fds n < 0
  · rw [if_pos closed, if_pos closed]
  rw [if_neg closed, if_neg closed]
  dsimp only
  rw [if_neg (Nat.not_lt.mpr (snprintf_fits _))]
  set text := descriptorPath (h.fds n).toNat suffix
  by_cases short : text.length < bridgePathSize
  · -- The whole text and its NUL are in the buffer.
    have value : (snprintf bridgePathSize text).2 = text.length := by
      have small : text.length < 2 ^ 31 := short.trans (by decide)
      rw [snprintf, if_pos small]
    have stored : (snprintf bridgePathSize text).1 = text ++ [0] := by
      have whole : text.length ≤ bridgePathSize - 1 := by omega
      rw [snprintf, if_neg (by decide), List.take_of_length_le whole]
    rw [value, stored, if_neg (by omega), if_pos short, List.dropLast_concat]
  · rw [if_neg short, if_pos]
    rw [snprintf]
    dsimp only
    split <;> omega

/-! ### The number -/

variable {digits rest : List UInt8}

/-- The loop reads the whole run of digits, unless the number becomes too large before. -/
theorem numberLoop_eq {logical : Nat} (small : logical < maxFds) {b : UInt8}
    (only : ∀ c ∈ b :: digits, Decimal.isDigit c = true)
    (stops : ∀ c ∈ rest.head?, Decimal.isDigit c = false) :
    numberLoop logical b (digits ++ rest) =
      if Decimal.valueFrom logical (b :: digits) < maxFds then
        .stopped (Decimal.valueFrom logical (b :: digits)) rest
      else .tooLarge := by
  -- The loop stops at `MAX_FDS`, long before an `int` is full.
  have noOverflow : ¬ logical * 10 + b.toNat ≥ 2 ^ 31 := by
    have byte := b.toNat_lt
    unfold maxFds at small
    omega
  induction digits generalizing logical b with
  | nil =>
    cases rest with
    | nil =>
      rw [List.append_nil, numberLoop, if_neg noOverflow, Decimal.valueFrom_cons, Decimal.valueFrom_nil]
      by_cases large : logical * 10 + Decimal.digit b ≥ maxFds
      · rw [if_pos large, if_neg (by omega)]
      · rw [if_neg large, if_pos (by omega)]
    | cons c rest =>
      rw [List.nil_append, numberLoop, if_neg noOverflow, Decimal.valueFrom_cons, Decimal.valueFrom_nil]
      by_cases large : logical * 10 + Decimal.digit b ≥ maxFds
      · rw [if_pos large, if_neg (by omega)]
      · rw [if_neg large, stops c rfl, if_neg Bool.false_ne_true, if_pos (by omega)]
  | cons next digits ih =>
    have digit : Decimal.isDigit next = true := only next (by simp)
    rw [List.cons_append, numberLoop, if_neg noOverflow, Decimal.valueFrom_cons]
    by_cases large : logical * 10 + Decimal.digit b ≥ maxFds
    · -- More digits do not make the number small again.
      have grows := Decimal.le_valueFrom (logical * 10 + Decimal.digit b) (next :: digits)
      rw [if_pos large, if_neg (by omega)]
    · have smaller : logical * 10 + Decimal.digit b < maxFds := by omega
      have byte := next.toNat_lt
      rw [if_neg large, if_pos digit, ih smaller (fun c member => only c (List.mem_cons_of_mem b member))]
      unfold maxFds at smaller
      omega

theorem not_canonical_iff {b : UInt8} (only : ∀ c ∈ b :: digits, Decimal.isDigit c = true)
    (stops : ∀ c ∈ rest.head?, Decimal.isDigit c = false) :
    ¬ Canonical (b :: digits) ↔
      b = zeroDigit ∧ (digits ++ rest).head?.any Decimal.isDigit = true := by
  have second : (digits ++ rest).head?.any Decimal.isDigit = true ↔ digits ≠ [] := by
    cases digits with
    | nil =>
      cases rest with
      | nil => simp
      | cons c rest => simp [stops c rfl]
    | cons c digits => simp [only c (by simp)]
  rw [second]
  constructor
  · intro bad
    by_contra fine
    refine bad ⟨List.cons_ne_nil _ _, only, fun zero => ?_⟩
    have first : b = zeroDigit := by simpa using zero
    by_cases more : digits = []
    · rw [first, more]
    · exact absurd ⟨first, more⟩ fine
  · rintro ⟨first, more⟩ ⟨-, -, alone⟩
    exact more (List.cons.inj (alone (by rw [first]; rfl))).2

/-- What a number stands for, by the run of digits at its start. -/
theorem byNumber_eq (path : List UInt8) (only : ∀ b ∈ digits, Decimal.isDigit b = true)
    (stops : ∀ b ∈ rest.head?, Decimal.isDigit b = false) :
    byNumber h path (digits ++ rest) =
      if digits = [] then .unchanged path
      else if ¬ Canonical digits then .failed .ENOENT
      else if inside : Decimal.value digits < maxFds then
        if IsRest rest then resolved h ⟨Decimal.value digits, inside⟩ rest else .unchanged path
      else .failed .ENOENT := by
  cases digits with
  | nil =>
    rw [if_pos rfl]
    cases rest with
    | nil => rfl
    | cons b rest => simp [byNumber, stops b rfl]
  | cons b digits =>
    have digit : Decimal.isDigit b = true := only b List.mem_cons_self
    rw [if_neg (List.cons_ne_nil _ _), List.cons_append, byNumber, digit, Bool.not_true,
      if_neg Bool.false_ne_true]
    -- The source refuses a leading zero before it reads on, so it never sees the value of a number
    -- that is not printed that way.
    by_cases bad : ¬ Canonical (b :: digits)
    · rw [if_pos bad, if_pos ((not_canonical_iff only stops).mp bad)]
    rw [if_neg bad, if_neg fun leading => bad ((not_canonical_iff only stops).mpr leading)]
    rw [numberLoop_eq (by decide) only stops, ← Decimal.value]
    by_cases inside : Decimal.value (b :: digits) < maxFds
    · rw [dif_pos inside, if_pos inside]
      dsimp only
      by_cases isRest : IsRest rest
      · rw [if_pos isRest, if_neg fun more => isRest.elim more.1 more.2]
        exact throughTable_eq h ⟨Decimal.value (b :: digits), inside⟩ rest
      · rw [if_neg isRest, if_pos (not_or.mp isRest)]
    · rw [dif_neg inside, if_neg inside]

/-! ### The whole path -/

theorem isPrefixOf?_append (base rest : List UInt8) : base.isPrefixOf? (base ++ rest) = some rest :=
  List.isPrefixOf?_eq_some_iff_append_eq.mpr rfl

theorem isPrefixOf?_eq_none {base path : List UInt8} (differs : ∀ rest, path ≠ base ++ rest) :
    base.isPrefixOf? path = none := by
  cases found : base.isPrefixOf? path with
  | none => rfl
  | some rest =>
    exact absurd (List.isPrefixOf?_eq_some_iff_append_eq.mp found).symm (differs rest)

theorem translate_directory {directory : List UInt8} (known : directory ∈ directories)
    (number : List UInt8) (follow : Bool) :
    translate h (directory ++ number) follow = byNumber h (directory ++ number) number := by
  simp only [directories, List.mem_cons, List.not_mem_nil, or_false] at known
  unfold translate
  rcases known with rfl | rfl | rfl
  · rw [isPrefixOf?_append]
  · rw [show (ascii "/dev/fd/").isPrefixOf? (ascii "/proc/self/fd/" ++ number) = none from rfl,
      isPrefixOf?_append]
  · rw [show (ascii "/dev/fd/").isPrefixOf? (ascii "/proc/thread-self/fd/" ++ number) = none from rfl,
      show (ascii "/proc/self/fd/").isPrefixOf? (ascii "/proc/thread-self/fd/" ++ number) = none from rfl,
      isPrefixOf?_append]

variable {path : List UInt8}

theorem translate_other (other : ∀ directory ∈ directories, ∀ number, path ≠ directory ++ number)
    (follow : Bool) : translate h path follow = aliasLoop h path follow 0 aliases := by
  -- What is left are the aliases.
  unfold translate
  rw [isPrefixOf?_eq_none (other (ascii "/dev/fd/") (by simp [directories])),
    isPrefixOf?_eq_none (other (ascii "/proc/self/fd/") (by simp [directories])),
    isPrefixOf?_eq_none (other (ascii "/proc/thread-self/fd/") (by simp [directories]))]

variable {more : List (List UInt8)}

theorem aliasLoop_here {i : Nat} {name suffix : List UInt8}
    (isRest : IsRest suffix) (follow : Bool) :
    aliasLoop h (name ++ suffix) follow i (name :: more) =
      if follow = false ∧ suffix = [] then .unchanged (name ++ suffix) else throughTable h i suffix := by
  rw [aliasLoop, isPrefixOf?_append]
  exact if_pos isRest

theorem aliasLoop_next {i : Nat} {name path : List UInt8} (differs : name.isPrefixOf? path = none)
    (follow : Bool) :
    aliasLoop h path follow i (name :: more) = aliasLoop h path follow (i + 1) more := by
  rw [aliasLoop, differs]

theorem translate_stream {n : Fin maxFds} {name suffix : List UInt8}
    (known : aliases[n.val]? = some name) (isRest : IsRest suffix) (follow : Bool) :
    translate h (name ++ suffix) follow =
      if follow = false ∧ suffix = [] then .unchanged (name ++ suffix) else resolved h n suffix := by
  rw [← throughTable_eq]
  obtain ⟨i, inside⟩ := n
  match i, inside, known with
  | 0, _, known =>
    cases known
    have start : translate h (ascii "/dev/stdin" ++ suffix) follow =
      aliasLoop h (ascii "/dev/stdin" ++ suffix) follow 0 aliases := rfl
    rw [start, aliases, aliasLoop_here isRest]
  | 1, _, known =>
    cases known
    have start : translate h (ascii "/dev/stdout" ++ suffix) follow =
      aliasLoop h (ascii "/dev/stdout" ++ suffix) follow 0 aliases := rfl
    rw [start, aliases, aliasLoop_next rfl, aliasLoop_here isRest]
  | 2, _, known =>
    cases known
    have start : translate h (ascii "/dev/stderr" ++ suffix) follow =
      aliasLoop h (ascii "/dev/stderr" ++ suffix) follow 0 aliases := rfl
    rw [start, aliases, aliasLoop_next rfl, aliasLoop_next rfl, aliasLoop_here isRest]
  | i + 3, _, known => cases known

theorem aliasLoop_unchanged (i : Nat)
    (other : ∀ name ∈ more, ∀ suffix, path = name ++ suffix → ¬ IsRest suffix) (follow : Bool) :
    aliasLoop h path follow i more = .unchanged path := by
  induction more generalizing i with
  | nil => rfl
  | cons name more ih =>
    have rest := ih (i + 1) fun name member => other name (List.mem_cons_of_mem _ member)
    rw [aliasLoop]
    split
    · exact rest
    next suffix found =>
      have starts := (List.isPrefixOf?_eq_some_iff_append_eq.mp found).symm
      have noRest := other name List.mem_cons_self suffix starts
      exact (if_neg noRest).trans rest

/-! ### The four kinds of paths -/

theorem translate_namesDescriptor {path suffix : List UInt8} {n : Fin maxFds}
    (names : NamesDescriptor path n suffix) (follow : Bool) :
    translate h path follow = resolved h n suffix := by
  obtain ⟨directory, known, digits, rfl, canonical, value, isRest⟩ := names
  have stops : ∀ b ∈ suffix.head?, Decimal.isDigit b = false := by
    intro b first
    rcases isRest with rfl | more
    · cases first
    · rw [more] at first
      cases first
      decide
  have inside : Decimal.value digits < maxFds := value ▸ n.isLt
  rw [translate_directory known, byNumber_eq _ canonical.2.1 stops, if_neg canonical.1,
    if_neg (not_not.mpr canonical), dif_pos inside, if_pos isRest]
  exact congrArg (resolved h · suffix) (Fin.ext value)

theorem translate_namesNone (names : NamesNone path) (follow : Bool) :
    translate h path follow = .failed .ENOENT := by
  obtain ⟨directory, known, digits, rest, rfl, some_, only, stops, bad⟩ := names
  rw [translate_directory known, byNumber_eq _ only stops, if_neg some_]
  by_cases canonical : Canonical digits
  · have large := bad.resolve_left (not_not.mpr canonical)
    rw [if_neg (not_not.mpr canonical), dif_neg (by omega)]
  · rw [if_pos canonical]

theorem translate_namesStream {path suffix : List UInt8} {n : Fin maxFds}
    (names : NamesStream path n suffix) (follow : Bool) :
    translate h path follow =
      if follow = false ∧ suffix = [] then .unchanged path else resolved h n suffix := by
  obtain ⟨name, known, rfl, isRest⟩ := names
  exact translate_stream known isRest follow

theorem translate_unchanged (descriptor : ∀ n suffix, ¬ NamesDescriptor path n suffix)
    (none_ : ¬ NamesNone path) (stream : ∀ n suffix, ¬ NamesStream path n suffix) (follow : Bool) :
    translate h path follow = .unchanged path := by
  by_cases inDirectory : ∃ directory ∈ directories, ∃ number, path = directory ++ number
  · obtain ⟨directory, known, number, rfl⟩ := inDirectory
    -- The number is its run of digits and what stands behind that.
    have only : ∀ b ∈ number.takeWhile Decimal.isDigit, Decimal.isDigit b = true :=
      fun b member => List.mem_takeWhile_imp member
    have stops : ∀ b ∈ (number.dropWhile Decimal.isDigit).head?, Decimal.isDigit b = false := by
      intro b first
      have found := List.head?_dropWhile_not Decimal.isDigit number
      rwa [Option.mem_def.mp first] at found
    have whole := List.takeWhile_append_dropWhile (p := Decimal.isDigit) (l := number)
    rw [translate_directory known]
    rw [← whole] at descriptor none_ ⊢
    rw [byNumber_eq _ only stops]
    set digits := number.takeWhile Decimal.isDigit
    set rest := number.dropWhile Decimal.isDigit
    by_cases empty : digits = []
    · rw [if_pos empty]
    have canonical : Canonical digits := by
      by_contra bad
      exact none_ ⟨directory, known, digits, rest, rfl, empty, only, stops, Or.inl bad⟩
    have inside : Decimal.value digits < maxFds := by
      by_contra large
      exact none_ ⟨directory, known, digits, rest, rfl, empty, only, stops, Or.inr (by omega)⟩
    have noRest : ¬ IsRest rest := fun isRest =>
      descriptor ⟨_, inside⟩ rest ⟨directory, known, digits, rfl, canonical, rfl, isRest⟩
    rw [if_neg empty, if_neg (not_not.mpr canonical), dif_pos inside, if_neg noRest]
  · rw [translate_other fun directory known number same => inDirectory ⟨directory, known, number, same⟩]
    refine aliasLoop_unchanged 0 (fun name member suffix starts isRest => ?_) follow
    obtain ⟨i, found⟩ := List.mem_iff_getElem?.mp member
    have few : i < aliases.length := (List.getElem?_eq_some_iff.mp found).1
    exact stream ⟨i, few.trans (by decide)⟩ suffix ⟨name, found, starts, isRest⟩

/-- The running number and the buffer are large enough. -/
def Outcome.Sound (r : Outcome) : Prop := r ≠ .overflow ∧ r ≠ .outside

theorem resolved_sound (h : BridgeHost) (n : Fin maxFds) (suffix : List UInt8) :
    (resolved h n suffix).Sound := by
  unfold resolved
  split
  · exact ⟨nofun, nofun⟩
  · split
    · exact ⟨nofun, nofun⟩
    · exact ⟨nofun, nofun⟩

theorem translate_sound (h : BridgeHost) (path : List UInt8) (follow : Bool) :
    (translate h path follow).Sound := by
  by_cases descriptor : ∃ n suffix, NamesDescriptor path n suffix
  · obtain ⟨n, suffix, names⟩ := descriptor
    rw [translate_namesDescriptor names]
    exact resolved_sound h n suffix
  by_cases none_ : NamesNone path
  · rw [translate_namesNone none_]
    exact ⟨nofun, nofun⟩
  by_cases stream : ∃ n suffix, NamesStream path n suffix
  · obtain ⟨n, suffix, names⟩ := stream
    rw [translate_namesStream names]
    split
    · exact ⟨nofun, nofun⟩
    · exact resolved_sound h n suffix
  rw [translate_unchanged (fun n suffix names => descriptor ⟨n, suffix, names⟩) none_
    fun n suffix names => stream ⟨n, suffix, names⟩]
  exact ⟨nofun, nofun⟩

theorem pathStringMode_ok {g : Memory} {address : UInt64} (read : g.string address = .ok path)
    (h : BridgeHost) (follow : Bool) :
    pathStringMode g h address follow = translate h path follow := by
  unfold pathStringMode
  generalize g.string address = result at read
  rw [read]

theorem pathStringMode_error {g : Memory} {address : UInt64} {e : Errno}
    (refused : g.string address = .error e) (h : BridgeHost) (follow : Bool) :
    pathStringMode g h address follow = .failed e := by
  unfold pathStringMode
  generalize g.string address = result at refused
  rw [refused]

/-- The path at an address of the guest is resolved against the guest's own descriptors, and it
is used as it is if it names none. Without a path at the address the error is that of `string`. -/
theorem pathStringMode_resolves (g : Memory) (h : BridgeHost) (address : UInt64) (follow : Bool) :
    (∀ path, g.string address = .ok path →
      (∀ n suffix, NamesDescriptor path n suffix →
        pathStringMode g h address follow = resolved h n suffix) ∧
      (NamesNone path → pathStringMode g h address follow = .failed .ENOENT) ∧
      (∀ n suffix, NamesStream path n suffix → pathStringMode g h address follow =
        if follow = false ∧ suffix = [] then .unchanged path else resolved h n suffix) ∧
      ((∀ n suffix, ¬ NamesDescriptor path n suffix) → ¬ NamesNone path →
        (∀ n suffix, ¬ NamesStream path n suffix) →
        pathStringMode g h address follow = .unchanged path)) ∧
    (∀ e, g.string address = .error e → pathStringMode g h address follow = .failed e) ∧
    pathStringMode g h address follow ≠ .overflow ∧ pathStringMode g h address follow ≠ .outside := by
  refine ⟨fun path read => ?_, fun e refused => pathStringMode_error refused h follow, ?_⟩
  · rw [pathStringMode_ok read h follow]
    exact ⟨fun n suffix names => translate_namesDescriptor names follow,
      fun names => translate_namesNone names follow,
      fun n suffix names => translate_namesStream names follow,
      fun descriptor none_ stream => translate_unchanged descriptor none_ stream follow⟩
  · cases result : g.string address with
    | error e =>
      rw [pathStringMode_error result h follow]
      exact ⟨nofun, nofun⟩
    | ok path =>
      rw [pathStringMode_ok result h follow]
      exact translate_sound h path follow

/-! ### Two paths -/

theorem mebibyte_fits : (0 : UInt64).toNat + (1048576 : UInt64).toNat ≤ 2 ^ 64 := by decide

def bytesMemory (byte : Nat → UInt8) : Memory :=
  ⟨0, 1048576, 0, 0, fun address => byte (address.toNat - 4096), mebibyte_fits, noImage_fits,
    zero_guardFits⟩

def oneOpen : BridgeHost :=
  ⟨fun n => if n.val = 3 then 300 else -1, fun _ => none, fun _ => -1, Fds.empty, []⟩

/-- `/dev/fd/3/a` in the guest's memory. -/
def descriptorMemory : Memory := bytesMemory fun i => (ascii "/dev/fd/3/a").getD i 0

theorem three_named : Decimal.value (ascii "3") = 3 := by decide

/-- The third descriptor of the guest is the native descriptor 300. -/
theorem descriptorMemory_resolved :
    pathStringMode descriptorMemory oneOpen 4096 true = .translated (ascii "/proc/self/fd/300/a") :=
  (((pathStringMode_resolves descriptorMemory oneOpen 4096 true).1 (ascii "/dev/fd/3/a")
    (by decide +kernel)).1 ⟨3, by decide⟩ (ascii "/a")
    ⟨ascii "/dev/fd/", by decide, ascii "3", by decide, by decide +kernel, three_named, by decide⟩).trans
    (by decide +kernel)

def longMemory : Memory := bytesMemory fun i => if i < 4096 then 97 else 0

theorem bytes_bytesMemory (byte : Nat → UInt8) {count : Nat} (small : count ≤ 8192) :
    (bytesMemory byte).bytes 4096 count = (List.range count).map byte := by
  refine List.map_congr_left fun i member => ?_
  have below : i < count := List.mem_range.mp member
  have offset : (4096 + UInt64.ofNat i).toNat - 4096 = i := by
    rw [UInt64.toNat_add, UInt64.toNat_ofNat']
    simp only [UInt64.reduceToNat]
    omega
  exact congrArg byte offset

theorem longMemory_bytes : longMemory.bytes 4096 4096 = List.replicate 4096 97 := by
  rw [longMemory, bytes_bytesMemory _ (by omega)]
  refine List.eq_replicate_iff.mpr ⟨by rw [List.length_map, List.length_range], fun b member => ?_⟩
  obtain ⟨i, inside, rfl⟩ := List.mem_map.mp member
  exact if_pos (List.mem_range.mp inside)

theorem longMemory_terminated : longMemory.bytes 4096 4097 = List.replicate 4096 97 ++ [0] := by
  have front := longMemory_bytes
  rw [longMemory, bytes_bytesMemory _ (by omega)] at front ⊢
  rw [List.range_succ, List.map_append, front]
  rfl

/-- A path that names no descriptor is refused if it and its NUL are longer than a page. -/
theorem longMemory_refused :
    longMemory.bytes 4096 4097 = List.replicate 4096 97 ++ [0] ∧
    4097 ≤ (longMemory.available 4096).toNat ∧
    pathStringMode longMemory oneOpen 4096 true = .failed .ENAMETOOLONG := by
  have left : longMemory.available 4096 = 1044480 := by decide +kernel
  have none_ : longMemory.terminated 4096 4096 = none := by
    rw [Memory.terminated, longMemory_bytes, if_neg]
    rw [List.mem_replicate]
    exact fun zero => absurd zero.2 (by decide)
  have refused : longMemory.string 4096 = .error .ENAMETOOLONG := by
    unfold Memory.string
    rw [left]
    dsimp only
    rw [if_neg (by decide), show min (1044480 : UInt64).toNat 4096 = 4096 from by decide, none_]
  exact ⟨longMemory_terminated, by rw [left]; decide, pathStringMode_error refused _ _⟩

end LashOs.Paths
