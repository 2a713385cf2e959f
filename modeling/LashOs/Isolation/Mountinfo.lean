import LashOs.Base.CString
import LashOs.Base.Path

/-!
# The mount table

How `mount_reachable` of `sandbox_host.c` reads `/proc/self/mountinfo`: lines, words
separated by spaces, numbers, and octal escapes in the two paths. A line that does not parse
makes the whole table unusable.
-/
namespace LashOs.Isolation

open Base

/-- `struct sb_mount` -/
structure Mount where
  id : Nat
  device : List UInt8
  root : List UInt8
  point : List UInt8
  deriving DecidableEq, Repr

/-! ### Lines and words -/

/-- The lines that `getline` returns, without their newlines; `current` is the line that was
begun, backwards. -/
def linesFrom (current : List UInt8) : List UInt8 → List (List UInt8)
  | [] => if current = [] then [] else [current.reverse]
  | b :: rest => if b = 10 then current.reverse :: linesFrom [] rest else linesFrom (b :: current) rest

def lines (contents : List UInt8) : List (List UInt8) := linesFrom [] contents

/-- `strtok_r` with a space: the next word and what follows its delimiter. -/
def strtok (text : List UInt8) : Option (List UInt8 × List UInt8) :=
  let word := text.dropWhile (· == 32)
  if word = [] then none
  else some (word.takeWhile (· != 32), (word.dropWhile (· != 32)).drop 1)

def isDigit (b : UInt8) : Bool := decide (48 ≤ b.toNat ∧ b.toNat ≤ 57)

/-- `isspace` -/
def isSpace (b : UInt8) : Bool := decide (b.toNat = 32 ∨ 9 ≤ b.toNat ∧ b.toNat ≤ 13)

/-- `strtoul(text, &end, 10)`: the number and what `end` points to. -/
def strtoul (text : List UInt8) : Nat × List UInt8 :=
  let body := text.dropWhile isSpace
  let negative := body.head? = some 45
  let number := if negative ∨ body.head? = some 43 then body.tail else body
  let digits := number.takeWhile isDigit
  if digits = [] then (0, text)
  else
    let n := digits.foldl (fun n b => n * 10 + (b.toNat - 48)) 0
    (if n ≥ 2 ^ 64 then 2 ^ 64 - 1 else if negative then (2 ^ 64 - n) % 2 ^ 64 else n,
      number.dropWhile isDigit)

/-! ### Escapes -/

def octal (a b c : UInt8) : Option Nat :=
  if [a, b, c].all fun d => decide (48 ≤ d.toNat ∧ d.toNat ≤ 55) then
    some (((a.toNat - 48) * 8 + (b.toNat - 48)) * 8 + (c.toNat - 48))
  else none

def mountinfoUnescape : List UInt8 → Option (List UInt8)
  | [] => some []
  | 92 :: a :: b :: c :: rest =>
    match octal a b c with
    | some value =>
      if value = 0 ∨ value > 255 then none
      else (mountinfoUnescape rest).map (UInt8.ofNat value :: ·)
    | none => none
  | b :: rest => if b = 92 then none else (mountinfoUnescape rest).map (b :: ·)

/-! ### The table -/

def parseMount (line : List UInt8) : Option Mount := do
  let (id, rest) ← strtok line
  let (_parent, rest) ← strtok rest
  let (device, rest) ← strtok rest
  let (root, rest) ← strtok rest
  let (point, _) ← strtok rest
  if device.length ≥ 32 ∨ (strtoul id).2 ≠ [] then none
  else
    let root ← mountinfoUnescape root
    let point ← mountinfoUnescape point
    some { id := (strtoul id).1, device, root, point }

/-- The whole file. A line ends at its first NUL too. -/
def parseTable (contents : List UInt8) : Option (List Mount) :=
  (lines contents).mapM fun line => parseMount (line.takeWhile (· != 0))

theorem strtok_ne_nil {text word rest : List UInt8} (found : strtok text = some (word, rest)) :
    word ≠ [] := by
  simp only [strtok] at found
  split at found
  · cases found
  next more =>
    have first := List.head_dropWhile_not (· == 32) more
    cases shape : text.dropWhile (· == 32) with
    | nil => exact absurd shape more
    | cons b after =>
      simp only [shape, List.head_cons] at first
      have kept : (b != 32) = true := by simp [bne, first]
      simp only [shape, Option.some.injEq, Prod.mk.injEq, List.takeWhile_cons, kept, if_true] at found
      rw [← found.1]
      exact List.cons_ne_nil _ _

theorem mountinfoUnescape_ne_nil {text out : List UInt8} (nonempty : text ≠ [])
    (unescaped : mountinfoUnescape text = some out) : out ≠ [] := by
  -- Every step that goes on writes a byte.
  have writes : ∀ (b : UInt8) (rest : Option (List UInt8)), rest.map (b :: ·) = some out → out ≠ [] := by
    intro b rest mapped
    obtain ⟨tail, _, rfl⟩ := Option.map_eq_some_iff.mp mapped
    exact List.cons_ne_nil _ _
  unfold mountinfoUnescape at unescaped
  split at unescaped
  · exact absurd rfl nonempty
  · split at unescaped
    · split at unescaped
      · cases unescaped
      · exact writes _ _ unescaped
    · cases unescaped
  · split at unescaped
    · cases unescaped
    · exact writes _ _ unescaped

theorem parseMount_ne_nil {line : List UInt8} {m : Mount} (parsed : parseMount line = some m) :
    m.root ≠ [] ∧ m.point ≠ [] := by
  simp only [parseMount, Option.bind_eq_bind, Option.bind_eq_some_iff, Prod.exists] at parsed
  obtain ⟨_, _, _, _, _, _, _, _, _, word, _, foundRoot, _, _, foundPoint, rest⟩ := parsed
  split at rest
  · cases rest
  · simp only [Option.bind_eq_some_iff] at rest
    obtain ⟨root, unescapedRoot, point, unescapedPoint, built⟩ := rest
    cases built
    exact ⟨mountinfoUnescape_ne_nil (strtok_ne_nil foundRoot) unescapedRoot,
      mountinfoUnescape_ne_nil (strtok_ne_nil foundPoint) unescapedPoint⟩

theorem parseTable_ne_nil {contents : List UInt8} {mounts : List Mount}
    (parsed : parseTable contents = some mounts) : ∀ m ∈ mounts, m.root ≠ [] ∧ m.point ≠ [] := by
  unfold parseTable at parsed
  generalize lines contents = rows at parsed
  induction rows generalizing mounts with
  | nil =>
    simp only [List.mapM_nil, Option.pure_def, Option.some.injEq] at parsed
    simp [← parsed]
  | cons row rows ih =>
    simp only [List.mapM_cons, Option.bind_eq_bind, Option.bind_eq_some_iff, Option.pure_def,
      Option.some.injEq] at parsed
    obtain ⟨first, parsedFirst, others, parsedOthers, rfl⟩ := parsed
    rintro m (_ | ⟨_, member⟩)
    · exact parseMount_ne_nil parsedFirst
    · exact ih parsedOthers m member

end LashOs.Isolation
