import LashOs.Base.CString
import LashOs.Base.Decimal

/-!
# Format strings

A format is text with directives in it: a percent sign, flags, a width, perhaps a modifier,
and the byte that ends the directive. A format is rendered from left to right. What one
directive becomes is a parameter; a part of a format is `Closed` when it is rendered the same
whatever stands behind it, so that the renderings of closed parts are put together.
-/
namespace Base

namespace Format

def percent : UInt8 := 37

def isFlag (b : UInt8) : Bool := (ascii "_-0^#").contains b

/-- `E` and `O` stand before the letter of a directive. -/
def isModifier (b : UInt8) : Bool := (ascii "EO").contains b

def isLetter (b : UInt8) : Bool := (65 ≤ b && b ≤ 90) || (97 ≤ b && b ≤ 122)

/-- The part of a directive that is being read. -/
inductive Phase where
  | flags | width | modified
  deriving DecidableEq, Repr

/-- The phase after one more byte, unless the byte ends the directive. -/
def Phase.next : Phase → UInt8 → Option Phase
  | .flags, b =>
    if isFlag b then some .flags
    else if Decimal.isDigit b then some .width
    else if isModifier b then some .modified
    else none
  | .width, b =>
    if Decimal.isDigit b then some .width
    else if isModifier b then some .modified
    else none
  | .modified, _ => none

/-- Renders a format, perhaps from the middle of a directive of which the start was read. -/
def renderFrom (conversion : List UInt8 → List UInt8) :
    Option (Phase × List UInt8) → List UInt8 → List UInt8
  | none, [] => []
  | some (_, start), [] => conversion start
  | none, b :: rest =>
    if b = percent then renderFrom conversion (some (.flags, [percent])) rest
    else b :: renderFrom conversion none rest
  | some (phase, start), b :: rest =>
    match phase.next b with
    | some phase => renderFrom conversion (some (phase, start ++ [b])) rest
    | none => conversion (start ++ [b]) ++ renderFrom conversion none rest

def render (conversion : List UInt8 → List UInt8) (format : List UInt8) : List UInt8 :=
  renderFrom conversion none format

/-- A directive without a modifier. A zero in front of the width is a flag. -/
structure Directive where
  flags : List UInt8
  digits : List UInt8
  letter : UInt8
  flags_only : ∀ b ∈ flags, isFlag b = true
  digits_only : ∀ b ∈ digits, Decimal.isDigit b = true
  no_zero : digits.head? ≠ some 48
  ends : isLetter letter = true ∧ isModifier letter = false ∨ letter = percent

namespace Directive

/-- The directive behind its percent sign. -/
def body (d : Directive) : List UInt8 := d.flags ++ d.digits ++ [d.letter]

def text (d : Directive) : List UInt8 := percent :: d.body

def width (d : Directive) : Nat := Decimal.value d.digits

end Directive

/-- The last of some flags that is among those of a directive. -/
def lastOf (among flags : List UInt8) : Option UInt8 := (flags.filter among.contains).getLast?

theorem lastOf_append_singleton (among flags : List UInt8) (b : UInt8) :
    lastOf among (flags ++ [b]) = if b ∈ among then some b else lastOf among flags := by
  by_cases member : b ∈ among <;> simp [lastOf, List.filter_append, member]

/-- A part of a format. -/
inductive Token where
  | plain (b : UInt8) (not_percent : b ≠ percent) (nonzero : b ≠ 0)
  | directive (d : Directive)

namespace Token

def text : Token → List UInt8
  | plain b _ _ => [b]
  | directive d => d.text

end Token

/-- The format that is made of some parts. -/
def textOf (tokens : List Token) : List UInt8 := tokens.flatMap Token.text

@[simp] theorem textOf_cons (token : Token) (tokens : List Token) :
    textOf (token :: tokens) = token.text ++ textOf tokens := rfl

/-! ### The bytes of a directive -/

theorem isFlag_iff {b : UInt8} : isFlag b = true ↔ b ∈ ascii "_-0^#" := List.contains_iff_mem

/-- Every byte that a flag may be differs from what `p` admits, so no flag is admitted. -/
theorem isFlag_eq_false {p : UInt8 → Bool} (excluded : ∀ b ∈ ascii "_-0^#", p b = false) {b : UInt8}
    (admitted : p b = true) : isFlag b = false := by
  apply Bool.eq_false_iff.mpr
  intro flag
  rw [excluded b (isFlag_iff.mp flag)] at admitted
  cases admitted

theorem letter_not_flag {b : UInt8} (letter : isLetter b = true) : isFlag b = false :=
  isFlag_eq_false (p := isLetter) (by decide +kernel) letter

/-- A digit that is a flag too is a zero. -/
theorem digit_not_flag {b : UInt8} (digit : Decimal.isDigit b = true) (nonzero : b ≠ 48) :
    isFlag b = false :=
  isFlag_eq_false (p := fun b => Decimal.isDigit b && b != 48) (by decide +kernel)
    (by simp [digit, nonzero])

theorem letter_not_digit {b : UInt8} (letter : isLetter b = true) : Decimal.isDigit b = false := by
  simp only [isLetter, Bool.or_eq_true, Bool.and_eq_true, decide_eq_true_eq, UInt8.le_iff_toNat_le,
    UInt8.reduceToNat] at letter
  simp only [Decimal.isDigit, Bool.and_eq_false_iff, decide_eq_false_iff_not, UInt8.le_iff_toNat_le,
    UInt8.reduceToNat]
  omega

namespace Directive

variable (d : Directive)

theorem letter_ends : isFlag d.letter = false ∧ Decimal.isDigit d.letter = false ∧
    isModifier d.letter = false := by
  rcases d.ends with ⟨letter, unmodified⟩ | sign
  · exact ⟨letter_not_flag letter, letter_not_digit letter, unmodified⟩
  · rw [sign]
    decide

theorem letter_ne_zero : d.letter ≠ 0 := by
  intro zero
  rcases d.ends with ⟨letter, -⟩ | sign
  · rw [zero] at letter
    revert letter
    decide
  · rw [zero] at sign
    revert sign
    decide

theorem zero_not_mem_text : (0 : UInt8) ∉ d.text := by
  simp only [text, body, List.mem_cons, List.mem_append, List.not_mem_nil, or_false]
  rintro (sign | (flag | digit) | letter)
  · revert sign
    decide
  · exact absurd (d.flags_only 0 flag) (by decide)
  · exact absurd (d.digits_only 0 digit) (by decide)
  · exact d.letter_ne_zero letter.symm

end Directive

theorem zero_not_mem_textOf (tokens : List Token) : (0 : UInt8) ∉ textOf tokens := by
  intro member
  obtain ⟨token, -, inside⟩ := List.mem_flatMap.mp member
  cases token with
  | plain b _ nonzero => exact nonzero (List.mem_singleton.mp inside).symm
  | directive d => exact d.zero_not_mem_text inside

def cstring (tokens : List Token) : CString := ⟨textOf tokens, zero_not_mem_textOf tokens⟩

/-! ### Parts that are closed -/

section Closed

variable (conversion : List UInt8 → List UInt8)

/-- A part of a format that becomes `shown`, whatever stands behind it. -/
def Closed (part shown : List UInt8) : Prop :=
  ∀ rest, render conversion (part ++ rest) = shown ++ render conversion rest

variable {conversion}

theorem Closed.nil : Closed conversion [] [] := fun _ => rfl

theorem Closed.append {part shown part' shown' : List UInt8} (first : Closed conversion part shown)
    (second : Closed conversion part' shown') :
    Closed conversion (part ++ part') (shown ++ shown') := by
  intro rest
  rw [List.append_assoc, first, second, List.append_assoc]

theorem Closed.render_eq {part shown : List UInt8} (closed : Closed conversion part shown) :
    render conversion part = shown := by
  have all := closed []
  rwa [List.append_nil, show render conversion [] = [] from rfl, List.append_nil] at all

theorem closed_plain {b : UInt8} (plain : b ≠ percent) : Closed conversion [b] [b] := by
  intro rest
  simp only [render, List.singleton_append, renderFrom, if_neg plain]

theorem closed_plains {bytes : List UInt8} (plain : ∀ b ∈ bytes, b ≠ percent) :
    Closed conversion bytes bytes := by
  induction bytes with
  | nil => exact Closed.nil
  | cons b bytes ih =>
    exact (closed_plain (plain b List.mem_cons_self)).append
      (ih fun c member => plain c (List.mem_cons_of_mem b member))

theorem renderFrom_next {phase phase' : Phase} {b : UInt8} (goesOn : phase.next b = some phase')
    (start rest : List UInt8) :
    renderFrom conversion (some (phase, start)) (b :: rest) =
      renderFrom conversion (some (phase', start ++ [b])) rest := by
  rw [renderFrom, goesOn]

theorem renderFrom_stays {phase : Phase} {bytes : List UInt8}
    (stays : ∀ b ∈ bytes, phase.next b = some phase) (start rest : List UInt8) :
    renderFrom conversion (some (phase, start)) (bytes ++ rest) =
      renderFrom conversion (some (phase, start ++ bytes)) rest := by
  induction bytes generalizing start with
  | nil => rw [List.append_nil, List.nil_append]
  | cons b bytes ih =>
    rw [List.cons_append, renderFrom_next (stays b List.mem_cons_self)]
    rw [ih fun c member => stays c (List.mem_cons_of_mem b member)]
    rw [List.append_assoc, List.singleton_append]

theorem Phase.next_flag {b : UInt8} (flag : isFlag b = true) : Phase.flags.next b = some .flags := by
  rw [Phase.next, if_pos flag]

theorem Phase.next_digit {b : UInt8} (digit : Decimal.isDigit b = true) :
    Phase.width.next b = some .width := by
  rw [Phase.next, if_pos digit]

theorem Phase.next_first_digit {b : UInt8} (digit : Decimal.isDigit b = true) (nonzero : b ≠ 48) :
    Phase.flags.next b = some .width := by
  simp [Phase.next, digit_not_flag digit nonzero, digit]

/-- The byte that ends a directive, after its flags or after its width. -/
theorem renderFrom_letter (d : Directive) {phase : Phase} (unmodified : phase ≠ .modified)
    (start rest : List UInt8) :
    renderFrom conversion (some (phase, start)) (d.letter :: rest) =
      conversion (start ++ [d.letter]) ++ render conversion rest := by
  obtain ⟨noFlag, noDigit, noModifier⟩ := d.letter_ends
  have last : phase.next d.letter = none := by
    cases phase with
    | flags => simp [Phase.next, noFlag, noDigit, noModifier]
    | width => simp [Phase.next, noDigit, noModifier]
    | modified => exact absurd rfl unmodified
  rw [renderFrom, last, render]

theorem closed_directive (d : Directive) : Closed conversion d.text (conversion d.text) := by
  intro rest
  have start : render conversion (d.text ++ rest) =
      renderFrom conversion (some (.flags, [percent])) (d.flags ++ (d.digits ++ d.letter :: rest)) := by
    simp [render, Directive.text, Directive.body, renderFrom]
  rw [start, renderFrom_stays fun b flag => Phase.next_flag (d.flags_only b flag)]
  -- Without a width the letter is read among the flags.
  match shape : d.digits with
  | [] =>
    rw [List.nil_append, renderFrom_letter d (by decide)]
    simp [Directive.text, Directive.body, shape]
  | b :: digits =>
    have only := d.digits_only
    rw [shape] at only
    have nonzero : b ≠ 48 := fun zero => d.no_zero (by rw [shape, zero]; rfl)
    simp only [List.cons_append]
    rw [renderFrom_next (Phase.next_first_digit (only b List.mem_cons_self) nonzero)]
    rw [renderFrom_stays fun c member => Phase.next_digit (only c (List.mem_cons_of_mem b member))]
    rw [renderFrom_letter d (by decide)]
    simp [Directive.text, Directive.body, shape]

/-- What a part of a format becomes. -/
def Token.shown (conversion : List UInt8 → List UInt8) : Token → List UInt8
  | plain b _ _ => [b]
  | directive d => conversion d.text

theorem closed_token (token : Token) : Closed conversion token.text (token.shown conversion) := by
  cases token with
  | plain b plain _ => exact closed_plain plain
  | directive d => exact closed_directive d

theorem closed_textOf (tokens : List Token) :
    Closed conversion (textOf tokens) (tokens.flatMap (Token.shown conversion)) := by
  induction tokens with
  | nil => exact Closed.nil
  | cons token tokens ih => exact (closed_token token).append ih

/-! ### Quoting -/

/-- A byte as it is written to stand for itself. -/
def quote (b : UInt8) : List UInt8 := if b = percent then [percent, percent] else [b]

theorem length_quote_le (b : UInt8) : (quote b).length ≤ 2 := by
  unfold quote
  split <;> simp

theorem closed_quote (doubled : conversion [percent, percent] = [percent]) (b : UInt8) :
    Closed conversion (quote b) [b] := by
  unfold quote
  split
  next sign =>
    intro rest
    rw [sign]
    exact congrArg (· ++ render conversion rest) doubled
  next plain => exact closed_plain plain

end Closed

end Format

end Base
