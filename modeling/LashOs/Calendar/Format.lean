import LashOs.Base.FormatString

/-!
# Formatting a calendar time

`format_calendar` renders a time of the guest with the host's `strftime`. The name of the time
zone is the guest's own, so every directive `%Z` is replaced by that name, quoted, before the
format is rendered. The new format is built in a buffer of a fixed capacity; a byte stored
behind it is a result of its own here.
-/
namespace LashOs.Calendar

open Base Base.Format

/-- `struct bridge_calendar` -/
structure BridgeCalendar where
  sec : Int
  min : Int
  hour : Int
  mday : Int
  mon : Int
  year : Int
  wday : Int
  yday : Int
  isdst : Int
  gmtoff : Int
  deriving DecidableEq, Repr

/-- `struct tm` -/
structure Tm where
  sec : Int
  min : Int
  hour : Int
  mday : Int
  mon : Int
  year : Int
  wday : Int
  yday : Int
  isdst : Int
  gmtoff : Int
  zone : Option CString

def native (value : BridgeCalendar) (zone : Option CString) : Tm :=
  { sec := value.sec, min := value.min, hour := value.hour, mday := value.mday, mon := value.mon,
    year := value.year, wday := value.wday, yday := value.yday, isdst := value.isdst,
    gmtoff := value.gmtoff, zone := zone }

/-- What the host's library makes of one directive. -/
structure Libc where
  conversion : Tm → List UInt8 → List UInt8
  doubled : ∀ tm, conversion tm [percent, percent] = [percent]

/-- `strftime`: the text that is stored, if it fits together with its NUL. -/
def Libc.strftime (libc : Libc) (size : Nat) (format : List UInt8) (tm : Tm) : Option (List UInt8) :=
  if (render (libc.conversion tm) format).length + 1 ≤ size then
    some (render (libc.conversion tm) format)
  else none

/-- `SIZE_MAX` -/
def sizeMax : Nat := 18446744073709551615

/-- `toupper` -/
def toupper (b : UInt8) : UInt8 := if 97 ≤ b && b ≤ 122 then b - 32 else b

/-- The byte `Z`. -/
def zoneLetter : UInt8 := 90

structure Flags where
  pad : UInt8 := 32
  noPad : Bool := false
  uppercase : Bool := false
  deriving DecidableEq, Repr

def Flags.read (f : Flags) (b : UInt8) : Flags :=
  let f := if b = 45 then { f with noPad := true } else f
  let f := if b = 95 || b = 48 then { f with noPad := false, pad := if b = 48 then 48 else 32 } else f
  if b = 94 || b = 35 then { f with uppercase := true } else f

def flagsLoop : Flags → List UInt8 → Flags × List UInt8
  | f, [] => (f, [])
  | f, b :: source => if isFlag b then flagsLoop (f.read b) source else (f, b :: source)

/-- The width stays at the size from where it would pass it. -/
def widthLoop (size : Nat) : Nat → List UInt8 → Nat × List UInt8
  | width, [] => (width, [])
  | width, b :: source =>
    if Decimal.isDigit b then
      if Decimal.digit b ≥ size ∨ width > (size - Decimal.digit b) / 10 then widthLoop size size source
      else widthLoop size (width * 10 + Decimal.digit b) source
    else (width, b :: source)

inductive Stop where
  -- A byte would be stored behind the buffer.
  | outside
  -- `goto fail`
  | fail
  deriving DecidableEq, Repr

def store (capacity : Nat) (expanded bytes : List UInt8) : Except Stop (List UInt8) :=
  if expanded.length + bytes.length ≤ capacity then .ok (expanded ++ bytes) else .error .outside

/-- The loop over the bytes of the name. -/
def copyName (capacity : Nat) (uppercase : Bool) :
    List UInt8 → List UInt8 → Except Stop (List UInt8)
  | [], expanded => .ok expanded
  | b :: name, expanded =>
    if expanded.length + 2 ≥ capacity then .error .fail
    else do
      let expanded ← if b = percent then store capacity expanded [percent] else .ok expanded
      let expanded ← store capacity expanded [if uppercase then toupper b else b]
      copyName capacity uppercase name expanded

def paddingBytes (flags : Flags) (width nameLength : Nat) : Nat :=
  if flags.noPad = false ∧ width > nameLength then width - nameLength else 0

/-- The name in place of a directive `%Z`. -/
def insertZone (size capacity : Nat) (name : List UInt8) (flags : Flags) (width : Nat)
    (expanded : List UInt8) : Except Stop (List UInt8) :=
  let padding := paddingBytes flags width name.length
  if name.length ≥ size ∨ padding ≥ size - name.length ∨ padding ≥ capacity - expanded.length then
    .error .fail
  else do
    let expanded ← store capacity expanded (List.replicate padding flags.pad)
    copyName capacity flags.uppercase name expanded

/-- A directive that is kept: the bytes from its percent sign to `rest`. -/
def copyDirective (capacity : Nat) (source rest expanded : List UInt8) : Except Stop (List UInt8) :=
  let text := percent :: source.take (source.length - rest.length)
  if text.length ≥ capacity - expanded.length then .error .fail
  else store capacity expanded text

theorem flagsLoop_length_le (f : Flags) (source : List UInt8) :
    (flagsLoop f source).2.length ≤ source.length := by
  induction source generalizing f with
  | nil => exact Nat.le_refl 0
  | cons b source ih =>
    rw [flagsLoop]
    split
    · exact Nat.le_succ_of_le (ih _)
    · exact Nat.le_refl _

theorem widthLoop_length_le (size width : Nat) (source : List UInt8) :
    (widthLoop size width source).2.length ≤ source.length := by
  induction source generalizing width with
  | nil => exact Nat.le_refl 0
  | cons b source ih =>
    rw [widthLoop]
    split
    · split
      · exact Nat.le_succ_of_le (ih _)
      · exact Nat.le_succ_of_le (ih _)
    · exact Nat.le_refl _

theorem directive_length_lt (size : Nat) (start : UInt8) (source : List UInt8) :
    (widthLoop size 0 (flagsLoop {} source).2).2.tail.length < (start :: source).length := by
  have flags := flagsLoop_length_le {} source
  have width := widthLoop_length_le size 0 (flagsLoop {} source).2
  rw [List.length_tail, List.length_cons]
  omega

/-- The loop over the format. -/
def expand (size capacity : Nat) (name : List UInt8) : List UInt8 → List UInt8 → Except Stop (List UInt8)
  | [], expanded => .ok expanded
  | start :: source, expanded =>
    if start ≠ percent then
      if expanded.length + 1 ≥ capacity then .error .fail
      else do
        let expanded ← store capacity expanded [start]
        expand size capacity name source expanded
    else
      let flags := flagsLoop {} source
      let width := widthLoop size 0 flags.2
      if width.2.head? ≠ some zoneLetter then do
        let expanded ← copyDirective capacity source width.2.tail expanded
        expand size capacity name width.2.tail expanded
      else do
        let expanded ← insertZone size capacity name flags.1 width.1 expanded
        expand size capacity name width.2.tail expanded
termination_by source => source.length
decreasing_by
  · exact Nat.lt_succ_self _
  · exact directive_length_lt size start source
  · exact directive_length_lt size start source

/-- The name that stands for `%Z`. -/
def zoneName (value : BridgeCalendar) (zone : Option CString) : List UInt8 :=
  match zone with
  | some name => if value.isdst ≥ 0 then name.1 else []
  | none => []

/-- What a call comes to: a text, which is stored and whose length is returned, or none and 0. -/
inductive Outcome where
  -- A byte was stored behind the temporary buffer.
  | outside
  | done (stored : Option (List UInt8))
  deriving DecidableEq, Repr

def Outcome.returned : Outcome → Nat
  | outside => 0
  | done stored => (stored.getD []).length

/-- `allocated` tells whether `malloc` gives the temporary buffer. -/
def formatCalendar (libc : Libc) (allocated : Bool) (size : Nat) (format : CString)
    (value : BridgeCalendar) (zone : Option CString) : Outcome :=
  if size = 0 then .done none
  else if zoneLetter ∉ format.1 then .done (libc.strftime size format.1 (native value zone))
  else if size > (sizeMax - format.length - 1) / 2 then .done none
  else if !allocated then .done none
  else
    let capacity := format.length + 2 * size + 1
    -- The NUL is stored behind the last byte.
    match expand size capacity (zoneName value zone) format.1 [] >>= (store capacity · [0]) with
    | .error .outside => .outside
    | .error .fail => .done none
    | .ok expanded => .done (libc.strftime size expanded.dropLast (native value zone))

end LashOs.Calendar
