import LashOs.Base.Run
import LashOs.Calendar.Format

/-!
# What a calendar time looks like

The rendering that a format of the guest means: every directive `%Z` is the name of the zone
with its padding, and everything else is what the host's library makes of it.
`format_calendar` gives exactly this rendering. Its loop is followed part by part: what is in
the buffer so far is a closed format that renders to the parts that were read, and the bytes
in the buffer are paid for by the format and, twice, by what the zone adds to the rendering.
-/
namespace LashOs.Calendar

open Base Base.Format

/-! ### The meaning of a format -/

/-- `-` is in force unless another flag of padding follows it. -/
def unpadded (flags : List UInt8) : Bool := lastOf (ascii "-_0") flags == some 45

def padOf (flags : List UInt8) : UInt8 := if lastOf (ascii "_0") flags = some 48 then 48 else 32

def uppercased (flags : List UInt8) : Bool := flags.any (ascii "^#").contains

def shownByte (flags : List UInt8) (b : UInt8) : UInt8 := if uppercased flags then toupper b else b

def paddingOf (d : Directive) (name : List UInt8) : Nat :=
  if unpadded d.flags then 0 else d.width - name.length

def zoneText (d : Directive) (name : List UInt8) : List UInt8 :=
  List.replicate (paddingOf d name) (padOf d.flags) ++ name.map (shownByte d.flags)

section

variable (libc : Libc) (value : BridgeCalendar) (zone : Option CString)

def rendered : Token → List UInt8
  | .plain b _ _ => [b]
  | .directive d =>
    if d.letter = zoneLetter then zoneText d (zoneName value zone)
    else libc.conversion (native value zone) d.text

def rendering (tokens : List Token) : List UInt8 := tokens.flatMap (rendered libc value zone)

end

@[simp] theorem length_zoneText (d : Directive) (name : List UInt8) :
    (zoneText d name).length = paddingOf d name + name.length := by
  simp [zoneText]

/-! ### Flags and width -/

/-- The flags that the loop has read, as the flags of the directive say. -/
def flagsOf (flags : List UInt8) : Flags := ⟨padOf flags, unpadded flags, uppercased flags⟩

theorem read_flagsOf (flags : List UInt8) {b : UInt8} (flag : isFlag b = true) :
    (flagsOf flags).read b = flagsOf (flags ++ [b]) := by
  have five : b = 95 ∨ b = 45 ∨ b = 48 ∨ b = 94 ∨ b = 35 := by
    simpa [ascii] using isFlag_iff.mp flag
  simp only [flagsOf, padOf, unpadded, uppercased, lastOf_append_singleton, List.any_append]
  rcases five with rfl | rfl | rfl | rfl | rfl <;> simp [Flags.read, ascii]

theorem flagsLoop_append {flags : List UInt8} (only : ∀ b ∈ flags, isFlag b = true)
    (before : List UInt8) {rest : List UInt8} (stops : ∀ b ∈ rest.head?, isFlag b = false) :
    flagsLoop (flagsOf before) (flags ++ rest) = (flagsOf (before ++ flags), rest) := by
  induction flags generalizing before with
  | nil =>
    cases rest with
    | nil => simp [flagsLoop]
    | cons b rest => simp [flagsLoop, stops b rfl]
  | cons b flags ih =>
    have flag : isFlag b = true := only b List.mem_cons_self
    rw [List.cons_append, flagsLoop, if_pos flag, read_flagsOf before flag]
    rw [ih (fun c member => only c (List.mem_cons_of_mem b member)) (before ++ [b])]
    rw [List.append_assoc, List.singleton_append]

theorem widthLoop_digit {size : Nat} (width : Nat) {b : UInt8} (digit : Decimal.isDigit b = true)
    (source : List UInt8) :
    widthLoop size width (b :: source) =
      widthLoop size (min size (width * 10 + Decimal.digit b)) source := by
  rw [widthLoop, if_pos digit]
  split
  next guard =>
    rw [Nat.min_eq_left (by omega)]
  next guard =>
    rw [Nat.min_eq_right (by omega)]

theorem widthLoop_append (size : Nat) {digits : List UInt8}
    (only : ∀ b ∈ digits, Decimal.isDigit b = true) (n : Nat) {rest : List UInt8}
    (stops : ∀ b ∈ rest.head?, Decimal.isDigit b = false) :
    widthLoop size (min size n) (digits ++ rest) = (min size (Decimal.valueFrom n digits), rest) := by
  induction digits generalizing n with
  | nil =>
    cases rest with
    | nil => simp [widthLoop]
    | cons b rest => simp [widthLoop, stops b rfl]
  | cons b digits ih =>
    rw [List.cons_append, widthLoop_digit _ (only b List.mem_cons_self), Decimal.min_valueFrom]
    rw [ih fun c member => only c (List.mem_cons_of_mem b member)]
    rw [Decimal.valueFrom_cons]

theorem flags_stop (d : Directive) (rest : List UInt8) :
    ∀ b ∈ (d.digits ++ d.letter :: rest).head?, isFlag b = false := by
  intro b first
  match shape : d.digits with
  | [] =>
    rw [shape] at first
    cases first
    exact d.letter_ends.1
  | c :: digits =>
    rw [shape] at first
    cases first
    have digit : Decimal.isDigit b = true := d.digits_only b (by rw [shape]; exact List.mem_cons_self)
    exact digit_not_flag digit fun zero => d.no_zero (by rw [shape, zero]; rfl)

theorem flagsLoop_directive (d : Directive) (rest : List UInt8) :
    flagsLoop {} (d.body ++ rest) = (flagsOf d.flags, d.digits ++ d.letter :: rest) := by
  have read := flagsLoop_append d.flags_only [] (flags_stop d rest)
  rw [Directive.body, List.append_assoc, List.append_assoc]
  exact read

theorem widthLoop_directive (size : Nat) (d : Directive) (rest : List UInt8) :
    widthLoop size 0 (d.digits ++ d.letter :: rest) = (min size d.width, d.letter :: rest) := by
  have stops : ∀ b ∈ (d.letter :: rest).head?, Decimal.isDigit b = false := by
    intro b first
    cases first
    exact d.letter_ends.2.1
  have read := widthLoop_append size d.digits_only 0 stops
  rwa [Nat.min_zero] at read

/-! ### The name in the buffer -/

theorem store_of_le {capacity : Nat} {expanded bytes : List UInt8}
    (fits : expanded.length + bytes.length ≤ capacity) :
    store capacity expanded bytes = .ok (expanded ++ bytes) := if_pos fits

theorem toupper_eq_percent {b : UInt8} : toupper b = percent ↔ b = percent := by
  unfold toupper
  split
  next lower =>
    simp only [Bool.and_eq_true, decide_eq_true_eq, UInt8.le_iff_toNat_le, UInt8.reduceToNat] at lower
    simp only [← UInt8.toNat_inj, UInt8.toNat_sub, percent, UInt8.reduceToNat]
    omega
  next => exact Iff.rfl

theorem padOf_ne_percent (flags : List UInt8) : padOf flags ≠ percent := by
  unfold padOf
  split <;> decide

theorem copyName_cons {capacity : Nat} (flags : List UInt8) (b : UInt8) (name expanded : List UInt8)
    (room : expanded.length + 2 < capacity) :
    copyName capacity (uppercased flags) (b :: name) expanded =
      copyName capacity (uppercased flags) name (expanded ++ quote (shownByte flags b)) := by
  -- Upper case neither makes nor removes a percent sign, so it does not matter that the source
  -- looks at the byte before it is converted.
  have sign : shownByte flags b = percent ↔ b = percent := by
    unfold shownByte
    split
    · exact toupper_eq_percent
    · exact Iff.rfl
  have room' : expanded.length + 1 ≤ capacity := by omega
  rw [copyName, if_neg (by omega)]
  by_cases special : b = percent
  · have two : (expanded ++ [percent]).length + [shownByte flags b].length ≤ capacity := by
      simp only [List.length_append, List.length_singleton]
      omega
    rw [if_pos special, store_of_le room', ← shownByte]
    simp only [ok_bind]
    rw [store_of_le two, quote, if_pos (sign.mpr special), sign.mpr special, List.append_assoc]
    rfl
  · rw [if_neg special, ← shownByte]
    simp only [ok_bind]
    rw [store_of_le room', quote, if_neg fun shown => special (sign.mp shown)]
    rfl

def quotedName (flags name : List UInt8) : List UInt8 := (name.map (shownByte flags)).flatMap quote

/-- The loop over the name stores it quoted, or two bytes a byte of it are too many. -/
theorem copyName_spec {capacity : Nat} (flags name expanded : List UInt8)
    (inside : expanded.length < capacity) :
    (copyName capacity (uppercased flags) name expanded = .error .fail ∧
      capacity ≤ expanded.length + 2 * name.length) ∨
    (copyName capacity (uppercased flags) name expanded = .ok (expanded ++ quotedName flags name) ∧
      (expanded ++ quotedName flags name).length < capacity) := by
  induction name generalizing expanded with
  | nil =>
    right
    rw [quotedName, List.map_nil, List.flatMap_nil, List.append_nil]
    exact ⟨rfl, inside⟩
  | cons b name ih =>
    -- The source wants room for two bytes before each byte of the name, percent sign or not: a
    -- refusal only shows that two for every byte are too many.
    by_cases room : expanded.length + 2 < capacity
    · have short := length_quote_le (shownByte flags b)
      have longer : (expanded ++ quote (shownByte flags b)).length ≤ expanded.length + 2 := by
        rw [List.length_append]
        omega
      rw [copyName_cons flags b name expanded room]
      rcases ih _ (Nat.lt_of_le_of_lt longer room) with ⟨failed, full⟩ | ⟨copied, within⟩
      · left
        refine ⟨failed, ?_⟩
        rw [List.length_cons]
        omega
      · right
        rw [List.append_assoc] at copied within
        exact ⟨copied, within⟩
    · left
      refine ⟨?_, by rw [List.length_cons]; omega⟩
      rw [copyName, if_pos (by omega)]

/-- A directive `%Z` as it stands in the buffer. -/
def quotedZone (d : Directive) (name : List UInt8) : List UInt8 :=
  List.replicate (paddingOf d name) (padOf d.flags) ++ quotedName d.flags name

theorem length_quotedName_le (flags name : List UInt8) :
    (quotedName flags name).length ≤ 2 * name.length := by
  induction name with
  | nil => exact Nat.le_refl 0
  | cons b name ih =>
    have short := length_quote_le (shownByte flags b)
    have split : quotedName flags (b :: name) = quote (shownByte flags b) ++ quotedName flags name := rfl
    rw [split, List.length_append, List.length_cons]
    omega

theorem length_quotedZone_le (d : Directive) (name : List UInt8) :
    (quotedZone d name).length ≤ 2 * (zoneText d name).length := by
  have short := length_quotedName_le d.flags name
  rw [quotedZone, List.length_append, List.length_replicate, length_zoneText]
  omega

variable {conversion : List UInt8 → List UInt8}

theorem closed_quotedName (doubled : conversion [percent, percent] = [percent])
    (flags name : List UInt8) :
    Closed conversion (quotedName flags name) (name.map (shownByte flags)) := by
  induction name with
  | nil => exact Closed.nil
  | cons b name ih => exact (closed_quote doubled (shownByte flags b)).append ih

theorem closed_quotedZone (doubled : conversion [percent, percent] = [percent]) (d : Directive)
    (name : List UInt8) : Closed conversion (quotedZone d name) (zoneText d name) := by
  refine Closed.append (closed_plains fun b member => ?_) (closed_quotedName doubled d.flags name)
  rw [List.eq_of_mem_replicate member]
  exact padOf_ne_percent d.flags

theorem paddingBytes_le (size : Nat) (d : Directive) (name : List UInt8) :
    paddingBytes (flagsOf d.flags) (min size d.width) name.length ≤ paddingOf d name := by
  unfold paddingBytes paddingOf flagsOf
  cases unpadded d.flags with
  | true => simp
  | false =>
    simp only [true_and, Bool.false_eq_true, if_false]
    split <;> omega

theorem paddingBytes_eq (size : Nat) (d : Directive) (name : List UInt8)
    (small : paddingBytes (flagsOf d.flags) (min size d.width) name.length < size - name.length) :
    paddingBytes (flagsOf d.flags) (min size d.width) name.length = paddingOf d name := by
  revert small
  unfold paddingBytes paddingOf flagsOf
  cases unpadded d.flags with
  | true => simp
  | false =>
    simp only [true_and, Bool.false_eq_true, if_false]
    split <;> omega

/-- The name is stored with its padding, or it alone does not fit, or twice its length is more
than the buffer has left. -/
theorem insertZone_spec {size capacity : Nat} (d : Directive) (name expanded : List UInt8)
    (inside : expanded.length < capacity) :
    (insertZone size capacity name (flagsOf d.flags) (min size d.width) expanded = .error .fail ∧
      (size ≤ (zoneText d name).length ∨
        capacity ≤ expanded.length + 2 * (zoneText d name).length)) ∨
    (insertZone size capacity name (flagsOf d.flags) (min size d.width) expanded =
        .ok (expanded ++ quotedZone d name) ∧
      (expanded ++ quotedZone d name).length < capacity) := by
  rw [length_zoneText]
  have less := paddingBytes_le size d name
  have same := paddingBytes_eq size d name
  -- The width was cut at the size. Where that changes the padding, the padding alone reaches the
  -- size, and the first guard refuses it.
  set padding := paddingBytes (flagsOf d.flags) (min size d.width) name.length with computed
  unfold insertZone
  dsimp only
  rw [← computed]
  split
  next guard =>
    left
    refine ⟨rfl, ?_⟩
    omega
  next guard =>
    simp only [not_or, ge_iff_le, not_le] at guard
    obtain ⟨-, small, room⟩ := guard
    have fits : expanded.length + (List.replicate padding (padOf d.flags)).length < capacity := by
      rw [List.length_replicate]
      omega
    have padded : (expanded ++ List.replicate padding (padOf d.flags)).length < capacity := by
      rwa [List.length_append]
    rw [show (flagsOf d.flags).pad = padOf d.flags from rfl, store_of_le (Nat.le_of_lt fits), ok_bind]
    rw [show (flagsOf d.flags).uppercase = uppercased d.flags from rfl]
    rcases copyName_spec d.flags name _ padded with ⟨failed, full⟩ | ⟨copied, within⟩
    · left
      refine ⟨failed, Or.inr ?_⟩
      rw [List.length_append, List.length_replicate] at full
      omega
    · right
      rw [List.append_assoc, same small, ← quotedZone] at within
      rw [List.append_assoc] at copied
      refine ⟨copied.trans ?_, within⟩
      rw [same small, quotedZone]

/-! ### The loop over the format -/

section Loop

variable {size capacity : Nat} {name expanded rest : List UInt8}

theorem expand_plain {b : UInt8} (plain : b ≠ percent) (room : expanded.length + 1 < capacity) :
    expand size capacity name (b :: rest) expanded = expand size capacity name rest (expanded ++ [b]) := by
  rw [expand, if_pos plain, if_neg (by omega), store_of_le (Nat.le_of_lt room), ok_bind]

theorem expand_plain_full {b : UInt8} (plain : b ≠ percent) (full : capacity ≤ expanded.length + 1) :
    expand size capacity name (b :: rest) expanded = .error .fail := by
  rw [expand, if_pos plain, if_pos full]

theorem expand_directive (d : Directive) :
    expand size capacity name (d.text ++ rest) expanded =
      (if d.letter ≠ zoneLetter then
        copyDirective capacity (d.body ++ rest) rest expanded
      else insertZone size capacity name (flagsOf d.flags) (min size d.width) expanded) >>=
        expand size capacity name rest := by
  rw [Directive.text, List.cons_append, expand, if_neg (not_not.mpr rfl)]
  dsimp only
  rw [flagsLoop_directive, widthLoop_directive]
  simp only [List.head?_cons, List.tail_cons, ne_eq, Option.some.injEq]
  split <;> rfl

theorem copyDirective_eq (d : Directive) :
    copyDirective capacity (d.body ++ rest) rest expanded =
      if d.text.length ≥ capacity - expanded.length then .error .fail
      else store capacity expanded d.text := by
  have taken : (d.body ++ rest).take ((d.body ++ rest).length - rest.length) = d.body := by
    rw [List.length_append, Nat.add_sub_cancel, List.take_left]
  rw [copyDirective, taken, Directive.text]

end Loop

section Run

variable (libc : Libc) (value : BridgeCalendar) (zone : Option CString) (size length : Nat)

/-- What is in the buffer while `remaining` is left of a format of some length: a closed format
for what is shown so far, of which `added` bytes come from the zone. -/
structure Progress (remaining expanded shown : List UInt8) (added : Nat) : Prop where
  closed : Closed (libc.conversion (native value zone)) expanded shown
  added_le : added ≤ shown.length
  paid : expanded.length + remaining.length ≤ length + 2 * added
  inside : expanded.length < length + 2 * size + 1

/-- The loop over a part of the format: it goes on with the rendering of the part, or it fails
and the rendering does not fit. -/
def Advances (token : Token) (remaining expanded shown : List UInt8) : Prop :=
  (∃ expanded' added',
    expand size (length + 2 * size + 1) (zoneName value zone) (token.text ++ remaining) expanded =
      expand size (length + 2 * size + 1) (zoneName value zone) remaining expanded' ∧
    Progress libc value zone size length remaining expanded'
      (shown ++ rendered libc value zone token) added') ∨
  (expand size (length + 2 * size + 1) (zoneName value zone) (token.text ++ remaining) expanded =
      .error .fail ∧
    size ≤ (shown ++ rendered libc value zone token).length)

variable {libc value zone size length} {remaining expanded shown : List UInt8} {added : Nat}

theorem advances_plain {b : UInt8} (plain : b ≠ percent) (nonzero : b ≠ 0)
    (progress : Progress libc value zone size length ([b] ++ remaining) expanded shown added) :
    Advances libc value zone size length (.plain b plain nonzero) remaining expanded shown := by
  obtain ⟨closed, added_le, paid, inside⟩ := progress
  rw [List.length_append, List.length_singleton] at paid
  by_cases room : expanded.length + 1 < length + 2 * size + 1
  · left
    refine ⟨expanded ++ [b], added, expand_plain plain room, closed.append (closed_plain plain), ?_, ?_, ?_⟩
    · rw [List.length_append]
      omega
    · rw [List.length_append, List.length_singleton]
      omega
    · rw [List.length_append, List.length_singleton]
      exact room
  · right
    -- The format is paid for by the capacity. A buffer that is full all the same holds more than
    -- twice the size from zones, so what they show does not fit.
    refine ⟨expand_plain_full plain (by omega), ?_⟩
    rw [List.length_append]
    omega

theorem advances_directive (d : Directive) (other : d.letter ≠ zoneLetter)
    (progress : Progress libc value zone size length (d.text ++ remaining) expanded shown added) :
    Advances libc value zone size length (.directive d) remaining expanded shown := by
  obtain ⟨closed, added_le, paid, inside⟩ := progress
  have kept : rendered libc value zone (.directive d) = libc.conversion (native value zone) d.text :=
    if_neg other
  rw [List.length_append] at paid
  unfold Advances
  rw [kept, Token.text, expand_directive, if_pos other, copyDirective_eq]
  by_cases room : expanded.length + d.text.length < length + 2 * size + 1
  · left
    refine ⟨expanded ++ d.text, added, ?_, closed.append (closed_directive d), ?_, ?_, ?_⟩
    · rw [if_neg (by omega), store_of_le (Nat.le_of_lt room), ok_bind]
    · rw [List.length_append]
      omega
    · rw [List.length_append]
      omega
    · rw [List.length_append]
      exact room
  · right
    constructor
    · rw [if_pos (by omega), error_bind]
    · rw [List.length_append]
      omega

theorem advances_zone (d : Directive) (isZone : d.letter = zoneLetter)
    (progress : Progress libc value zone size length (d.text ++ remaining) expanded shown added) :
    Advances libc value zone size length (.directive d) remaining expanded shown := by
  obtain ⟨closed, added_le, paid, inside⟩ := progress
  have replaced : rendered libc value zone (.directive d) = zoneText d (zoneName value zone) :=
    if_pos isZone
  have quoted := length_quotedZone_le d (zoneName value zone)
  have spent : d.text.length ≥ 2 := by
    simp only [Directive.text, Directive.body, List.length_cons, List.length_append, List.length_nil]
    omega
  rw [List.length_append] at paid
  unfold Advances
  rw [replaced, Token.text, expand_directive, if_neg (not_not.mpr isZone)]
  rcases insertZone_spec d (zoneName value zone) expanded inside with ⟨failed, full⟩ | ⟨copied, within⟩
  · right
    rw [failed, error_bind, List.length_append]
    refine ⟨rfl, ?_⟩
    omega
  · left
    -- Quoting at most doubles a name, which is the factor in `paid`.
    refine ⟨expanded ++ quotedZone d (zoneName value zone),
      added + (zoneText d (zoneName value zone)).length, ?_,
      closed.append (closed_quotedZone (libc.doubled _) d _), ?_, ?_, within⟩
    · rw [copied, ok_bind]
    · rw [List.length_append]
      omega
    · rw [List.length_append]
      omega

theorem advances_token (token : Token)
    (progress : Progress libc value zone size length (token.text ++ remaining) expanded shown added) :
    Advances libc value zone size length token remaining expanded shown := by
  cases token with
  | plain b plain nonzero => exact advances_plain plain nonzero progress
  | directive d =>
    by_cases isZone : d.letter = zoneLetter
    · exact advances_zone d isZone progress
    · exact advances_directive d isZone progress

/-- The whole format: the buffer holds a closed format for the rendering with room for the NUL,
or the rendering does not fit. -/
theorem expand_spec (tokens : List Token)
    (progress : Progress libc value zone size length (textOf tokens) expanded shown added) :
    (∃ expanded',
      expand size (length + 2 * size + 1) (zoneName value zone) (textOf tokens) expanded =
        .ok expanded' ∧
      Closed (libc.conversion (native value zone)) expanded'
        (shown ++ rendering libc value zone tokens) ∧
      expanded'.length < length + 2 * size + 1) ∨
    (expand size (length + 2 * size + 1) (zoneName value zone) (textOf tokens) expanded =
        .error .fail ∧
      size ≤ (shown ++ rendering libc value zone tokens).length) := by
  induction tokens generalizing expanded shown added with
  | nil =>
    left
    refine ⟨expanded, by rw [textOf, List.flatMap_nil, expand], ?_, progress.inside⟩
    rw [rendering, List.flatMap_nil, List.append_nil]
    exact progress.closed
  | cons token tokens ih =>
    have shows : shown ++ rendering libc value zone (token :: tokens) =
        (shown ++ rendered libc value zone token) ++ rendering libc value zone tokens := by
      rw [rendering, List.flatMap_cons, List.append_assoc, rendering]
    rw [textOf_cons] at progress
    rw [textOf_cons, shows]
    -- `Progress` is what one part of the format hands to the next one.
    rcases advances_token token progress with ⟨expanded', added', step, progress'⟩ | ⟨failed, full⟩
    · rw [step]
      exact ih progress'
    · right
      refine ⟨failed, ?_⟩
      rw [List.length_append]
      omega

end Run

/-! ### The call -/

section Call

variable (libc : Libc) (value : BridgeCalendar) (zone : Option CString) (size : Nat)

/-- What is stored: the rendering, if it fits with its NUL. -/
def stored (tokens : List Token) : Option (List UInt8) :=
  if (rendering libc value zone tokens).length + 1 ≤ size then some (rendering libc value zone tokens)
  else none

variable {libc value zone size} {tokens : List Token}

theorem strftime_of_closed {format : List UInt8}
    (closed : Closed (libc.conversion (native value zone)) format (rendering libc value zone tokens)) :
    libc.strftime size format (native value zone) = stored libc value zone size tokens := by
  rw [Libc.strftime, closed.render_eq, stored]

theorem rendering_of_not_mem (absent : zoneLetter ∉ textOf tokens) :
    Closed (libc.conversion (native value zone)) (textOf tokens) (rendering libc value zone tokens) := by
  have same : rendering libc value zone tokens =
      tokens.flatMap (Token.shown (libc.conversion (native value zone))) := by
    refine List.flatMap_congr fun token member => ?_
    cases token with
    | plain b _ _ => rfl
    | directive d =>
      have inside : d.letter ∈ textOf tokens :=
        List.mem_flatMap.mpr ⟨_, member, by simp [Token.text, Directive.text, Directive.body]⟩
      refine if_neg fun isZone => absent ?_
      rwa [isZone] at inside
  rw [same]
  exact closed_textOf tokens

theorem stored_eq_none (full : size ≤ (rendering libc value zone tokens).length) :
    stored libc value zone size tokens = none := if_neg (by omega)

theorem formatCalendar_eq (tokens : List Token) (bounded : 2 * size + (textOf tokens).length < sizeMax) :
    formatCalendar libc true size (cstring tokens) value zone =
      .done (stored libc value zone size tokens) := by
  have length : (cstring tokens).length = (textOf tokens).length := rfl
  unfold formatCalendar
  by_cases empty : size = 0
  · rw [if_pos empty, stored_eq_none (by omega)]
  rw [if_neg empty]
  by_cases absent : zoneLetter ∉ (cstring tokens).1
  · rw [if_pos absent]
    exact congrArg Outcome.done (strftime_of_closed (rendering_of_not_mem absent))
  rw [if_neg absent, if_neg (by rw [length]; omega), Bool.not_true, if_neg Bool.false_ne_true]
  -- What is left is a format in which the letter occurs, and a buffer that could be allocated.
  have start : Progress libc value zone size (textOf tokens).length (textOf tokens) [] [] 0 :=
    ⟨Closed.nil, Nat.le_refl 0, by simp, by simp⟩
  dsimp only
  rw [length, show (cstring tokens).1 = textOf tokens from rfl]
  rcases expand_spec tokens start with ⟨expanded, done, closed, inside⟩ | ⟨failed, full⟩
  · rw [done, ok_bind, store_of_le (by rw [List.length_singleton]; omega)]
    rw [List.nil_append] at closed
    dsimp only
    rw [List.dropLast_concat, strftime_of_closed closed]
  · rw [List.nil_append] at full
    rw [failed, error_bind, stored_eq_none full]

theorem returned_stored (tokens : List Token) :
    (Outcome.done (stored libc value zone size tokens)).returned = 0 ↔
      rendering libc value zone tokens = [] ∨ size < (rendering libc value zone tokens).length + 1 := by
  rw [Outcome.returned, stored]
  by_cases fits : (rendering libc value zone tokens).length + 1 ≤ size
  · rw [if_pos fits, Option.getD_some, List.length_eq_zero_iff]
    exact ⟨Or.inl, fun either => either.resolve_right (by omega)⟩
  · rw [if_neg fits, Option.getD_none]
    exact ⟨fun _ => Or.inr (by omega), fun _ => rfl⟩

end Call

/-- `format_calendar` stores and returns the rendering, in which the zone is the guest's, if it
fits with its NUL; it never stores a byte behind its temporary buffer. -/
theorem formatCalendar_renders (libc : Libc) (size : Nat) (tokens : List Token)
    (value : BridgeCalendar) (zone : Option CString)
    (bounded : 2 * size + (textOf tokens).length < sizeMax) :
    formatCalendar libc true size (cstring tokens) value zone ≠ .outside ∧
    formatCalendar libc true size (cstring tokens) value zone =
      .done (if (rendering libc value zone tokens).length + 1 ≤ size then
        some (rendering libc value zone tokens) else none) ∧
    ((formatCalendar libc true size (cstring tokens) value zone).returned = 0 ↔
      rendering libc value zone tokens = [] ∨
        size < (rendering libc value zone tokens).length + 1) := by
  rw [formatCalendar_eq tokens bounded]
  exact ⟨nofun, rfl, returned_stored tokens⟩

/-! ### Two calls -/

/-- A library that shows every directive as it is written. -/
def literalConversion (text : List UInt8) : List UInt8 :=
  if text = [percent, percent] then [percent] else text

theorem literal_doubled (tm : Tm) : (fun _ : Tm => literalConversion) tm [percent, percent] = [percent] :=
  if_pos rfl

def literalLibc : Libc := ⟨fun _ => literalConversion, literal_doubled⟩

def midnight : BridgeCalendar := ⟨0, 0, 0, 1, 0, 70, 4, 0, 0, 0⟩

theorem caret_flag : ∀ b ∈ ([94] : List UInt8), isFlag b = true := by decide +kernel

theorem eight_digit : ∀ b ∈ ([56] : List UInt8), Decimal.isDigit b = true := by decide +kernel

theorem eight_nonzero : ([56] : List UInt8).head? ≠ some 48 := by decide

theorem no_digit_nonzero : ([] : List UInt8).head? ≠ some 48 := by decide

theorem zoneLetter_ends :
    isLetter zoneLetter = true ∧ isModifier zoneLetter = false ∨ zoneLetter = percent := by decide

/-- The directive `%^8Z`. -/
def wideZone : Directive :=
  ⟨[94], [56], zoneLetter, caret_flag, eight_digit, eight_nonzero, zoneLetter_ends⟩

/-- The directive `%Z`. -/
def plainZone : Directive :=
  ⟨[], [], zoneLetter, List.forall_mem_nil _, List.forall_mem_nil _, no_digit_nonzero, zoneLetter_ends⟩

/-- A zone whose name has a percent sign is shown as it is, in capitals and padded. -/
theorem wideZone_shown :
    formatCalendar literalLibc true 9 (cstring [.directive wideZone]) midnight
      (some (CString.ofText "u%c")) = .done (some (ascii "     U%C")) :=
  (formatCalendar_renders literalLibc 9 [.directive wideZone] midnight (some (CString.ofText "u%c"))
    (by decide)).2.1.trans (by decide +kernel)

theorem a_not_percent : (97 : UInt8) ≠ percent := by decide

theorem a_nonzero : (97 : UInt8) ≠ 0 := by decide

/-- The format `a%Z`. -/
def letterThenZone : List Token := [.plain 97 a_not_percent a_nonzero, .directive plainZone]

/-- Where twice the size and the format just fill a `size_t` there is no capacity for the NUL:
the call returns 0, although the rendering is one byte long. -/
theorem full_size_rejected :
    2 * 9223372036854775806 + (textOf letterThenZone).length = sizeMax ∧
    rendering literalLibc midnight none letterThenZone = [97] ∧
    (formatCalendar literalLibc true 9223372036854775806 (cstring letterThenZone) midnight none).returned
      = 0 := by
  decide +kernel

end LashOs.Calendar
