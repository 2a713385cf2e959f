import LashOs.Isolation.Mountinfo

/-!
# Decoding escapes in place

`mountinfo_unescape` as it works on its buffer: `in` reads, `out` writes behind it, and the inner
loop looks at up to three cells behind a backslash. A read outside the buffer is a fault. The
decoded string is the one that `mountinfoUnescape` computes, and it undoes every escaping.
-/
namespace LashOs.Isolation

open Base

def backslash : UInt8 := 92

/-- The buffer, the positions of `in` and `out`, and the writes that were made: the position of
each one and the last position that had been read before it. -/
structure Cursor where
  cells : List UInt8
  input : Nat
  out : Nat
  writes : List (Nat × Nat)

/-- `*out = b`, when the cells up to `read` have been read. -/
def Cursor.write (c : Cursor) (b : UInt8) (read : Nat) : Cursor :=
  { c with cells := c.cells.set c.out b, writes := c.writes ++ [(c.out, read)] }

/-- The cell is written and both positions move on. -/
def Cursor.advance (c : Cursor) (b : UInt8) (count : Nat) : Cursor :=
  { c.write b (c.input + count - 1) with input := c.input + count, out := c.out + 1 }

/-- The inner loop with the digits that are left: a fault, no number, or a number. -/
def digitLoop (cells : List UInt8) (position : Nat) : Nat → Nat → Option (Option Nat)
  | 0, value => some (some value)
  | left + 1, value =>
    match cells[position]? with
    | none => none
    | some d =>
      if d.toNat < 48 ∨ d.toNat > 55 then some none
      else digitLoop cells (position + 1) left (value * 8 + (d.toNat - 48))

/-- The loop: what is returned and the buffer then, unless there is a fault. -/
def unescapeLoop (c : Cursor) : Option (Int × Cursor) :=
  match _read : c.cells[c.input]? with
  | none => none
  | some b =>
    if b = 0 then some (0, c.write 0 c.input)
    else if b ≠ backslash then unescapeLoop (c.advance b 1)
    else
      match digitLoop c.cells (c.input + 1) 3 0 with
      | none => none
      | some none => some (-1, c)
      | some (some value) =>
        if value = 0 ∨ value > 255 then some (-1, c)
        else unescapeLoop (c.advance (UInt8.ofNat value) 4)
  termination_by c.cells.length - c.input
  decreasing_by
    all_goals
      have inside := (List.getElem?_eq_some_iff.mp _read).1
      simp only [Cursor.advance, Cursor.write, List.length_set]
      omega

/-- `mountinfo_unescape` -/
def mountinfoUnescapeCells (cells : List UInt8) : Option (Int × Cursor) := unescapeLoop ⟨cells, 0, 0, []⟩

/-! ### What is decoded -/

/-- A backslash is followed by three octal digits with a value that is a byte and no NUL. -/
def StartsEscape (rest : List UInt8) : Prop :=
  ∃ a b c more value, rest = a :: b :: c :: more ∧ octal a b c = some value ∧ 1 ≤ value ∧ value ≤ 255

/-- Text in which every backslash starts an escape. -/
inductive Escaped : List UInt8 → Prop
  | nil : Escaped []
  | plain {b : UInt8} {text : List UInt8} (other : b ≠ backslash) (rest : Escaped text) :
      Escaped (b :: text)
  | escape {a b c : UInt8} {value : Nat} {text : List UInt8} (digits : octal a b c = some value)
      (atLeast : 1 ≤ value) (atMost : value ≤ 255) (rest : Escaped text) :
      Escaped (backslash :: a :: b :: c :: text)

/-- Behind escapes that are complete stands a backslash that starts none. -/
def Malformed (text : List UInt8) : Prop :=
  ∃ front rest, text = front ++ backslash :: rest ∧ Escaped front ∧ ¬StartsEscape rest

def octalDigits (b : UInt8) : List UInt8 :=
  [UInt8.ofNat (48 + b.toNat / 64), UInt8.ofNat (48 + b.toNat / 8 % 8), UInt8.ofNat (48 + b.toNat % 8)]

/-- An escaping of a string: each backslash, and any other bytes, as an escape. -/
inductive Escapes : List UInt8 → List UInt8 → Prop
  | nil : Escapes [] []
  | copy {b : UInt8} {s text : List UInt8} (other : b ≠ backslash) (rest : Escapes s text) :
      Escapes (b :: s) (b :: text)
  | escape (b : UInt8) {s text : List UInt8} (rest : Escapes s text) :
      Escapes (b :: s) (backslash :: octalDigits b ++ text)

theorem toNat_digit {n : Nat} (small : n < 8) : (UInt8.ofNat (48 + n)).toNat = 48 + n := by
  rw [UInt8.toNat_ofNat']
  omega

theorem octal_octalDigits (b : UInt8) :
    ∃ x y z, octalDigits b = [x, y, z] ∧ octal x y z = some b.toNat := by
  refine ⟨_, _, _, rfl, ?_⟩
  have bound := b.toNat_lt
  have high := toNat_digit (show b.toNat / 64 < 8 by omega)
  have middle := toNat_digit (Nat.mod_lt (b.toNat / 8) (by decide : 0 < 8))
  have low := toNat_digit (Nat.mod_lt b.toNat (by decide : 0 < 8))
  have digits : [UInt8.ofNat (48 + b.toNat / 64), UInt8.ofNat (48 + b.toNat / 8 % 8),
      UInt8.ofNat (48 + b.toNat % 8)].all fun d => decide (48 ≤ d.toNat ∧ d.toNat ≤ 55) := by
    simp only [List.all_cons, List.all_nil, Bool.and_true, Bool.and_eq_true, decide_eq_true_eq, high,
      middle, low]
    omega
  rw [octal, if_pos digits, high, middle, low]
  congr 1
  omega

theorem mountinfoUnescape_escape {a b c : UInt8} {value : Nat} (digits : octal a b c = some value)
    (atLeast : 1 ≤ value) (atMost : value ≤ 255) (text : List UInt8) :
    mountinfoUnescape (backslash :: a :: b :: c :: text) =
      (mountinfoUnescape text).map (UInt8.ofNat value :: ·) := by
  rw [backslash, mountinfoUnescape, digits]
  exact if_neg (by omega)

theorem mountinfoUnescape_plain {b : UInt8} (other : b ≠ backslash) (text : List UInt8) :
    mountinfoUnescape (b :: text) = (mountinfoUnescape text).map (b :: ·) := by
  rw [mountinfoUnescape]
  · exact if_neg other
  · exact fun _ _ _ _ same => absurd same other

theorem mountinfoUnescape_of_escapes {s text : List UInt8} (escapes : Escapes s text)
    (noNul : (0 : UInt8) ∉ s) : mountinfoUnescape text = some s := by
  induction escapes with
  | nil => rfl
  | copy other rest ih =>
    rw [mountinfoUnescape_plain other, ih fun zero => noNul (List.mem_cons_of_mem _ zero)]
    rfl
  | escape b rest ih =>
    have nonzero : b.toNat ≠ 0 := fun zero => noNul (by
      rw [← UInt8.toNat_inj.mp (zero.trans UInt8.toNat_zero.symm)]
      exact List.mem_cons_self)
    obtain ⟨x, y, z, shape, digits⟩ := octal_octalDigits b
    simp only [shape, List.cons_append, List.nil_append]
    rw [mountinfoUnescape_escape digits (Nat.pos_of_ne_zero nonzero) (Nat.le_of_lt_succ b.toNat_lt),
      ih fun zero => noNul (List.mem_cons_of_mem _ zero), UInt8.ofNat_toNat]
    rfl

theorem Escapes.noNul {s text : List UInt8} (escapes : Escapes s text) (noNul : (0 : UInt8) ∉ s) :
    (0 : UInt8) ∉ text := by
  induction escapes with
  | nil => exact noNul
  | copy other rest ih =>
    rw [List.mem_cons, not_or] at noNul ⊢
    exact ⟨noNul.1, ih noNul.2⟩
  | escape b rest ih =>
    rw [List.mem_cons, not_or] at noNul
    have bound := b.toNat_lt
    have digit : ∀ n, n < 8 → (0 : UInt8) ≠ UInt8.ofNat (48 + n) := by
      intro n small zero
      have same := congrArg UInt8.toNat zero
      rw [toNat_digit small, UInt8.toNat_zero] at same
      omega
    simp only [octalDigits, List.cons_append, List.nil_append, List.mem_cons, not_or]
    exact ⟨by decide, digit _ (by omega), digit _ (by omega), digit _ (by omega), ih noNul.2⟩

theorem mountinfoUnescape_backslash {rest : List UInt8} (no : ¬StartsEscape rest) :
    mountinfoUnescape (backslash :: rest) = none := by
  generalize whole : backslash :: rest = text
  fun_cases mountinfoUnescape text with
  | case1 => cases whole
  | case2 => rfl
  | case3 a b c more value digits good =>
    cases whole
    exact absurd ⟨a, b, c, more, value, rfl, digits, by omega, by omega⟩ no
  | case4 => rfl
  | case5 => rfl
  | case6 b more _ other =>
    cases whole
    exact absurd rfl other

/-- The text is decoded exactly when every backslash starts an escape. -/
theorem mountinfoUnescape_eq_none_iff (text : List UInt8) :
    mountinfoUnescape text = none ↔ Malformed text := by
  constructor
  · intro failed
    fun_induction mountinfoUnescape text with
    | case1 => cases failed
    | case2 a b c rest value digits bad =>
      refine ⟨[], a :: b :: c :: rest, rfl, .nil, ?_⟩
      rintro ⟨a', b', c', more, value', same, digits', atLeast, atMost⟩
      cases same
      rw [digits] at digits'
      cases digits'
      omega
    | case3 a b c rest value digits good ih =>
      obtain ⟨front, after, rfl, escaped, no⟩ := ih (Option.map_eq_none_iff.mp failed)
      exact ⟨_, after, rfl, .escape digits (by omega) (by omega) escaped, no⟩
    | case4 a b c rest digits =>
      refine ⟨[], a :: b :: c :: rest, rfl, .nil, ?_⟩
      rintro ⟨a', b', c', more, value', same, digits', -, -⟩
      cases same
      rw [digits] at digits'
      cases digits'
    | case5 rest short =>
      refine ⟨[], rest, rfl, .nil, ?_⟩
      rintro ⟨a, b, c, more, value, rfl, -, -, -⟩
      exact short a b c more rfl rfl
    | case6 b rest _ other ih =>
      obtain ⟨front, after, rfl, escaped, no⟩ := ih (Option.map_eq_none_iff.mp failed)
      exact ⟨_, after, rfl, .plain other escaped, no⟩
  · rintro ⟨front, rest, rfl, escaped, no⟩
    induction escaped with
    | nil => exact mountinfoUnescape_backslash no
    | plain other _ ih =>
      rw [List.cons_append, mountinfoUnescape_plain other, ih]
      rfl
    | escape digits atLeast atMost _ ih =>
      simp only [List.cons_append]
      rw [mountinfoUnescape_escape digits atLeast atMost, ih]
      rfl

/-! ### The buffer -/

theorem set_behind (done rest : List UInt8) (some : rest ≠ []) (b : UInt8) :
    (done ++ rest).set done.length b = done ++ [b] ++ rest.tail := by
  cases rest with
  | nil => exact absurd rfl some
  | cons x rest => simp

theorem digitLoop_cons (front rest : List UInt8) (d : UInt8) (left value : Nat) :
    digitLoop (front ++ d :: rest) front.length (left + 1) value =
      if d.toNat < 48 ∨ d.toNat > 55 then some none
      else digitLoop (front ++ [d] ++ rest) (front ++ [d]).length left (value * 8 + (d.toNat - 48)) := by
  rw [digitLoop, List.getElem?_append_right (Nat.le_refl _), Nat.sub_self]
  simp

theorem digitLoop_octal (front rest : List UInt8) (a b c : UInt8) :
    digitLoop (front ++ a :: b :: c :: rest) front.length 3 0 = some (octal a b c) := by
  have digit (d : UInt8) : (d.toNat < 48 ∨ d.toNat > 55) ↔ ¬(48 ≤ d.toNat ∧ d.toNat ≤ 55) := by omega
  rw [digitLoop_cons, digitLoop_cons, digitLoop_cons, digitLoop]
  simp only [digit, octal, List.all_cons, List.all_nil, Bool.and_true, Bool.and_eq_true, decide_eq_true_eq]
  by_cases first : 48 ≤ a.toNat ∧ a.toNat ≤ 55
  · by_cases second : 48 ≤ b.toNat ∧ b.toNat ≤ 55
    · by_cases third : 48 ≤ c.toNat ∧ c.toNat ≤ 55
      · simp [first, second, third]
      · simp [first, second, third]
    · simp [first, second]
  · simp [first]

theorem digitLoop_short (front text after : List UInt8) {left : Nat} (short : text.length < left)
    (value : Nat) : digitLoop (front ++ (text ++ 0 :: after)) front.length left value = some none := by
  induction text generalizing front left value with
  | nil =>
    obtain ⟨left, rfl⟩ := Nat.exists_eq_add_one_of_ne_zero (Nat.ne_zero_of_lt short)
    rw [List.nil_append, digitLoop_cons]
    rfl
  | cons d text ih =>
    obtain ⟨left, rfl⟩ := Nat.exists_eq_add_one_of_ne_zero (Nat.ne_zero_of_lt short)
    rw [List.cons_append, digitLoop_cons, ih _ (Nat.lt_of_succ_lt_succ short), ite_self]

/-- The buffer of a run: what was decoded, cells that were read and not yet overwritten, the text
that is left, its NUL and the cells behind it. -/
def Cursor.ofParts (done read text after : List UInt8) (writes : List (Nat × Nat)) : Cursor :=
  ⟨done ++ read ++ (text ++ 0 :: after), (done ++ read).length, done.length, writes⟩

section Parts

variable (done read text after : List UInt8) (writes : List (Nat × Nat))

theorem Cursor.ofParts_cell (b : UInt8) :
    (ofParts done read (b :: text) after writes).cells[(done ++ read).length]? = some b := by
  rw [ofParts, List.getElem?_append_right (Nat.le_refl _), Nat.sub_self]
  rfl

theorem Cursor.advance_ofParts (taken : List UInt8) (some : taken ≠ []) (b : UInt8) :
    (ofParts done read (taken ++ text) after writes).advance b taken.length =
      ofParts (done ++ [b]) (read ++ taken).tail text after
        (writes ++ [(done.length, (done ++ read).length + taken.length - 1)]) := by
  have more : read ++ taken ≠ [] := List.append_ne_nil_of_right_ne_nil read some
  have shape : done ++ read ++ (taken ++ text ++ 0 :: after) =
      done ++ ((read ++ taken) ++ (text ++ 0 :: after)) := by simp
  have position : (done ++ read).length + taken.length =
      (done ++ [b] ++ (read ++ taken).tail).length := by
    have := List.length_pos_iff.mpr some
    simp only [List.length_append, List.length_tail, List.length_singleton]
    omega
  simp only [advance, write, ofParts, shape, mk.injEq]
  refine ⟨?_, position, by simp, trivial⟩
  rw [set_behind _ _ (List.append_ne_nil_of_left_ne_nil more _), List.tail_append_of_ne_nil more]
  simp

end Parts

/-- What a run leaves: every write was behind the cells that had been read, and after success the
decoded bytes and a NUL stand in front of cells that were not touched. -/
structure Decoded (done read text after : List UInt8) (writes : List (Nat × Nat)) (result : Int)
    (c : Cursor) : Prop where
  behind : ∀ w ∈ c.writes, w ∈ writes ∨ w.1 ≤ w.2 ∧ w.2 ≤ (done ++ read).length + text.length
  result : result = if (mountinfoUnescape text).isSome then 0 else -1
  cells : ∀ out, mountinfoUnescape text = some out →
    c.cells = done ++ out ++ 0 :: (read ++ (text ++ 0 :: after)).drop (out.length + 1)

/-- A run that goes on after some cells were read and a byte was written. -/
theorem Decoded.after_advance {done read taken text after : List UInt8} {writes : List (Nat × Nat)}
    {b : UInt8} {result : Int} {c : Cursor} (some : taken ≠ [])
    (unescaped : mountinfoUnescape (taken ++ text) = (mountinfoUnescape text).map (b :: ·))
    (decoded : Decoded (done ++ [b]) (read ++ taken).tail text after
      (writes ++ [(done.length, (done ++ read).length + taken.length - 1)]) result c) :
    Decoded done read (taken ++ text) after writes result c := by
  have positive := List.length_pos_iff.mpr some
  have more : read ++ taken ≠ [] := List.append_ne_nil_of_right_ne_nil read some
  refine ⟨?_, ?_, ?_⟩
  · intro w member
    rcases decoded.behind w member with old | ⟨order, bound⟩
    · rcases List.mem_append.mp old with before | last
      · exact Or.inl before
      · rw [List.mem_singleton.mp last]
        right
        simp only [List.length_append] at *
        omega
    · right
      simp only [List.length_append, List.length_tail, List.length_singleton] at *
      omega
  · rw [decoded.result, unescaped, Option.isSome_map]
  · intro out found
    rw [unescaped] at found
    obtain ⟨tail, tailFound, rfl⟩ := Option.map_eq_some_iff.mp found
    rw [decoded.cells tail tailFound]
    have shape : read ++ (taken ++ text ++ 0 :: after) = (read ++ taken) ++ (text ++ 0 :: after) := by simp
    rw [shape, ← List.tail_append_of_ne_nil more, List.drop_tail]
    simp

theorem unescapeLoop_cell {c : Cursor} {b : UInt8} (read : c.cells[c.input]? = some b) :
    unescapeLoop c =
      if b = 0 then some (0, c.write 0 c.input)
      else if b ≠ backslash then unescapeLoop (c.advance b 1)
      else
        match digitLoop c.cells (c.input + 1) 3 0 with
        | none => none
        | some none => some (-1, c)
        | some (some value) =>
          if value = 0 ∨ value > 255 then some (-1, c)
          else unescapeLoop (c.advance (UInt8.ofNat value) 4) := by
  rw [unescapeLoop]
  split
  next outside =>
    rw [read] at outside
    cases outside
  next found =>
    rw [read] at found
    cases found
    rfl

section Turns

variable (done read after : List UInt8) (writes : List (Nat × Nat))

theorem unescapeLoop_nul : unescapeLoop (.ofParts done read [] after writes) =
    some (0, (Cursor.ofParts done read [] after writes).write 0 (done ++ read).length) := by
  have cell : (Cursor.ofParts done read [] after writes).cells[(done ++ read).length]? = some 0 := by
    rw [Cursor.ofParts, List.getElem?_append_right (Nat.le_refl _), Nat.sub_self]
    rfl
  rw [unescapeLoop_cell cell, if_pos rfl]
  rfl

theorem unescapeLoop_plain {b : UInt8} (nonzero : b ≠ 0) (other : b ≠ backslash) (text : List UInt8) :
    unescapeLoop (.ofParts done read (b :: text) after writes) =
      unescapeLoop ((Cursor.ofParts done read (b :: text) after writes).advance b 1) := by
  rw [unescapeLoop_cell (Cursor.ofParts_cell done read text after writes b), if_neg nonzero, if_pos other]

theorem unescapeLoop_backslash (text : List UInt8) :
    unescapeLoop (.ofParts done read (backslash :: text) after writes) =
      match digitLoop (done ++ read ++ [backslash] ++ (text ++ 0 :: after))
        (done ++ read ++ [backslash]).length 3 0 with
      | none => none
      | some none => some (-1, .ofParts done read (backslash :: text) after writes)
      | some (some value) =>
        if value = 0 ∨ value > 255 then some (-1, .ofParts done read (backslash :: text) after writes)
        else unescapeLoop
          ((Cursor.ofParts done read (backslash :: text) after writes).advance (UInt8.ofNat value) 4) := by
  have cells : (Cursor.ofParts done read (backslash :: text) after writes).cells =
      done ++ read ++ [backslash] ++ (text ++ 0 :: after) := by simp [Cursor.ofParts]
  have position : (Cursor.ofParts done read (backslash :: text) after writes).input + 1 =
      (done ++ read ++ [backslash]).length := by simp [Cursor.ofParts, Nat.add_assoc]
  rw [unescapeLoop_cell (Cursor.ofParts_cell done read text after writes backslash),
    if_neg (by decide), if_neg (by simp), cells, position]

theorem unescapeLoop_short {text : List UInt8} (few : text.length < 3) :
    unescapeLoop (.ofParts done read (backslash :: text) after writes) =
      some (-1, .ofParts done read (backslash :: text) after writes) := by
  rw [unescapeLoop_backslash, digitLoop_short _ text after few]

theorem unescapeLoop_octal (a b c : UInt8) (text : List UInt8) :
    unescapeLoop (.ofParts done read (backslash :: a :: b :: c :: text) after writes) =
      match octal a b c with
      | none => some (-1, .ofParts done read (backslash :: a :: b :: c :: text) after writes)
      | some value =>
        if value = 0 ∨ value > 255 then
          some (-1, .ofParts done read (backslash :: a :: b :: c :: text) after writes)
        else unescapeLoop ((Cursor.ofParts done read (backslash :: a :: b :: c :: text) after writes).advance
          (UInt8.ofNat value) 4) := by
  rw [unescapeLoop_backslash]
  simp only [List.cons_append, digitLoop_octal]
  cases octal a b c <;> rfl

end Turns

/-- The loop returns from a buffer of these parts and leaves what it should. -/
def Decodes (done read text after : List UInt8) (writes : List (Nat × Nat)) : Prop :=
  ∃ result c, unescapeLoop (.ofParts done read text after writes) = some (result, c) ∧
    Decoded done read text after writes result c

section Runs

variable {done read after : List UInt8} {writes : List (Nat × Nat)}

theorem decodes_nil : Decodes done read [] after writes := by
  refine ⟨0, _, unescapeLoop_nul done read after writes, ?_, rfl, ?_⟩
  · intro w member
    rcases List.mem_append.mp member with old | last
    · exact Or.inl old
    · rw [List.mem_singleton.mp last]
      exact Or.inr ⟨by simp [Cursor.ofParts], Nat.le_refl _⟩
  · intro out found
    cases found
    simp only [Cursor.write, Cursor.ofParts]
    rw [List.append_assoc, set_behind _ _ (by simp)]
    simp

theorem decodes_of_failed {text : List UInt8} (unescaped : mountinfoUnescape text = none)
    (turn : unescapeLoop (.ofParts done read text after writes) =
      some (-1, .ofParts done read text after writes)) : Decodes done read text after writes := by
  refine ⟨-1, _, turn, fun _ member => Or.inl member, ?_, ?_⟩
  · rw [unescaped]
    rfl
  · intro out found
    rw [unescaped] at found
    cases found

theorem decodes_of_advance {taken text : List UInt8} {b : UInt8} (some : taken ≠ [])
    (unescaped : mountinfoUnescape (taken ++ text) = (mountinfoUnescape text).map (b :: ·))
    (turn : unescapeLoop (.ofParts done read (taken ++ text) after writes) =
      unescapeLoop ((Cursor.ofParts done read (taken ++ text) after writes).advance b taken.length))
    (rest : Decodes (done ++ [b]) (read ++ taken).tail text after
      (writes ++ [(done.length, (done ++ read).length + taken.length - 1)])) :
    Decodes done read (taken ++ text) after writes := by
  obtain ⟨result, c, ran, decoded⟩ := rest
  refine ⟨result, c, ?_, decoded.after_advance some unescaped⟩
  rw [turn, Cursor.advance_ofParts done read text after writes taken some b, ran]

end Runs

theorem length_lt_three {α : Type} {xs : List α} (short : ∀ a b c more, xs ≠ a :: b :: c :: more) :
    xs.length < 3 := by
  rcases xs with _ | ⟨a, _ | ⟨b, _ | ⟨c, more⟩⟩⟩
  · simp
  · simp
  · simp
  · exact absurd rfl (short a b c more)

theorem unescapeLoop_decodes (done read text after : List UInt8) (writes : List (Nat × Nat))
    (noNul : (0 : UInt8) ∉ text) : Decodes done read text after writes := by
  -- The loop takes the same turns as the function on lists; what it has done is in the parts.
  fun_induction mountinfoUnescape text generalizing done read writes with
  | case1 => exact decodes_nil
  | case2 a b c rest value digits bad =>
    have turn := unescapeLoop_octal done read after writes a b c rest
    rw [digits] at turn
    refine decodes_of_failed ?_ (turn.trans (if_pos bad))
    rw [mountinfoUnescape, digits]
    exact if_pos bad
  | case3 a b c rest value digits good ih =>
    have turn := unescapeLoop_octal done read after writes a b c rest
    rw [digits] at turn
    exact decodes_of_advance (List.cons_ne_nil backslash [a, b, c])
      (mountinfoUnescape_escape digits (by omega) (by omega) rest) (turn.trans (if_neg good))
      (ih _ _ _ fun zero => noNul (by simp [zero]))
  | case4 a b c rest digits =>
    have turn := unescapeLoop_octal done read after writes a b c rest
    rw [digits] at turn
    refine decodes_of_failed ?_ turn
    rw [mountinfoUnescape, digits]
  | case5 rest short =>
    have few : rest.length < 3 := length_lt_three fun a b c more => short a b c more rfl
    refine decodes_of_failed (mountinfoUnescape_backslash ?_)
      (unescapeLoop_short done read after writes few)
    rintro ⟨a, b, c, more, value, shape, -, -, -⟩
    exact short a b c more rfl shape
  | case6 b rest _ other ih =>
    have nonzero : b ≠ 0 := fun zero => noNul (by simp [zero])
    exact decodes_of_advance (List.cons_ne_nil b []) (mountinfoUnescape_plain other rest)
      (unescapeLoop_plain done read after writes nonzero other rest)
      (ih _ _ _ fun zero => noNul (by simp [zero]))

/-- On every string the function returns without a fault and writes only where it has read before;
it fails exactly when a backslash starts no escape. -/
theorem mountinfoUnescapeCells_spec (text : CString) (after : List UInt8) :
    ∃ result c, mountinfoUnescapeCells (text.1 ++ 0 :: after) = some (result, c) ∧
      Decoded [] [] text.1 after [] result c :=
  unescapeLoop_decodes [] [] text.1 after [] text.2

/-- Every escaping of a string is decoded to the string, in place. -/
theorem mountinfoUnescapeCells_inverts :
    (∀ (s : CString) (text after : List UInt8), Escapes s.1 text →
      ∃ c, mountinfoUnescapeCells (text ++ 0 :: after) = some (0, c) ∧
        c.cells = s.1 ++ 0 :: (text ++ 0 :: after).drop (s.length + 1)) ∧
    ∀ (text : CString) (after : List UInt8),
      ∃ result c, mountinfoUnescapeCells (text.1 ++ 0 :: after) = some (result, c) ∧
        (result = 0 ∨ result = -1) ∧ (result = -1 ↔ Malformed text.1) ∧
        ∀ w ∈ c.writes, w.1 ≤ w.2 ∧ w.2 ≤ text.length := by
  constructor
  · intro s text after escapes
    have unescaped := mountinfoUnescape_of_escapes escapes s.2
    obtain ⟨result, c, ran, decoded⟩ :=
      mountinfoUnescapeCells_spec ⟨text, escapes.noNul s.2⟩ after
    have success : result = 0 := by
      rw [decoded.result, unescaped]
      rfl
    exact ⟨c, success ▸ ran, decoded.cells s.1 unescaped⟩
  · intro text after
    obtain ⟨result, c, ran, decoded⟩ := mountinfoUnescapeCells_spec text after
    refine ⟨result, c, ran, ?_, ?_, ?_⟩
    · rw [decoded.result]
      split
      · exact Or.inl rfl
      · exact Or.inr rfl
    · rw [decoded.result, ← mountinfoUnescape_eq_none_iff]
      rcases mountinfoUnescape text.1 with _ | out
      · simp
      · simp
    · intro w member
      rcases decoded.behind w member with old | ⟨order, bound⟩
      · cases old
      · exact ⟨order, by simpa [CString.length] using bound⟩

/-- A path with a space and a backslash; behind its NUL stand cells of the escaped one. -/
theorem spacedPath_decoded :
    ∃ c, mountinfoUnescapeCells (ascii "/a\\040b\\134" ++ [0]) = some (0, c) ∧
      c.cells = ascii "/a b\\" ++ 0 :: (ascii "b\\134" ++ [0]) := by
  have escapes : Escapes (ascii "/a b\\") (ascii "/a\\040b\\134") :=
    .copy (by decide) (.copy (by decide) (.escape 32 (.copy (by decide) (.escape 92 .nil))))
  exact mountinfoUnescapeCells_inverts.1 ⟨ascii "/a b\\", by decide⟩ _ [] escapes

end LashOs.Isolation
