import Mathlib.Data.List.Basic

/-!
# Texts of Python

How a file is read as a text, in UTF-8, and `str.splitlines`, `str.split` and `str.strip`.
-/
namespace Base

namespace PythonText

/-- `str.encode` -/
def encode (text : List Char) : List UInt8 := text.flatMap String.utf8EncodeChar

/-- `bytes.decode`, which raises an error if the bytes are not UTF-8. -/
def decode (bytes : List UInt8) : Option (List Char) :=
  bytes.toByteArray.utf8Decode?.map Array.toList

theorem decode_encode (text : List Char) : decode (encode text) = some text := by
  have back := List.utf8Decode?_utf8Encode (l := text)
  rw [List.utf8Encode] at back
  rw [decode, encode, back, Option.map_some]

/-- Every line ends with a newline. -/
def universalNewlines : List Char → List Char
  | [] => []
  | c :: text =>
    if c = '\r' then
      -- The newline behind a carriage return stands for both.
      if text.head? = some '\n' then universalNewlines text else '\n' :: universalNewlines text
    else c :: universalNewlines text

theorem universalNewlines_plain {text : List Char} (plain : '\r' ∉ text) :
    universalNewlines text = text := by
  induction text with
  | nil => rfl
  | cons c text ih =>
    rw [List.mem_cons, not_or] at plain
    rw [universalNewlines, if_neg (Ne.symm plain.1), ih plain.2]

/-- `Path.read_text` -/
def readText (bytes : List UInt8) : Option (List Char) := (decode bytes).map universalNewlines

theorem readText_encode {text : List Char} (plain : '\r' ∉ text) :
    readText (encode text) = some text := by
  rw [readText, decode_encode, Option.map_some, universalNewlines_plain plain]

/-- The characters at which `splitlines` ends a line. -/
def isLineEnd (c : Char) : Bool :=
  (10 ≤ c.toNat && c.toNat ≤ 13) || (28 ≤ c.toNat && c.toNat ≤ 30) || c.toNat = 0x85 ||
    c.toNat = 0x2028 || c.toNat = 0x2029

/-- The lines of a text behind the characters of one that were read before. -/
def splitlinesFrom : List Char → List Char → List (List Char)
  | read, [] => if read = [] then [] else [read]
  | read, c :: text =>
    if isLineEnd c then read :: splitlinesFrom [] text else splitlinesFrom (read ++ [c]) text

/-- `text.splitlines()` of a text that was read, in which no newline follows a carriage return. -/
def splitlines (text : List Char) : List (List Char) := splitlinesFrom [] text

/-- `str.isspace`: the characters at which `split` ends a word. -/
def isSpace (c : Char) : Bool :=
  (9 ≤ c.toNat && c.toNat ≤ 13) || (28 ≤ c.toNat && c.toNat ≤ 32) || c.toNat = 0x85 ||
    c.toNat = 0xa0 || c.toNat = 0x1680 || (0x2000 ≤ c.toNat && c.toNat ≤ 0x200a) ||
    c.toNat = 0x2028 || c.toNat = 0x2029 || c.toNat = 0x202f || c.toNat = 0x205f || c.toNat = 0x3000

def splitFrom : List Char → List Char → List (List Char)
  | read, [] => if read = [] then [] else [read]
  | read, c :: text =>
    if isSpace c then (if read = [] then [] else [read]) ++ splitFrom [] text
    else splitFrom (read ++ [c]) text

/-- `text.split()` -/
def split (text : List Char) : List (List Char) := splitFrom [] text

/-- `text.strip()` -/
def strip (text : List Char) : List Char :=
  ((text.dropWhile isSpace).reverse.dropWhile isSpace).reverse

/-- A text without blanks is what is left of it when it stands on a line. -/
theorem strip_line {text : List Char} (plain : ∀ c ∈ text, isSpace c = false) :
    strip (text ++ ['\n']) = text := by
  have kept {word : List Char} (bare : ∀ c ∈ word, isSpace c = false) (rest : List Char)
      (more : word ≠ []) : (word ++ rest).dropWhile isSpace = word ++ rest := by
    cases word with
    | nil => exact absurd rfl more
    | cons c word =>
      rw [List.cons_append, List.dropWhile_cons_of_neg]
      simp [bare c List.mem_cons_self]
  by_cases empty : text = []
  · subst empty
    decide
  · have back : ∀ c ∈ text.reverse, isSpace c = false := fun c member => plain c (by simpa using member)
    have last := kept back [] (by simpa using empty)
    rw [List.append_nil] at last
    rw [strip, kept plain _ empty, List.reverse_append, List.reverse_singleton, List.singleton_append,
      List.dropWhile_cons_of_pos (by decide), last, List.reverse_reverse]

end PythonText

end Base
