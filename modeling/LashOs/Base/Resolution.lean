import Mathlib.Data.List.Basic
import LashOs.Base.PurePath

/-!
# Path resolution

How a list of components is resolved from a directory in a tree of which the links are known.
A link is resolved where it is met: an absolute text from the root, any other one from the
directory of the link; only then the components behind it are looked at. Two dots lead to the
directory above, and from the root they lead nowhere. Links are counted.
-/
namespace Base

open PurePath Base.Path

section

variable (link : List (List UInt8) → Option (List UInt8))

/-- Where the resolution of a link's text starts. -/
def linkStart (directory : List (List UInt8)) (text : List UInt8) : List (List UInt8) :=
  if text.head? = some slash then [] else directory

/-- `Resolves link directory parts links result`: with that many links the parts lead from the
directory to `result`, or above the root if it is none. -/
inductive Resolves : List (List UInt8) → List (List UInt8) → Nat → Option (List (List UInt8)) → Prop
  | done (directory) : Resolves directory [] 0 (some directory)
  | skip {directory part rest links result} (same : part = [] ∨ part = dot)
      (after : Resolves directory rest links result) :
      Resolves directory (part :: rest) links result
  | up {directory name rest links result} (after : Resolves directory rest links result) :
      Resolves (directory ++ [name]) (dotdot :: rest) links result
  | above {rest} : Resolves [] (dotdot :: rest) 0 none
  | follow {directory part rest text inner middle outer result}
      (name : part ≠ [] ∧ part ≠ dot ∧ part ≠ dotdot)
      (found : link (directory ++ [part]) = some text)
      (target : Resolves (linkStart directory text) (components text) inner (some middle))
      (after : Resolves middle rest outer result) :
      Resolves directory (part :: rest) (inner + outer + 1) result
  | followAbove {directory part rest text inner}
      (name : part ≠ [] ∧ part ≠ dot ∧ part ≠ dotdot)
      (found : link (directory ++ [part]) = some text)
      (target : Resolves (linkStart directory text) (components text) inner none) :
      Resolves directory (part :: rest) (inner + 1) none
  | enter {directory part rest links result}
      (name : part ≠ [] ∧ part ≠ dot ∧ part ≠ dotdot)
      (plain : link (directory ++ [part]) = none)
      (after : Resolves (directory ++ [part]) rest links result) :
      Resolves directory (part :: rest) links result

end

variable {link : List (List UInt8) → Option (List UInt8)}

theorem Resolves.split {directory first second : List (List UInt8)} {links : Nat}
    {result : Option (List (List UInt8))}
    (whole : Resolves link directory (first ++ second) links result) :
    (∃ inner middle outer, Resolves link directory first inner (some middle) ∧
      Resolves link middle second outer result ∧ links = inner + outer) ∨
    (Resolves link directory first links none ∧ result = none) := by
  induction first generalizing directory links with
  | nil => exact Or.inl ⟨0, directory, links, .done directory, whole, (Nat.zero_add links).symm⟩
  | cons part first ih =>
    rw [List.cons_append] at whole
    cases whole with
    | skip same after =>
      rcases ih after with ⟨inner, middle, outer, front, back, sum⟩ | ⟨front, none_⟩
      · exact Or.inl ⟨inner, middle, outer, .skip same front, back, sum⟩
      · exact Or.inr ⟨.skip same front, none_⟩
    | up after =>
      rcases ih after with ⟨inner, middle, outer, front, back, sum⟩ | ⟨front, none_⟩
      · exact Or.inl ⟨inner, middle, outer, .up front, back, sum⟩
      · exact Or.inr ⟨.up front, none_⟩
    | above => exact Or.inr ⟨.above, rfl⟩
    | follow name found target after =>
      rcases ih after with ⟨inner, middle, outer, front, back, sum⟩ | ⟨front, none_⟩
      · exact Or.inl ⟨_, middle, outer, .follow name found target front, back, by omega⟩
      · exact Or.inr ⟨.follow name found target front, none_⟩
    | followAbove name found target => exact Or.inr ⟨.followAbove name found target, rfl⟩
    | enter name plain after =>
      rcases ih after with ⟨inner, middle, outer, front, back, sum⟩ | ⟨front, none_⟩
      · exact Or.inl ⟨inner, middle, outer, .enter name plain front, back, sum⟩
      · exact Or.inr ⟨.enter name plain front, none_⟩

/-- A directory that was reached: its names are real names, and no link is on the way. -/
structure Physical (link : List (List UInt8) → Option (List UInt8)) (directory : List (List UInt8)) :
    Prop where
  noLink : ∀ p, p <+: directory → link p = none
  names : ∀ c ∈ directory, c ≠ [] ∧ c ≠ dot ∧ c ≠ dotdot

namespace Physical

variable {directory : List (List UInt8)}

theorem root (top : link [] = none) : Physical link [] :=
  ⟨fun p inside => by rw [List.prefix_nil.mp inside, top], fun c member => by cases member⟩

theorem linkStart (physical : Physical link directory) (text : List UInt8) :
    Physical link (linkStart directory text) := by
  unfold Base.linkStart
  split
  · exact root (physical.noLink [] List.nil_prefix)
  · exact physical

theorem up {name : List UInt8} (physical : Physical link (directory ++ [name])) :
    Physical link directory :=
  ⟨fun p inside => physical.noLink p (inside.trans (List.prefix_append directory [name])),
    fun c member => physical.names c (List.mem_append_left _ member)⟩

theorem enter (physical : Physical link directory) {part : List UInt8}
    (name : part ≠ [] ∧ part ≠ dot ∧ part ≠ dotdot) (plain : link (directory ++ [part]) = none) :
    Physical link (directory ++ [part]) := by
  refine ⟨fun p inside => ?_, fun c member => ?_⟩
  · rcases List.prefix_concat_iff.mp inside with rfl | shorter
    · exact plain
    · exact physical.noLink p shorter
  · rcases List.mem_append.mp member with before | last
    · exact physical.names c before
    · rw [List.mem_singleton.mp last]
      exact name

end Physical

theorem Resolves.physical {directory parts reached : List (List UInt8)} {links : Nat}
    {result : Option (List (List UInt8))} (resolves : Resolves link directory parts links result)
    (start : Physical link directory) (same : result = some reached) : Physical link reached := by
  induction resolves generalizing reached with
  | done directory =>
    cases same
    exact start
  | skip _ _ ih => exact ih start same
  | up _ ih => exact ih start.up same
  | above => cases same
  | follow _ _ _ _ ihTarget ihAfter => exact ihAfter (ihTarget (start.linkStart _) rfl) same
  | followAbove => cases same
  | enter name plain _ ih => exact ih (start.enter name plain) same

end Base
