import LashOs.Base.Path

/-!
# Pure paths

`PurePosixPath` of Python: a text is taken apart at its slashes, and empty components and
dots are dropped. Putting the components together and taking the text apart again gives the
same components.
-/
namespace Base

namespace PurePath

open Base.Path (slash)

def dot : List UInt8 := [46]

def dotdot : List UInt8 := [46, 46]

/-- A component that is kept. -/
def keep (c : List UInt8) : List (List UInt8) := if c = [] ∨ c = dot then [] else [c]

/-- The components of a text behind the bytes of one that were read before. -/
def componentsFrom : List UInt8 → List UInt8 → List (List UInt8)
  | read, [] => keep read
  | read, b :: text =>
    if b = slash then keep read ++ componentsFrom [] text else componentsFrom (read ++ [b]) text

def components (text : List UInt8) : List (List UInt8) := componentsFrom [] text

/-- `"/".join(components)` -/
def join : List (List UInt8) → List UInt8
  | [] => []
  | [c] => c
  | c :: d :: more => c ++ slash :: join (d :: more)

/-- `str.lstrip("/")` -/
def lstrip (text : List UInt8) : List UInt8 := text.dropWhile (· = slash)

end PurePath

open PurePath Base.Path

/-- `PurePosixPath`: exactly two slashes in front are a root of their own. -/
structure PurePosixPath where
  root : List UInt8
  tail : List (List UInt8)

namespace PurePosixPath

def ofText (text : List UInt8) : PurePosixPath where
  root :=
    if text.take 2 = [slash, slash] ∧ text.take 3 ≠ [slash, slash, slash] then [slash, slash]
    else if text.head? = some slash then [slash]
    else []
  tail := components text

def str (path : PurePosixPath) : List UInt8 :=
  if path.root = [] ∧ path.tail = [] then dot else path.root ++ join path.tail

def parts (path : PurePosixPath) : List (List UInt8) :=
  if path.root = [] then path.tail else path.root :: path.tail

def isAbsolute (path : PurePosixPath) : Bool := path.root ≠ []

/-- The last component, or nothing. -/
def name (path : PurePosixPath) : List UInt8 := path.tail.getLast?.getD []

/-- The last dot of the name and what follows it, if the dot is neither its first nor its last
byte. -/
def suffix (path : PurePosixPath) : List UInt8 :=
  let backwards := path.name.reverse
  let behind := backwards.takeWhile (· ≠ 46)
  let before := backwards.dropWhile (· ≠ 46)
  if behind ≠ [] ∧ 1 < before.length then 46 :: behind.reverse else []

end PurePosixPath

namespace PurePath

/-! ### Components -/

end PurePath

end Base
