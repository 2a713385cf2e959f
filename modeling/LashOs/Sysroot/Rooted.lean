import LashOs.Base.CString
import LashOs.Base.Forest
import LashOs.Base.Resolution

/-!
# Paths in a foreign sysroot

`rooted` of `runtime.py` resolves a name as if the sysroot were the root of the file system:
the files it names are bundled with a release. It asks the host for one candidate after the
other, and the host follows every link that is on the way to a candidate. What the host finds
on such a way is not known here.
-/
namespace LashOs.Sysroot

open Base PurePath Path

/-- A sysroot on the host. `beyond` is what the host finds at a path that leads through a link
of the sysroot, perhaps out of it. -/
structure Root where
  tree : Forest (List UInt8) FileLeaf
  beyond : List (List UInt8) → Option (Entry FileLeaf)

namespace Root

def link (s : Root) (path : List (List UInt8)) : Option (List UInt8) := linkText (s.tree.lookup path)

/-- `lstat` of the host below the sysroot. -/
def lstat (s : Root) (path : List (List UInt8)) : Option (Entry FileLeaf) :=
  if s.tree.throughLink path then s.beyond path else s.tree.lookup path

end Root

inductive ValueError where
  -- `Path escapes sysroot: {name}`
  | escapes (name : List UInt8)
  -- `Symlink loop in sysroot: {name}`
  | loop (name : List UInt8)
  deriving DecidableEq, Repr

/-- The loop over the pending components, with the ones that are resolved and the number of
links so far. -/
def rootedLoop (s : Root) (name : List UInt8) (pending resolved : List (List UInt8)) (links : Nat) :
    Except ValueError (List (List UInt8)) :=
  match pending with
  | [] => .ok resolved
  | part :: pending =>
    if part = [] ∨ part = dot then rootedLoop s name pending resolved links
    else if part = dotdot then
      if resolved = [] then .error (.escapes name)
      else rootedLoop s name pending resolved.dropLast links
    else
      -- `candidate.is_symlink()` and `candidate.readlink()`
      match linkText (s.lstat (resolved ++ [part])) with
      | some text =>
        if links + 1 > 40 then .error (.loop name)
        else
          let target := PurePosixPath.ofText text
          rootedLoop s name ((PurePosixPath.ofText (lstrip target.str)).parts ++ pending)
            (if target.isAbsolute then [] else resolved) (links + 1)
      | none => rootedLoop s name pending (resolved ++ [part]) links
termination_by (40 - links, pending.length)

/-- The components below the sysroot to which a name leads. -/
def rooted (s : Root) (name : List UInt8) : Except ValueError (List (List UInt8)) :=
  rootedLoop s name ((PurePosixPath.ofText (slash :: lstrip name)).parts.drop 1) [] 0

/-! ### One turn of the loop -/

variable {s : Root} {name : List UInt8} {part : List UInt8} {pending resolved : List (List UInt8)}
  {links : Nat}

def continued (s : Root) (name : List UInt8) (pending : List (List UInt8)) (links : Nat) :
    Option (List (List UInt8)) → Except ValueError (List (List UInt8))
  | some reached => rootedLoop s name pending reached links
  | none => .error (.escapes name)

/-- How the loop ends: with a resolution of the pending parts that has few enough links, or
with too many links. -/
inductive Ends (s : Root) (name : List UInt8) (pending resolved : List (List UInt8)) (links : Nat) :
    Except ValueError (List (List UInt8)) → Prop
  | reached {count components} (few : links + count ≤ 40)
      (resolves : Resolves s.link resolved pending count (some components)) :
      Ends s name pending resolved links (.ok components)
  | escapes {count} (few : links + count ≤ 40)
      (resolves : Resolves s.link resolved pending count none) :
      Ends s name pending resolved links (.error (.escapes name))
  | loop : Ends s name pending resolved links (.error (.loop name))

theorem Ends.map {pending' resolved' : List (List UInt8)} {links' : Nat}
    {result : Except ValueError (List (List UInt8))}
    (ends : Ends s name pending resolved links result)
    (extend : ∀ count reached, links + count ≤ 40 → Resolves s.link resolved pending count reached →
      ∃ count', links' + count' ≤ 40 ∧ Resolves s.link resolved' pending' count' reached) :
    Ends s name pending' resolved' links' result := by
  cases ends with
  | reached few resolves =>
    obtain ⟨count', few', resolves'⟩ := extend _ _ few resolves
    exact .reached few' resolves'
  | escapes few resolves =>
    obtain ⟨count', few', resolves'⟩ := extend _ _ few resolves
    exact .escapes few' resolves'
  | loop => exact .loop

end LashOs.Sysroot
