import Mathlib.Data.List.Infix
import Mathlib.Tactic.Ring

/-!
# Directory trees

The contents of a directory: leaves and directories with their names, each name once. A path
is the list of the names that lead to an entry; the empty path is the directory itself.
Entries are removed with everything below them and are inserted into a directory that exists.
-/
namespace Base

/-- The entries of a directory. -/
inductive Forest (ν α : Type) where
  | nil
  | leaf (name : ν) (a : α) (rest : Forest ν α)
  | directory (name : ν) (inner rest : Forest ν α)
  deriving DecidableEq, Repr

/-- What stands at a path. -/
inductive Entry (α : Type) where
  | leaf (a : α)
  | directory
  deriving DecidableEq, Repr

/-- A regular file or a symbolic link, as leaves of a tree of files. -/
inductive FileLeaf where
  | file (mode : Nat) (bytes : List UInt8)
  | link (target : List UInt8)
  deriving DecidableEq, Repr

/-- The text of the link that is found. -/
def linkText : Option (Entry FileLeaf) → Option (List UInt8)
  | some (.leaf (.link target)) => some target
  | _ => none

namespace Forest

variable {ν α : Type}

def names : Forest ν α → List ν
  | nil => []
  | leaf name _ rest => name :: rest.names
  | directory name _ rest => name :: rest.names

/-- Every name is there once in its directory. -/
def Valid : Forest ν α → Prop
  | nil => True
  | leaf name _ rest => name ∉ rest.names ∧ rest.Valid
  | directory name inner rest => name ∉ rest.names ∧ inner.Valid ∧ rest.Valid

def leaves : Forest ν α → List (List ν)
  | nil => []
  | leaf name _ rest => [name] :: rest.leaves
  | directory name inner rest => inner.leaves.map (name :: ·) ++ rest.leaves

/-- A new entry in front of the others. -/
def add (name : ν) (f : Forest ν α) : Entry α → Forest ν α
  | .leaf a => leaf name a f
  | .directory => directory name nil f

variable [DecidableEq ν]

def lookup : Forest ν α → List ν → Option (Entry α)
  | _, [] => some .directory
  | nil, _ :: _ => none
  | leaf m a rest, n :: p =>
    if n = m then (if p = [] then some (.leaf a) else none) else rest.lookup (n :: p)
  | directory m inner rest, n :: p => if n = m then inner.lookup p else rest.lookup (n :: p)

/-- The contents of the directory at a path. -/
def subtree : Forest ν α → List ν → Option (Forest ν α)
  | f, [] => some f
  | nil, _ :: _ => none
  | leaf m _ rest, n :: p => if n = m then none else rest.subtree (n :: p)
  | directory m inner rest, n :: p => if n = m then inner.subtree p else rest.subtree (n :: p)

/-- Removes the entry at a path and what is below it. -/
def remove : Forest ν α → List ν → Forest ν α
  | nil, _ => nil
  | leaf m a rest, p => if p = [m] then rest.remove p else leaf m a (rest.remove p)
  | directory m inner rest, p =>
    if p = [m] then rest.remove p
    else if p.head? = some m then directory m (inner.remove p.tail) (rest.remove p)
    else directory m inner (rest.remove p)

/-- Adds an entry at a path into the directory that is there. -/
def insert : Forest ν α → List ν → Entry α → Forest ν α
  | f, [], _ => f
  | f, [n], e => f.add n e
  | nil, _ :: _ :: _, _ => nil
  | leaf m a rest, n :: k :: p, e => leaf m a (rest.insert (n :: k :: p) e)
  | directory m inner rest, n :: k :: p, e =>
    if n = m then directory m (inner.insert (k :: p) e) rest
    else directory m inner (rest.insert (n :: k :: p) e)

/-! ### Looking up -/

@[simp] theorem lookup_root (f : Forest ν α) : f.lookup [] = some .directory := by cases f <;> rfl

@[simp] theorem subtree_root (f : Forest ν α) : f.subtree [] = some f := by cases f <;> rfl

variable {p : List ν}

/-- Below the contents of a directory stands what is below its path. -/
theorem lookup_append {f g : Forest ν α} (found : f.subtree p = some g) (q : List ν) :
    f.lookup (p ++ q) = g.lookup q := by
  induction f generalizing p with
  | nil =>
    cases p with
    | nil =>
      cases found
      rfl
    | cons n p => cases found
  | leaf m a rest ih =>
    cases p with
    | nil =>
      cases found
      rfl
    | cons n p =>
      rw [subtree] at found
      split at found
      · cases found
      next other =>
        rw [List.cons_append, lookup, if_neg other]
        exact ih found
  | directory m inner rest ihInner ihRest =>
    cases p with
    | nil =>
      cases found
      rfl
    | cons n p =>
      rw [subtree] at found
      rw [List.cons_append, lookup]
      split at found
      next same => rw [if_pos same, ihInner found]
      next other =>
        rw [if_neg other]
        exact ihRest found

variable {f : Forest ν α}

theorem lookup_eq_directory : f.lookup p = some .directory ↔ ∃ g, f.subtree p = some g := by
  constructor
  · intro found
    induction f generalizing p with
    | nil =>
      cases p with
      | nil => exact ⟨nil, rfl⟩
      | cons n p => cases found
    | leaf m a rest ih =>
      cases p with
      | nil => exact ⟨_, rfl⟩
      | cons n p =>
        rw [lookup] at found
        rw [subtree]
        split at found
        · split at found <;> cases found
        next other =>
          rw [if_neg other]
          exact ih found
    | directory m inner rest ihInner ihRest =>
      cases p with
      | nil => exact ⟨_, rfl⟩
      | cons n p =>
        rw [lookup] at found
        rw [subtree]
        split at found
        next same =>
          rw [if_pos same]
          exact ihInner found
        next other =>
          rw [if_neg other]
          exact ihRest found
  · rintro ⟨g, found⟩
    have here := lookup_append found []
    rwa [List.append_nil, lookup_root] at here

theorem mem_leaves_of_lookup {a : α} (found : f.lookup p = some (.leaf a)) : p ∈ f.leaves := by
  induction f generalizing p with
  | nil => cases p <;> cases found
  | leaf m b rest ih =>
    cases p with
    | nil => cases found
    | cons n p =>
      rw [lookup] at found
      split at found
      next same =>
        split at found
        next last =>
          rw [same, last]
          exact List.mem_cons_self
        · cases found
      · exact List.mem_cons_of_mem _ (ih found)
  | directory m inner rest ihInner ihRest =>
    cases p with
    | nil => cases found
    | cons n p =>
      rw [lookup] at found
      split at found
      next same =>
        rw [same]
        exact List.mem_append_left _ (List.mem_map_of_mem (ihInner found))
      · exact List.mem_append_right _ (ihRest found)

/-- An entry stands in a directory. -/
theorem lookup_eq_none_of_not_directory (other : f.lookup p ≠ some .directory) {q : List ν}
    (below : q ≠ []) : f.lookup (p ++ q) = none := by
  induction f generalizing p with
  | nil =>
    cases p with
    | nil => exact absurd rfl other
    | cons n p => rfl
  | leaf m a rest ih =>
    cases p with
    | nil => exact absurd rfl other
    | cons n p =>
      rw [lookup] at other
      rw [List.cons_append, lookup]
      split at other
      next same => rw [if_pos same, if_neg (by simp [below])]
      next differs =>
        rw [if_neg differs]
        exact ih other
  | directory m inner rest ihInner ihRest =>
    cases p with
    | nil => exact absurd rfl other
    | cons n p =>
      rw [lookup] at other
      rw [List.cons_append, lookup]
      split at other
      next same => rw [if_pos same, ihInner other]
      next differs =>
        rw [if_neg differs]
        exact ihRest other

theorem lookup_parent {p q : List ν} (below : q ≠ []) (here : f.lookup (p ++ q) ≠ none) :
    f.lookup p = some .directory := by
  by_contra other
  exact here (lookup_eq_none_of_not_directory other below)

/-- On the way to a directory there are directories only. -/
theorem lookup_of_directory {p q : List ν} (inside : p <+: q)
    (here : f.lookup q = some .directory) : f.lookup p = some .directory := by
  obtain ⟨rest, rfl⟩ := inside
  by_cases last : rest = []
  · rwa [last, List.append_nil] at here
  · exact lookup_parent last (by simp [here])

/-! ### Links on the way -/

/-- A proper part of the path is a link, so that the path leads elsewhere. -/
def throughLink (f : Forest ν FileLeaf) (path : List ν) : Bool :=
  (List.range path.length).any fun k => (linkText (f.lookup (path.take k))).isSome

theorem throughLink_concat {f : Forest ν FileLeaf} {parent : List ν}
    (direct : ∀ p, p <+: parent → linkText (f.lookup p) = none) (n : ν) :
    f.throughLink (parent ++ [n]) = false := by
  rw [throughLink, List.any_eq_false]
  intro k inside
  have short : k ≤ parent.length := by
    rw [List.mem_range, List.length_append, List.length_singleton] at inside
    omega
  rw [List.take_append_of_le_length short, direct _ (List.take_prefix k parent)]
  exact Bool.false_ne_true

/-- What is found at a path itself is not behind a link. -/
theorem throughLink_of_found {f : Forest ν FileLeaf} {path : List ν}
    (found : f.lookup path ≠ none) : f.throughLink path = false := by
  rw [throughLink, List.any_eq_false]
  intro k inside
  have below : path.drop k ≠ [] := by
    rw [List.mem_range] at inside
    simp [inside]
  rw [← List.take_append_drop k path] at found
  rw [lookup_parent below found]
  exact Bool.false_ne_true

/-! ### Removing and inserting -/

/-- Where only the first name is cleared, it matters what is found under other names. -/
theorem ite_prefix_congr {f g : Forest ν α} {m k : ν} {q : List ν}
    (beside : k ≠ m → g.lookup (k :: q) = f.lookup (k :: q)) :
    (if [m] <+: k :: q then none else f.lookup (k :: q)) =
      if [m] <+: k :: q then none else g.lookup (k :: q) := by
  by_cases same : k = m
  · simp [same]
  · rw [beside same]

theorem lookup_remove (f : Forest ν α) (nonempty : p ≠ []) (q : List ν) :
    (f.remove p).lookup q = if p <+: q then none else f.lookup q := by
  cases q with
  | nil => simp [nonempty]
  | cons k q =>
    -- What is removed is this entry, or it is below this entry or behind it.
    induction f generalizing p q k with
    | nil => simp [remove, lookup]
    | leaf m a rest ih =>
      rw [remove]
      by_cases here : p = [m]
      · subst here
        rw [if_pos rfl, ih nonempty]
        exact ite_prefix_congr fun other => by rw [lookup, if_neg other]
      · rw [if_neg here, lookup]
        by_cases same : k = m
        · subst same
          rw [if_pos rfl, lookup, if_pos rfl]
          by_cases last : q = []
          · have apart : ¬ p <+: k :: q := by
              rw [last]
              intro inside
              rcases List.prefix_cons_iff.mp inside with none_ | ⟨t, rfl, tail⟩
              · exact nonempty none_
              · have empty : t = [] := List.prefix_nil.mp tail
                exact here (by rw [empty])
            rw [if_neg apart]
          · rw [if_neg last, ite_self]
        · rw [if_neg same, ih nonempty, lookup, if_neg same]
    | directory m inner rest ihInner ihRest =>
      rw [remove]
      by_cases here : p = [m]
      · subst here
        rw [if_pos rfl, ihRest nonempty]
        exact ite_prefix_congr fun other => by rw [lookup, if_neg other]
      · rw [if_neg here]
        cases p with
        | nil => exact absurd rfl nonempty
        | cons n p =>
          have below : n = m → p ≠ [] := fun same empty => here (by rw [same, empty])
          simp only [List.head?_cons, List.tail_cons, Option.some.injEq]
          by_cases first : n = m
          · subst first
            rw [if_pos rfl, lookup, lookup]
            by_cases same : k = n
            · subst same
              rw [if_pos rfl, if_pos rfl]
              cases q with
              | nil => simp [below rfl]
              | cons j q =>
                rw [ihInner (below rfl)]
                simp [List.cons_prefix_cons]
            · rw [if_neg same, if_neg same, ihRest nonempty]
          · rw [if_neg first, lookup, lookup]
            by_cases same : k = m
            · subst same
              rw [if_pos rfl, if_pos rfl, if_neg (by simp [List.cons_prefix_cons, first])]
            · rw [if_neg same, if_neg same, ihRest nonempty]

theorem lookup_add (f : Forest ν α) (n : ν) (e : Entry α) (q : List ν)
    (absent : f.lookup [n] = none) :
    (f.add n e).lookup q = if q = [n] then some e else f.lookup q := by
  cases q with
  | nil => simp
  | cons k q =>
    have below : f.lookup (n :: q) = none := by
      cases q with
      | nil => exact absent
      | cons j q =>
        have other : f.lookup [n] ≠ some .directory := by simp [absent]
        exact lookup_eq_none_of_not_directory other (List.cons_ne_nil j q)
    cases e with
    | leaf a =>
      rw [add, lookup]
      by_cases same : k = n
      · subst same
        by_cases last : q = []
        · simp [last]
        · simp [last, below]
      · simp [same]
    | directory =>
      rw [add, lookup]
      by_cases same : k = n
      · subst same
        cases q with
        | nil => simp
        | cons j q => simp [lookup, below]
      · simp [same]

/-- A new entry in a directory that exists changes nothing else. -/
theorem lookup_insert {n : ν} (parent : f.lookup p = some .directory)
    (absent : f.lookup (p ++ [n]) = none) (e : Entry α) (q : List ν) :
    (f.insert (p ++ [n]) e).lookup q = if q = p ++ [n] then some e else f.lookup q := by
  -- The parent is the forest itself, or it is below this entry or behind it.
  induction f generalizing p q with
  | nil =>
    cases p with
    | nil => exact lookup_add nil n e q absent
    | cons m p => cases parent
  | leaf m a rest ih =>
    cases p with
    | nil => exact lookup_add (leaf m a rest) n e q absent
    | cons k p =>
      rw [lookup] at parent
      rw [List.cons_append, lookup] at absent
      split at parent
      · split at parent <;> cases parent
      next other =>
        rw [if_neg other] at absent
        have inside := ih parent absent
        obtain ⟨j, r, shape⟩ := List.exists_cons_of_ne_nil (List.append_ne_nil_of_right_ne_nil p
          (List.cons_ne_nil n []))
        rw [List.cons_append] at inside ⊢
        rw [shape] at inside ⊢
        rw [insert]
        cases q with
        | nil => simp
        | cons i q =>
          rw [lookup, lookup, inside]
          by_cases same : i = m
          · subst same
            have apart : ¬ (i :: q = k :: j :: r) := by simp [Ne.symm other]
            rw [if_pos rfl, if_neg apart, if_pos rfl]
          · rw [if_neg same, if_neg same]
  | directory m inner rest ihInner ihRest =>
    cases p with
    | nil => exact lookup_add (directory m inner rest) n e q absent
    | cons k p =>
      rw [lookup] at parent
      rw [List.cons_append, lookup] at absent
      obtain ⟨j, r, shape⟩ := List.exists_cons_of_ne_nil (List.append_ne_nil_of_right_ne_nil p
        (List.cons_ne_nil n []))
      rw [List.cons_append]
      split at parent
      next first =>
        rw [if_pos first] at absent
        have inside := ihInner parent absent
        rw [shape] at inside ⊢
        rw [insert, if_pos first]
        cases q with
        | nil => simp
        | cons i q =>
          rw [lookup, lookup, inside]
          by_cases same : i = m
          · subst same
            rw [if_pos rfl, if_pos rfl]
            simp [first]
          · have apart : ¬ (i :: q = k :: j :: r) := by simp [first, same]
            rw [if_neg same, if_neg apart, if_neg same]
      next first =>
        rw [if_neg first] at absent
        have inside := ihRest parent absent
        rw [List.cons_append, shape] at inside
        rw [shape, insert, if_neg first]
        cases q with
        | nil => simp
        | cons i q =>
          rw [lookup, lookup, inside]
          by_cases same : i = m
          · subst same
            have apart : ¬ (i :: q = k :: j :: r) := by simp [Ne.symm first]
            rw [if_pos rfl, if_neg apart, if_pos rfl]
          · rw [if_neg same, if_neg same]

/-! ### Names stay unique -/

theorem mem_names_remove {n : ν} (member : n ∈ (f.remove p).names) : n ∈ f.names := by
  induction f with
  | nil => exact member
  | leaf m a rest ih =>
    rw [remove] at member
    split at member
    · exact List.mem_cons_of_mem _ (ih member)
    · rcases List.mem_cons.mp member with rfl | later
      · exact List.mem_cons_self
      · exact List.mem_cons_of_mem _ (ih later)
  | directory m inner rest _ ih =>
    rw [remove] at member
    split at member
    · exact List.mem_cons_of_mem _ (ih member)
    · have either : n = m ∨ n ∈ (rest.remove p).names := by
        split at member
        · exact List.mem_cons.mp member
        · exact List.mem_cons.mp member
      rcases either with rfl | later
      · exact List.mem_cons_self
      · exact List.mem_cons_of_mem _ (ih later)

theorem Valid.remove (valid : f.Valid) (p : List ν) : (f.remove p).Valid := by
  induction f generalizing p with
  | nil => trivial
  | leaf m a rest ih =>
    obtain ⟨fresh, validRest⟩ := valid
    rw [Forest.remove]
    split
    · exact ih validRest p
    · exact ⟨fun member => fresh (mem_names_remove member), ih validRest p⟩
  | directory m inner rest ihInner ihRest =>
    obtain ⟨fresh, validInner, validRest⟩ := valid
    have still : m ∉ (rest.remove p).names := fun member => fresh (mem_names_remove member)
    rw [Forest.remove]
    split
    · exact ihRest validRest p
    · split
      · exact ⟨still, ihInner validInner p.tail, ihRest validRest p⟩
      · exact ⟨still, validInner, ihRest validRest p⟩

theorem mem_names_iff {n : ν} : n ∈ f.names ↔ f.lookup [n] ≠ none := by
  induction f with
  | nil => simp [names, lookup]
  | leaf m a rest ih =>
    by_cases same : n = m
    · simp [names, lookup, same]
    · simp [names, lookup, same, ih]
  | directory m inner rest _ ih =>
    by_cases same : n = m
    · simp [names, lookup, same]
    · simp [names, lookup, same, ih]

theorem lookup_of_fresh {n : ν} (fresh : n ∉ f.names) (q : List ν) : f.lookup (n :: q) = none := by
  have absent : f.lookup [n] = none := by
    by_contra found
    exact fresh (mem_names_iff.mpr found)
  by_cases last : q = []
  · rwa [last]
  · have other : f.lookup [n] ≠ some .directory := by simp [absent]
    exact lookup_eq_none_of_not_directory other last

theorem Valid.add (valid : f.Valid) {n : ν} (absent : f.lookup [n] = none) (e : Entry α) :
    (f.add n e).Valid := by
  have fresh : n ∉ f.names := fun member => mem_names_iff.mp member absent
  cases e with
  | leaf a => exact ⟨fresh, valid⟩
  | directory => exact ⟨fresh, trivial, valid⟩

theorem names_insert (f : Forest ν α) (n k : ν) (p : List ν) (e : Entry α) :
    (f.insert (n :: k :: p) e).names = f.names := by
  induction f with
  | nil => rfl
  | leaf m a rest ih => rw [insert, names, names, ih]
  | directory m inner rest _ ih =>
    rw [insert]
    split
    · rfl
    · rw [names, names, ih]

theorem Valid.insert (valid : f.Valid) (absent : f.lookup p = none) (e : Entry α) :
    (f.insert p e).Valid := by
  induction f generalizing p with
  | nil =>
    match p, absent with
    | [n], absent => exact Valid.add valid absent e
    | _ :: _ :: _, _ => trivial
  | leaf m a rest ih =>
    match p, absent with
    | [n], absent => exact Valid.add valid absent e
    | n :: k :: p, absent =>
      obtain ⟨fresh, validRest⟩ := valid
      rw [Forest.insert]
      refine ⟨by rwa [names_insert], ?_⟩
      by_cases same : n = m
      · -- Nothing is inserted behind the leaf, whose name is not there again.
        subst same
        exact ih validRest (lookup_of_fresh fresh (k :: p))
      · rw [lookup, if_neg same] at absent
        exact ih validRest absent
  | directory m inner rest ihInner ihRest =>
    match p, absent with
    | [n], absent => exact Valid.add valid absent e
    | n :: k :: p, absent =>
      obtain ⟨fresh, validInner, validRest⟩ := valid
      rw [lookup] at absent
      rw [Forest.insert]
      split
      next same =>
        rw [if_pos same] at absent
        exact ⟨fresh, ihInner validInner absent, validRest⟩
      next other =>
        rw [if_neg other] at absent
        exact ⟨by rwa [names_insert], validInner, ihRest validRest absent⟩

theorem Valid.subtree {f g : Forest ν α} (valid : f.Valid) (found : f.subtree p = some g) :
    g.Valid := by
  induction f generalizing p with
  | nil =>
    cases p with
    | nil =>
      cases found
      exact valid
    | cons n p => cases found
  | leaf m a rest ih =>
    cases p with
    | nil =>
      cases found
      exact valid
    | cons n p =>
      rw [Forest.subtree] at found
      split at found
      · cases found
      · exact ih valid.2 found
  | directory m inner rest ihInner ihRest =>
    cases p with
    | nil =>
      cases found
      exact valid
    | cons n p =>
      rw [Forest.subtree] at found
      split at found
      · exact ihInner valid.2.1 found
      · exact ihRest valid.2.2 found

end Forest

end Base
