import LashOs.SourceTree.Sync

/-!
# The copy is exact

After `sync_tree` the destination is the source, as far as names that are not excluded go.
Everything is said of what is found at a path. The first loop removes the obsolete paths and
what is below them. The second loop goes by depth: when a path has its turn, the directories
above it are already those of the source, so no path leads through a link; and if the path
already is what it should be, nothing is done.
-/
namespace LashOs.SourceTree

open Base

/-! ### Listing -/

def Included (q : List Name) : Prop := ∀ n ∈ q, n ∉ excluded

instance (q : List Name) : Decidable (Included q) := inferInstanceAs (Decidable (∀ n ∈ q, n ∉ excluded))

variable {q : List Name}

theorem included_cons {n : Name} : Included (n :: q) ↔ n ∉ excluded ∧ Included q :=
  List.forall_mem_cons

theorem included_nil : Included [] := fun _ member => by cases member

theorem mem_entriesOf {f : Tree} (valid : f.Valid) :
    q ∈ entriesOf f ↔ q ≠ [] ∧ Included q ∧ f.lookup q ≠ none := by
  induction f generalizing q with
  | nil => cases q <;> simp [entriesOf, Forest.lookup]
  | leaf m a rest ih =>
    obtain ⟨fresh, validRest⟩ := valid
    rw [entriesOf, List.mem_append, ih validRest]
    cases q with
    | nil => simp
    | cons k q =>
      by_cases same : k = m
      · subst same
        -- The names of a directory are different, so under this name the rest has nothing.
        have hidden := Forest.lookup_of_fresh fresh q
        by_cases out : k ∈ excluded
        · simp [out, hidden, included_cons]
        · cases q with
          | nil => simp [out, hidden, included_cons, included_nil, Forest.lookup]
          | cons j q => simp [out, hidden, Forest.lookup]
      · simp [same, Forest.lookup]
  | directory m inner rest ihInner ihRest =>
    obtain ⟨fresh, validInner, validRest⟩ := valid
    rw [entriesOf, List.mem_append, ihRest validRest]
    cases q with
    | nil => simp
    | cons k q =>
      by_cases same : k = m
      · subst same
        have hidden := Forest.lookup_of_fresh fresh q
        by_cases out : k ∈ excluded
        · simp [out, hidden, included_cons]
        · cases q with
          | nil => simp [out, hidden, included_cons, included_nil, Forest.lookup]
          | cons j q => simp [out, hidden, Forest.lookup, ihInner validInner, included_cons]
      · simp [same, Ne.symm same, Forest.lookup]

theorem mem_entries {tree : Tree} (valid : tree.Valid) {root : List Name}
    (isDirectory : tree.lookup root = some .directory) :
    q ∈ entries tree root ↔ q ≠ [] ∧ Included q ∧ tree.lookup (root ++ q) ≠ none := by
  obtain ⟨contents, found⟩ := Forest.lookup_eq_directory.mp isDirectory
  rw [entries, found, Forest.lookup_append found]
  exact mem_entriesOf (valid.subtree found)

/-! ### Operations at a place -/

structure Placed (tree : Tree) (path : List Name) : Prop where
  nonempty : path ≠ []
  parent : tree.lookup path.dropLast = some .directory

variable {env : Environment} {d : Disk} {path : List Name} {tree : Tree}

theorem visit_of_direct (nonempty : path ≠ [])
    (direct : ∀ p, p <+: path.dropLast → linkText (d.tree.lookup p) = none) :
    d.visit path = .ok (d.tree.lookup path) := by
  have away := Forest.throughLink_concat direct (path.getLast nonempty)
  rw [List.dropLast_concat_getLast] at away
  rw [Disk.visit, away, if_neg Bool.false_ne_true]

theorem Placed.of_lookup (nonempty : path ≠ []) (here : tree.lookup path ≠ none) :
    Placed tree path := by
  refine ⟨nonempty, Forest.lookup_parent (List.cons_ne_nil (path.getLast nonempty) []) ?_⟩
  rwa [List.dropLast_concat_getLast]

theorem Placed.visit (placed : Placed d.tree path) : d.visit path = .ok (d.tree.lookup path) := by
  refine visit_of_direct placed.nonempty fun p inside => ?_
  rw [Forest.lookup_of_directory inside placed.parent]
  rfl

theorem not_prefix_dropLast (nonempty : path ≠ []) : ¬ path <+: path.dropLast := by
  intro inside
  have longer := inside.length_le
  have positive := List.length_pos_iff.mpr nonempty
  rw [List.length_dropLast] at longer
  omega

theorem Placed.remove (placed : Placed tree path) : Placed (tree.remove path) path := by
  refine ⟨placed.nonempty, ?_⟩
  rw [Forest.lookup_remove tree placed.nonempty, if_neg (not_prefix_dropLast placed.nonempty)]
  exact placed.parent

theorem lookup_remove_self (tree : Tree) (nonempty : path ≠ []) :
    (tree.remove path).lookup path = none := by
  rw [Forest.lookup_remove tree nonempty, if_pos (List.prefix_refl path)]

theorem Placed.lookup_insert (placed : Placed tree path) (absent : tree.lookup path = none)
    (e : Entry FileLeaf) (x : List Name) :
    (tree.insert path e).lookup x = if x = path then some e else tree.lookup x := by
  have parent := placed.parent
  rw [← List.dropLast_concat_getLast placed.nonempty] at absent ⊢
  exact Forest.lookup_insert parent absent e x

/-- The entry at a path, with everything below it, is replaced by another one. -/
structure Replaces (tree : Tree) (path : List Name) (e : Entry FileLeaf) (tree' : Tree) : Prop where
  lookup : ∀ x, tree'.lookup x =
    if x = path then some e else if path <+: x then none else tree.lookup x
  valid : tree.Valid → tree'.Valid

theorem replaces_insert (placed : Placed tree path) (absent : tree.lookup path = none)
    (e : Entry FileLeaf) : Replaces tree path e (tree.insert path e) := by
  refine ⟨fun x => ?_, fun valid => valid.insert absent e⟩
  rw [placed.lookup_insert absent]
  by_cases same : x = path
  · rw [if_pos same, if_pos same]
  rw [if_neg same, if_neg same]
  by_cases below : path <+: x
  · obtain ⟨rest, rfl⟩ := below
    rw [if_pos (List.prefix_append path rest)]
    exact Forest.lookup_eq_none_of_not_directory (by simp [absent]) fun empty => same (by simp [empty])
  · rw [if_neg below]

theorem replaces_remove_insert (placed : Placed tree path) (e : Entry FileLeaf) :
    Replaces tree path e ((tree.remove path).insert path e) := by
  obtain ⟨lookup, valid⟩ := replaces_insert placed.remove (lookup_remove_self tree placed.nonempty) e
  refine ⟨fun x => ?_, fun before => valid (before.remove path)⟩
  rw [lookup]
  by_cases same : x = path
  · rw [if_pos same, if_pos same]
  rw [if_neg same, if_neg same, Forest.lookup_remove tree placed.nonempty]
  split
  · rfl
  · rfl

theorem Placed.create (placed : Placed d.tree path) (e : Entry FileLeaf) (change : Change) :
    d.create path e change = .ok ⟨d.tree.insert path e, d.changes ++ [change]⟩ :=
  if_pos placed.parent

theorem Placed.remove_eq (placed : Placed d.tree path) (here : d.tree.lookup path ≠ none) :
    d.remove env path = .ok ⟨d.tree.remove path, d.changes ++ [.removed path]⟩ := by
  rw [Disk.remove, placed.visit, ok_bind]
  match found : d.tree.lookup path with
  | none => exact absurd found here
  | some .directory =>
    rw [if_pos (by simp [isDir, isSymlink, stat, linkText]), Disk.rmtree, found]
  | some (.leaf (.file mode bytes)) =>
    rw [if_neg (by simp [isDir, stat]), Disk.unlink, found]
  | some (.leaf (.link text)) =>
    rw [if_neg (by simp [isSymlink, linkText]), Disk.unlink, found]

/-! ### One wanted path -/

/-- What a turn for a wanted path does: nothing if the entry is there, and else it is put there. -/
def Settles (path : List Name) (e : Entry FileLeaf) (d : Disk) (result : Except Fault Disk) : Prop :=
  ∃ d', result = .ok d' ∧ (d.tree.lookup path = some e ∧ d' = d ∨
    d.tree.lookup path ≠ some e ∧ Replaces d.tree path e d'.tree)

variable {e : Entry FileLeaf}

theorem settles_of_absent (placed : Placed d.tree path) (change : Change)
    (absent : d.tree.lookup path = none) : Settles path e d (d.create path e change) :=
  ⟨_, placed.create e change, Or.inr ⟨by simp [absent], replaces_insert placed absent e⟩⟩

theorem settles_of_removed (placed : Placed d.tree path) (change : Change)
    (other : d.tree.lookup path ≠ some e) :
    Settles path e d ((⟨d.tree.remove path, d.changes ++ [.removed path]⟩ : Disk).create path e change) :=
  ⟨_, placed.remove.create e change, Or.inr ⟨other, replaces_remove_insert placed e⟩⟩

theorem visit_removed (placed : Placed d.tree path) (changes : List Change) :
    (⟨d.tree.remove path, changes⟩ : Disk).visit path = .ok none := by
  have visited : (⟨d.tree.remove path, changes⟩ : Disk).visit path =
      .ok ((d.tree.remove path).lookup path) := Placed.visit placed.remove
  rw [visited, lookup_remove_self d.tree placed.nonempty]

theorem removeIf_false : d.removeIf env path false = .ok d := rfl

theorem Placed.removeIf_true (placed : Placed d.tree path) (here : d.tree.lookup path ≠ none) :
    d.removeIf env path true = .ok ⟨d.tree.remove path, d.changes ++ [.removed path]⟩ :=
  placed.remove_eq here

theorem exists_or_link (env : Environment) (tree : Tree) (path : List Name) (e : Entry FileLeaf) :
    (pathExists env tree path (some e) || isSymlink (some e)) = true := by
  cases e with
  | directory => rfl
  | leaf leaf =>
    cases leaf with
    | file _ _ => rfl
    | link _ => simp [isSymlink, linkText]

theorem syncLink_settles (placed : Placed d.tree path) (text : List UInt8) :
    Settles path (.leaf (.link text)) d (syncLink env d path text) := by
  rw [syncLink, placed.visit, ok_bind]
  match found : d.tree.lookup path with
  | none =>
    have free : (pathExists env d.tree path none || isSymlink none) = false := rfl
    rw [if_neg (by simp [linkText]), free, removeIf_false, ok_bind, Disk.symlinkTo, placed.visit,
      ok_bind, found]
    exact settles_of_absent placed _ found
  | some e =>
    by_cases same : linkText (some e) = some text
    · rw [if_pos same]
      have here : e = .leaf (.link text) := by
        match e, same with
        | .leaf (.link _), same =>
          cases same
          rfl
      exact ⟨d, rfl, Or.inl ⟨by rw [found, here], rfl⟩⟩
    · have inTheWay := exists_or_link env d.tree path e
      have other : d.tree.lookup path ≠ some (.leaf (.link text)) := by
        intro here
        rw [← found, here] at same
        exact same rfl
      rw [if_neg same, inTheWay, placed.removeIf_true (by simp [found]), ok_bind, Disk.symlinkTo,
        visit_removed placed, ok_bind]
      exact settles_of_removed placed _ other

theorem syncDirectory_settles (placed : Placed d.tree path) :
    Settles path .directory d (syncDirectory env d path) := by
  rw [syncDirectory, placed.visit, ok_bind]
  match found : d.tree.lookup path with
  | none =>
    have free : (isSymlink none || (pathExists env d.tree path none && !isDir env d.tree path none)) =
      false := rfl
    rw [free, removeIf_false, ok_bind, Disk.mkdir, placed.visit, ok_bind, found]
    exact settles_of_absent placed _ found
  | some .directory =>
    have free : (isSymlink (some .directory) || (pathExists env d.tree path (some .directory) &&
      !isDir env d.tree path (some .directory))) = false := rfl
    rw [free, removeIf_false, ok_bind, Disk.mkdir, placed.visit, ok_bind, found]
    exact ⟨d, rfl, Or.inl ⟨found, rfl⟩⟩
  | some (.leaf l) =>
    have inTheWay : (isSymlink (some (.leaf l)) || (pathExists env d.tree path (some (.leaf l)) &&
        !isDir env d.tree path (some (.leaf l)))) = true := by
      match l with
      | .file _ _ => rfl
      | .link _ => rfl
    rw [inTheWay, placed.removeIf_true (by simp [found]), ok_bind, Disk.mkdir, visit_removed placed,
      ok_bind]
    exact settles_of_removed placed _ (by simp [found])

theorem copy_settles_of_removed (placed : Placed d.tree path) (mode : Nat) (bytes : List UInt8)
    (other : d.tree.lookup path ≠ some (.leaf (.file mode bytes))) :
    Settles path (.leaf (.file mode bytes)) d
      ((⟨d.tree.remove path, d.changes ++ [.removed path]⟩ : Disk).copy path mode bytes) := by
  rw [Disk.copy, visit_removed placed, ok_bind]
  exact settles_of_removed placed _ other

theorem syncFile_settles (placed : Placed d.tree path) (mode : Nat) (bytes : List UInt8) :
    Settles path (.leaf (.file mode bytes)) d (syncFile env d path mode bytes) := by
  rw [syncFile, placed.visit, ok_bind]
  match found : d.tree.lookup path with
  | none =>
    have free : (isSymlink none || (pathExists env d.tree path none && !isFile env d.tree path none)) =
      false := rfl
    rw [free, removeIf_false, ok_bind, placed.visit, ok_bind, found]
    dsimp only
    rw [Disk.copy, placed.visit, ok_bind, found]
    exact settles_of_absent placed _ found
  | some (.leaf (.file mode' bytes')) =>
    have free : (isSymlink (some (.leaf (.file mode' bytes'))) ||
      (pathExists env d.tree path (some (.leaf (.file mode' bytes'))) &&
        !isFile env d.tree path (some (.leaf (.file mode' bytes'))))) = false := rfl
    rw [free, removeIf_false, ok_bind, placed.visit, ok_bind, found]
    dsimp only
    -- Only here the source compares: a file with other bytes or another mode is copied over.
    by_cases differs : bytes ≠ bytes' ∨ mode ≠ mode'
    · rw [if_pos differs, Disk.copy, placed.visit, ok_bind, found]
      refine ⟨_, rfl, Or.inr ⟨?_, replaces_remove_insert placed _⟩⟩
      rw [found]
      intro same
      cases same
      exact differs.elim (absurd rfl) (absurd rfl)
    · rw [if_neg differs]
      obtain ⟨sameBytes, sameMode⟩ := not_or.mp differs
      refine ⟨d, rfl, Or.inl ⟨?_, rfl⟩⟩
      rw [found, not_not.mp sameBytes, not_not.mp sameMode]
  | some .directory =>
    have inTheWay : (isSymlink (some .directory) || (pathExists env d.tree path (some .directory) &&
      !isFile env d.tree path (some .directory))) = true := rfl
    rw [inTheWay, placed.removeIf_true (by simp [found]), ok_bind, visit_removed placed, ok_bind]
    exact copy_settles_of_removed placed mode bytes (by simp [found])
  | some (.leaf (.link text)) =>
    have inTheWay : (isSymlink (some (.leaf (.link text))) ||
      (pathExists env d.tree path (some (.leaf (.link text))) &&
        !isFile env d.tree path (some (.leaf (.link text))))) = true := rfl
    rw [inTheWay, placed.removeIf_true (by simp [found]), ok_bind, visit_removed placed, ok_bind]
    exact copy_settles_of_removed placed mode bytes (by simp [found])

theorem syncOne_settles {source destination relative : List Name}
    (original : d.visit (source ++ relative) = .ok (some e))
    (placed : Placed d.tree (destination ++ relative)) :
    Settles (destination ++ relative) e d (syncOne env source destination d relative) := by
  rw [syncOne, original, ok_bind]
  match e with
  | .directory => exact syncDirectory_settles placed
  | .leaf (.file mode bytes) => exact syncFile_settles placed mode bytes
  | .leaf (.link text) => exact syncLink_settles placed text

/-! ### The destination is made -/

/-- Nothing or a directory: a way that a new directory may take. -/
def Free (here : Option (Entry FileLeaf)) : Prop := here = none ∨ here = some .directory

theorem linkText_of_free {here : Option (Entry FileLeaf)} (free : Free here) : linkText here = none := by
  rcases free with rfl | rfl
  · rfl
  · rfl

theorem Placed.concat {parent : List Name} (isDirectory : tree.lookup parent = some .directory) (n : Name) :
    Placed tree (parent ++ [n]) :=
  ⟨by simp, by rwa [List.dropLast_concat]⟩

theorem mkdir_spec (placed : Placed d.tree path) (free : Free (d.tree.lookup path)) :
    ∃ d', d.mkdir path = .ok d' ∧
      (∀ x, d'.tree.lookup x = if x = path then some .directory else d.tree.lookup x) ∧
      (d.tree.Valid → d'.tree.Valid) ∧ (d.tree.lookup path = some .directory → d' = d) := by
  rw [Disk.mkdir, placed.visit, ok_bind]
  rcases free with absent | present
  · rw [absent]
    exact ⟨_, placed.create _ _, placed.lookup_insert absent _, fun valid => valid.insert absent _,
      fun present => by cases present⟩
  · rw [present]
    refine ⟨d, rfl, fun x => ?_, id, fun _ => rfl⟩
    split
    next same => rw [same, present]
    next => rfl

/-- The directories on a way are made where they are missing. -/
theorem mkdirs_spec {base rest : List Name} (isDirectory : d.tree.lookup base = some .directory)
    (free : ∀ p, p <+: rest → Free (d.tree.lookup (base ++ p))) :
    ∃ d', d.mkdirs base rest = .ok d' ∧
      (∀ x, d'.tree.lookup x = if x <+: base ++ rest then some .directory else d.tree.lookup x) ∧
      (d.tree.Valid → d'.tree.Valid) ∧ (d.tree.lookup (base ++ rest) = some .directory → d' = d) := by
  induction rest generalizing d base with
  | nil =>
    refine ⟨d, rfl, fun x => ?_, id, fun _ => rfl⟩
    rw [List.append_nil]
    split
    next inside => exact Forest.lookup_of_directory inside isDirectory
    next => rfl
  | cons n rest ih =>
    have placed := Placed.concat isDirectory n
    have first : Free (d.tree.lookup (base ++ [n])) := free [n] (by simp)
    obtain ⟨d₁, made, lookup₁, valid₁, same₁⟩ := mkdir_spec placed first
    have there : d₁.tree.lookup (base ++ [n]) = some .directory := by rw [lookup₁, if_pos rfl]
    -- Making one directory leaves the rest of the way free.
    have freeRest : ∀ p, p <+: rest → Free (d₁.tree.lookup (base ++ [n] ++ p)) := by
      intro p inside
      rw [lookup₁]
      split
      · exact Or.inr rfl
      · rw [List.append_assoc]
        exact free (n :: p) (List.cons_prefix_cons.mpr ⟨rfl, inside⟩)
    obtain ⟨d₂, rest₂, lookup₂, valid₂, same₂⟩ := ih there freeRest
    have whole : base ++ [n] ++ rest = base ++ n :: rest := by simp
    rw [whole] at lookup₂ same₂
    refine ⟨d₂, by rw [Disk.mkdirs, made, ok_bind, rest₂], fun x => ?_, fun valid => valid₂ (valid₁ valid),
      fun present => ?_⟩
    · rw [lookup₂, lookup₁]
      split
      next => rfl
      next outside =>
        rw [if_neg]
        rintro rfl
        exact outside ⟨rest, whole⟩
    · have onTheWay : d.tree.lookup (base ++ [n]) = some .directory :=
        Forest.lookup_of_directory ⟨rest, whole⟩ present
      have unchanged := same₁ onTheWay
      subst unchanged
      exact same₂ present

/-! ### The obsolete paths -/

variable {destination source : List Name}

theorem removeObsolete_spec {relative : List Name} (nonempty : destination ++ relative ≠ [])
    (free : ∀ p, p <+: (destination ++ relative).dropLast → Free (d.tree.lookup p)) :
    ∃ d', removeObsolete env destination d relative = .ok d' ∧
      (∀ x, d'.tree.lookup x = if destination ++ relative <+: x then none else d.tree.lookup x) ∧
      (d.tree.Valid → d'.tree.Valid) := by
  rw [removeObsolete, visit_of_direct nonempty fun p inside => linkText_of_free (free p inside), ok_bind]
  cases found : d.tree.lookup (destination ++ relative) with
  -- The path went with a directory above it: nothing is below it either.
  | none =>
    refine ⟨d, rfl, fun x => ?_, id⟩
    split
    next below =>
      obtain ⟨rest, rfl⟩ := below
      by_cases last : rest = []
      · rw [last, List.append_nil, found]
      · exact Forest.lookup_eq_none_of_not_directory (by simp [found]) last
    next => rfl
  | some e =>
    have here : d.tree.lookup (destination ++ relative) ≠ none := by simp [found]
    have inTheWay := exists_or_link env d.tree (destination ++ relative) e
    rw [inTheWay, (Placed.of_lookup nonempty here).removeIf_true here]
    exact ⟨_, rfl, Forest.lookup_remove d.tree nonempty, fun valid => valid.remove _⟩

theorem removeAll_spec {paths : List (List Name)}
    (listed : ∀ q ∈ paths, destination ++ q ≠ [] ∧
      ∀ p, p <+: (destination ++ q).dropLast → Free (d.tree.lookup p)) :
    ∃ d', paths.foldlM (removeObsolete env destination) d = .ok d' ∧
      (∀ x, d'.tree.lookup x =
        if ∃ q ∈ paths, destination ++ q <+: x then none else d.tree.lookup x) ∧
      (d.tree.Valid → d'.tree.Valid) := by
  induction paths generalizing d with
  | nil => exact ⟨d, rfl, fun x => by simp, id⟩
  | cons q paths ih =>
    obtain ⟨nonempty, free⟩ := listed q List.mem_cons_self
    obtain ⟨d₁, removed, lookup₁, valid₁⟩ := removeObsolete_spec nonempty free
    -- Removing only turns entries into nothing, so no link comes into a way.
    have later : ∀ r ∈ paths, destination ++ r ≠ [] ∧
        ∀ p, p <+: (destination ++ r).dropLast → Free (d₁.tree.lookup p) := by
      intro r member
      obtain ⟨nonempty, free⟩ := listed r (List.mem_cons_of_mem q member)
      refine ⟨nonempty, fun p inside => ?_⟩
      rw [lookup₁]
      split
      · exact Or.inl rfl
      · exact free p inside
    obtain ⟨d₂, rest, lookup₂, valid₂⟩ := ih later
    refine ⟨d₂, ?_, fun x => ?_, fun valid => valid₂ (valid₁ valid)⟩
    · rw [List.foldlM_cons, removed]
      exact rest
    · rw [lookup₂, lookup₁]
      by_cases here : destination ++ q <+: x
      · simp [here]
      · simp [here]

/-! ### The wanted paths -/

structure Wanted (before : Tree) (source q : List Name) : Prop where
  nonempty : q ≠ []
  included : Included q
  present : before.lookup (source ++ q) ≠ none

theorem mem_entries_iff {before : Tree} (valid : before.Valid)
    (isDirectory : before.lookup source = some .directory) :
    q ∈ entries before source ↔ Wanted before source q := by
  rw [mem_entries valid isDirectory]
  exact ⟨fun ⟨nonempty, included, present⟩ => ⟨nonempty, included, present⟩,
    fun wanted => ⟨wanted.nonempty, wanted.included, wanted.present⟩⟩

theorem Wanted.parent {before : Tree} (wanted : Wanted before source q) :
    before.lookup (source ++ q.dropLast) = some .directory := by
  have placed := Placed.of_lookup (List.append_ne_nil_of_right_ne_nil _ wanted.nonempty) wanted.present
  rw [← List.dropLast_append_of_ne_nil wanted.nonempty]
  exact placed.parent

theorem Wanted.dropLast {before : Tree} (wanted : Wanted before source q) (deep : q.dropLast ≠ []) :
    Wanted before source q.dropLast :=
  ⟨deep, fun n member => wanted.included n (List.mem_of_mem_dropLast member), by simp [wanted.parent]⟩

/-- How far the copy has come: what is at the paths that are done, and what stays. -/
structure Synced (before : Tree) (source destination : List Name) (done : List (List Name))
    (tree : Tree) : Prop where
  valid : tree.Valid
  top : tree.lookup destination = some .directory
  untouched : ∀ q, tree.lookup (source ++ q) = before.lookup (source ++ q)
  settled : ∀ q ∈ done, tree.lookup (destination ++ q) = before.lookup (source ++ q)
  known : ∀ q, q ≠ [] → Included q → tree.lookup (destination ++ q) ≠ none →
    before.lookup (source ++ q) ≠ none
  directories : ∀ p, before.lookup (source ++ p) = some .directory →
    before.lookup (destination ++ p) = some .directory → tree.lookup (destination ++ p) = some .directory
  caches : ∀ p, before.lookup (source ++ p) = some .directory →
    before.lookup (destination ++ p) = some .directory → ∀ n ∈ excluded, ∀ q,
      tree.lookup (destination ++ (p ++ n :: q)) = before.lookup (destination ++ (p ++ n :: q))

theorem apart_append (apart : ¬ destination <+: source ∧ ¬ source <+: destination) (p q : List Name) :
    ¬ destination ++ p <+: source ++ q := by
  intro inside
  have first : destination <+: source ++ q := (List.prefix_append destination p).trans inside
  rcases List.prefix_or_prefix_of_prefix first (List.prefix_append source q) with below | above
  · exact apart.1 below
  · exact apart.2 above

theorem prefix_of_included {q p rest : List Name} {n : Name} (included : Included q) (out : n ∈ excluded)
    (inside : q <+: p ++ n :: rest) : q <+: p := by
  rcases List.prefix_or_prefix_of_prefix inside (List.prefix_append p (n :: rest)) with above | below
  · exact above
  -- Otherwise the excluded name would be one of the included path.
  · obtain ⟨tail, rfl⟩ := below
    rw [List.prefix_append_right_inj] at inside
    cases tail with
    | nil => rw [List.append_nil]
    | cons m tail =>
      have same : m = n := (List.cons_prefix_cons.mp inside).1
      exact absurd (included m (by simp)) (by simp [same, out])

section Step

variable {before : Tree} {done : List (List Name)} {q : List Name}

theorem Synced.placed (synced : Synced before source destination done d.tree)
    (wanted : Wanted before source q) (above : q.dropLast ≠ [] → q.dropLast ∈ done) :
    Placed d.tree (destination ++ q) := by
  refine ⟨by simp [wanted.nonempty], ?_⟩
  rw [List.dropLast_append_of_ne_nil wanted.nonempty]
  by_cases deep : q.dropLast = []
  · rw [deep, List.append_nil]
    exact synced.top
  · rw [synced.settled _ (above deep)]
    exact wanted.parent

theorem Synced.visit_source (synced : Synced before source destination done d.tree)
    (wanted : Wanted before source q) :
    d.visit (source ++ q) = .ok (before.lookup (source ++ q)) := by
  have here : d.tree.lookup (source ++ q) ≠ none := by
    rw [synced.untouched]
    exact wanted.present
  rw [(Placed.of_lookup (by simp [wanted.nonempty]) here).visit, synced.untouched]

/-- A wanted path that is replaced keeps everything that was settled before. -/
theorem Synced.replace (apart : ¬ destination <+: source ∧ ¬ source <+: destination)
    (synced : Synced before source destination done tree) (wanted : Wanted before source q)
    (older : ∀ r ∈ done, r.length ≤ q.length) {e : Entry FileLeaf} {tree' : Tree}
    (original : before.lookup (source ++ q) = some e)
    (other : tree.lookup (destination ++ q) ≠ some e)
    (replaces : Replaces tree (destination ++ q) e tree') :
    Synced before source destination (done ++ [q]) tree' := by
  -- Above a directory of both trees nothing is replaced.
  have notAbove : ∀ p, before.lookup (source ++ p) = some .directory →
      before.lookup (destination ++ p) = some .directory → ¬ q <+: p := by
    intro p inSource inDestination inside
    have both := Forest.lookup_of_directory ((List.prefix_append_right_inj destination).mpr inside)
      (synced.directories p inSource inDestination)
    have first := Forest.lookup_of_directory ((List.prefix_append_right_inj source).mpr inside) inSource
    rw [original] at first
    exact other (both.trans first.symm)
  have unchanged : ∀ x, ¬ destination ++ q <+: x → tree'.lookup x = tree.lookup x := by
    intro x outside
    rw [replaces.lookup, if_neg fun same => outside (by rw [same]), if_neg outside]
  constructor
  case valid => exact replaces.valid synced.valid
  case top =>
    rw [unchanged _ fun inside => ?_]
    · exact synced.top
    · have longer := inside.length_le
      have positive := List.length_pos_iff.mpr wanted.nonempty
      rw [List.length_append] at longer
      omega
  case untouched =>
    intro x
    rw [unchanged _ (apart_append apart q x)]
    exact synced.untouched x
  case settled =>
    -- What was settled is at most as deep, so it is not below the path that is replaced.
    intro r member
    rcases List.mem_append.mp member with earlier | last
    · by_cases same : r = q
      · rw [same, replaces.lookup, if_pos rfl, original]
      · rw [unchanged _ fun inside => ?_]
        · exact synced.settled r earlier
        · have below := (List.prefix_append_right_inj destination).mp inside
          exact same (below.eq_of_length_le (older r earlier)).symm
    · rw [List.mem_singleton.mp last, replaces.lookup, if_pos rfl, original]
  case known =>
    intro x nonempty included present
    by_cases same : x = q
    · rw [same, original]
      simp
    · refine synced.known x nonempty included ?_
      rw [replaces.lookup, if_neg fun eq => same (List.append_cancel_left eq)] at present
      split at present
      · exact absurd rfl present
      · exact present
  case directories =>
    intro p inSource inDestination
    rw [unchanged _ fun inside =>
      notAbove p inSource inDestination ((List.prefix_append_right_inj destination).mp inside)]
    exact synced.directories p inSource inDestination
  case caches =>
    intro p inSource inDestination n out rest
    rw [unchanged _ fun inside => ?_]
    · exact synced.caches p inSource inDestination n out rest
    · have below := (List.prefix_append_right_inj destination).mp inside
      exact notAbove p inSource inDestination (prefix_of_included wanted.included out below)

theorem Synced.settle (synced : Synced before source destination done tree)
    (here : tree.lookup (destination ++ q) = before.lookup (source ++ q)) :
    Synced before source destination (done ++ [q]) tree := by
  refine { synced with settled := fun r member => ?_ }
  rcases List.mem_append.mp member with earlier | last
  · exact synced.settled r earlier
  · rw [List.mem_singleton.mp last, here]

theorem syncOne_synced (apart : ¬ destination <+: source ∧ ¬ source <+: destination)
    (synced : Synced before source destination done d.tree) (wanted : Wanted before source q)
    (above : q.dropLast ≠ [] → q.dropLast ∈ done) (older : ∀ r ∈ done, r.length ≤ q.length) :
    ∃ d', syncOne env source destination d q = .ok d' ∧
      Synced before source destination (done ++ [q]) d'.tree := by
  obtain ⟨e, original⟩ := Option.ne_none_iff_exists'.mp wanted.present
  have visited := synced.visit_source wanted
  rw [original] at visited
  have settles : Settles (destination ++ q) e d (syncOne env source destination d q) :=
    syncOne_settles visited (synced.placed wanted above)
  obtain ⟨d', stepped, same | replaced⟩ := settles
  · obtain ⟨here, rfl⟩ := same
    exact ⟨d', stepped, synced.settle (here.trans original.symm)⟩
  · exact ⟨d', stepped, synced.replace apart wanted older original replaced.1 replaced.2⟩

/-- The whole loop, by depth. -/
theorem syncAll_synced (apart : ¬ destination <+: source ∧ ¬ source <+: destination)
    {todo : List (List Name)} (synced : Synced before source destination done d.tree)
    (sorted : todo.Pairwise fun p q => p.length ≤ q.length)
    (older : ∀ r ∈ done, ∀ q ∈ todo, r.length ≤ q.length)
    (listed : ∀ q ∈ todo, Wanted before source q)
    (complete : ∀ q, Wanted before source q → q ∈ done ∨ q ∈ todo) :
    ∃ d', todo.foldlM (syncOne env source destination) d = .ok d' ∧
      Synced before source destination (done ++ todo) d'.tree := by
  induction todo generalizing d done with
  | nil =>
    refine ⟨d, rfl, ?_⟩
    rwa [List.append_nil]
  | cons q todo ih =>
    have wanted := listed q List.mem_cons_self
    obtain ⟨first, sortedRest⟩ := List.pairwise_cons.mp sorted
    -- The directory of the path is less deep, so it had its turn.
    have above : q.dropLast ≠ [] → q.dropLast ∈ done := by
      intro deep
      have shorter : q.dropLast.length < q.length := by
        have positive := List.length_pos_iff.mpr wanted.nonempty
        rw [List.length_dropLast]
        omega
      rcases complete _ (wanted.dropLast deep) with earlier | later
      · exact earlier
      · rcases List.mem_cons.mp later with same | later
        · rw [same] at shorter
          omega
        · have deeper := first _ later
          omega
    have turn : ∃ d', syncOne env source destination d q = .ok d' ∧
        Synced before source destination (done ++ [q]) d'.tree :=
      syncOne_synced apart synced wanted above fun r member => older r member q List.mem_cons_self
    obtain ⟨d₁, stepped, synced₁⟩ := turn
    have older₁ : ∀ r ∈ done ++ [q], ∀ p ∈ todo, r.length ≤ p.length := by
      intro r member p later
      rcases List.mem_append.mp member with earlier | last
      · exact older r earlier p (List.mem_cons_of_mem q later)
      · rw [List.mem_singleton.mp last]
        exact first p later
    obtain ⟨d₂, rest, synced₂⟩ := ih synced₁ sortedRest older₁
      (fun p member => listed p (List.mem_cons_of_mem q member)) fun p wanted => by
        rcases complete p wanted with earlier | later
        · exact Or.inl (List.mem_append_left _ earlier)
        · rcases List.mem_cons.mp later with rfl | later
          · exact Or.inl (by simp)
          · exact Or.inr later
    refine ⟨d₂, ?_, ?_⟩
    · rw [List.foldlM_cons, stepped]
      exact rest
    · rwa [List.append_assoc, List.singleton_append] at synced₂

end Step

/-! ### The whole refresh -/

section Refresh

variable {before : Tree}

theorem sorted_wanted (paths : List (List Name)) :
    (paths.mergeSort shallower).Pairwise fun p q => p.length ≤ q.length := by
  have transitive : ∀ a b c : List Name, shallower a b → shallower b c → shallower a c := by
    intro a b c first second
    simp only [shallower, Bool.or_eq_true, Bool.and_eq_true, decide_eq_true_eq] at *
    rcases first with first | ⟨first, le⟩
    · left
      omega
    · rcases second with second | ⟨second, le'⟩
      · left
        omega
      · exact Or.inr ⟨first.trans second, List.le_trans le le'⟩
  have total : ∀ a b : List Name, (shallower a b || shallower b a) = true := by
    intro a b
    simp only [shallower, Bool.or_eq_true, Bool.and_eq_true, decide_eq_true_eq]
    rcases Nat.lt_trichotomy a.length b.length with less | same | more
    · exact Or.inl (Or.inl less)
    · rcases List.le_total (PurePath.join a) (PurePath.join b) with le | ge
      · exact Or.inl (Or.inr ⟨same, le⟩)
      · exact Or.inr (Or.inr ⟨same.symm, ge⟩)
    · exact Or.inr (Or.inl more)
  refine (List.pairwise_mergeSort transitive total paths).imp fun ordered => ?_
  simp only [shallower, Bool.or_eq_true, Bool.and_eq_true, decide_eq_true_eq] at ordered
  omega

theorem mem_order {paths : List (List Name)} {q : List Name} : q ∈ env.order paths ↔ q ∈ paths :=
  (env.perm paths).mem_iff

/-- What the second loop starts with: the obsolete paths are gone, and what a directory of both
trees holds under an excluded name is there. -/
theorem synced_start (apart : ¬ destination <+: source ∧ ¬ source <+: destination) {made cleared : Tree}
    (made_lookup : ∀ x, made.lookup x =
      if x <+: destination then some .directory else before.lookup x)
    {obsolete : List (List Name)}
    (listed : ∀ q, q ∈ obsolete ↔ (q ≠ [] ∧ Included q ∧ made.lookup (destination ++ q) ≠ none) ∧
      ¬ Wanted before source q)
    (cleared_lookup : ∀ x, cleared.lookup x =
      if ∃ q ∈ obsolete, destination ++ q <+: x then none else made.lookup x)
    (valid : cleared.Valid) : Synced before source destination [] cleared := by
  have made_source : ∀ q, made.lookup (source ++ q) = before.lookup (source ++ q) := by
    intro q
    rw [made_lookup, if_neg fun inside => apart.2 ((List.prefix_append source q).trans inside)]
  -- What is above a directory of the source is no obsolete path.
  have notAbove : ∀ p, before.lookup (source ++ p) = some .directory → ∀ q ∈ obsolete, ¬ q <+: p := by
    intro p inSource q member inside
    obtain ⟨⟨nonempty, included, -⟩, other⟩ := (listed q).mp member
    have present := Forest.lookup_of_directory ((List.prefix_append_right_inj source).mpr inside) inSource
    exact other ⟨nonempty, included, by simp [present]⟩
  constructor
  case valid => exact valid
  case top =>
    rw [cleared_lookup, if_neg, made_lookup, if_pos (List.prefix_refl destination)]
    rintro ⟨q, member, inside⟩
    have longer := inside.length_le
    have positive := List.length_pos_iff.mpr ((listed q).mp member).1.1
    rw [List.length_append] at longer
    omega
  case untouched =>
    intro q
    rw [cleared_lookup, if_neg, made_source]
    rintro ⟨o, -, inside⟩
    exact apart_append apart o q inside
  case settled =>
    intro q member
    cases member
  case known =>
    -- An included path that survived the first loop was not obsolete.
    intro q nonempty included present
    rw [cleared_lookup] at present
    split at present
    · exact absurd rfl present
    next kept =>
      by_contra absent
      have obsolete : q ∈ obsolete := (listed q).mpr ⟨⟨nonempty, included, present⟩,
        fun wanted => wanted.present absent⟩
      exact kept ⟨q, obsolete, List.prefix_refl _⟩
  case directories =>
    intro p inSource inDestination
    rw [cleared_lookup, if_neg, made_lookup]
    · split
      · rfl
      · exact inDestination
    · rintro ⟨q, member, inside⟩
      exact notAbove p inSource q member ((List.prefix_append_right_inj destination).mp inside)
  case caches =>
    intro p inSource inDestination n out rest
    rw [cleared_lookup, if_neg, made_lookup]
    · split
      next inside =>
        have longer := inside.length_le
        rw [List.length_append, List.length_append, List.length_cons] at longer
        omega
      · rfl
    · rintro ⟨q, member, inside⟩
      have below := (List.prefix_append_right_inj destination).mp inside
      exact notAbove p inSource q member
        (prefix_of_included ((listed q).mp member).1.2.1 out below)

theorem syncAll_unchanged {todo : List (List Name)}
    (listed : ∀ q ∈ todo, Wanted d.tree source q)
    (same : ∀ q ∈ todo, d.tree.lookup (destination ++ q) = d.tree.lookup (source ++ q)) :
    todo.foldlM (syncOne env source destination) d = .ok d := by
  induction todo with
  | nil => rfl
  | cons q todo ih =>
    have wanted := listed q List.mem_cons_self
    have here := same q List.mem_cons_self
    obtain ⟨e, original⟩ := Option.ne_none_iff_exists'.mp wanted.present
    have place : ∀ root : List Name, d.tree.lookup (root ++ q) = some e →
        Placed d.tree (root ++ q) := fun root present =>
      Placed.of_lookup (by simp [wanted.nonempty]) (by simp [present])
    have visited : d.visit (source ++ q) = .ok (some e) := by
      rw [(place source original).visit, original]
    have settles : Settles (destination ++ q) e d (syncOne env source destination d q) :=
      syncOne_settles visited (place destination (here.trans original))
    obtain ⟨d', stepped, ⟨-, rfl⟩ | ⟨other, -⟩⟩ := settles
    · rw [List.foldlM_cons, stepped]
      exact ih (fun p member => listed p (List.mem_cons_of_mem q member))
        fun p member => same p (List.mem_cons_of_mem q member)
    · exact absurd (here.trans original) other

structure Mirrored (before after : Tree) (source destination : List Name) : Prop where
  valid : after.Valid
  mirror : ∀ q, Included q → after.lookup (destination ++ q) = before.lookup (source ++ q)
  untouched : ∀ q, after.lookup (source ++ q) = before.lookup (source ++ q)
  caches : ∀ p, before.lookup (source ++ p) = some .directory →
    before.lookup (destination ++ p) = some .directory → ∀ n ∈ excluded, ∀ q,
      after.lookup (destination ++ (p ++ n :: q)) = before.lookup (destination ++ (p ++ n :: q))

theorem Synced.mirrored {done : List (List Name)} {after : Tree}
    (synced : Synced before source destination done after)
    (isDirectory : before.lookup source = some .directory)
    (complete : ∀ q, Wanted before source q → q ∈ done) : Mirrored before after source destination := by
  refine ⟨synced.valid, fun q included => ?_, synced.untouched, synced.caches⟩
  by_cases top : q = []
  · rw [top, List.append_nil, List.append_nil, synced.top, isDirectory]
  by_cases present : before.lookup (source ++ q) = none
  · by_contra differs
    rw [present] at differs
    exact synced.known q top included differs present
  · exact synced.settled q (complete q ⟨top, included, present⟩)

theorem syncTree_eq (env : Environment) {d₁ : Disk} (isDirectory : d.tree.lookup source = some .directory)
    (apart : ¬ destination <+: source ∧ ¬ source <+: destination)
    (made : d.mkdirs [] destination = .ok d₁) :
    syncTree env source destination d =
      (((env.order ((entries d₁.tree destination).filter (· ∉ entries d.tree source))).mergeSort
        fun p q => q.length ≤ p.length).foldlM (removeObsolete env destination) d₁ >>= fun d₂ =>
      ((env.order (entries d.tree source)).mergeSort shallower).foldlM
        (syncOne env source destination) d₂) := by
  rw [syncTree, if_neg (not_not.mpr isDirectory), if_neg (not_or.mpr apart), made, ok_bind]

theorem syncTree_mirrored (env : Environment) (valid : d.tree.Valid)
    (isDirectory : d.tree.lookup source = some .directory)
    (apart : ¬ destination <+: source ∧ ¬ source <+: destination)
    (way : ∀ p, p <+: destination → Free (d.tree.lookup p)) :
    ∃ d', syncTree env source destination d = .ok d' ∧ Mirrored d.tree d'.tree source destination := by
  have free : ∀ p, p <+: destination → Free (d.tree.lookup ([] ++ p)) := way
  obtain ⟨d₁, made, lookup₁, valid₁, -⟩ := mkdirs_spec (Forest.lookup_root d.tree) free
  rw [List.nil_append] at lookup₁
  have top₁ : d₁.tree.lookup destination = some .directory := by
    rw [lookup₁, if_pos (List.prefix_refl destination)]
  -- The first loop: what it removes is listed before it starts.
  rw [syncTree_eq env isDirectory apart made]
  set removals := (env.order ((entries d₁.tree destination).filter (· ∉ entries d.tree source))).mergeSort
    fun p q => q.length ≤ p.length with removals_eq
  have listed : ∀ q, q ∈ removals ↔
      (q ≠ [] ∧ Included q ∧ d₁.tree.lookup (destination ++ q) ≠ none) ∧ ¬ Wanted d.tree source q := by
    intro q
    rw [removals_eq, List.mem_mergeSort, mem_order, List.mem_filter, mem_entries (valid₁ valid) top₁,
      decide_eq_true_eq, mem_entries_iff valid isDirectory]
  -- To a path that was listed directories lead.
  have direct : ∀ q ∈ removals, destination ++ q ≠ [] ∧
      ∀ p, p <+: (destination ++ q).dropLast → Free (d₁.tree.lookup p) := by
    intro q member
    obtain ⟨⟨nonempty, -, present⟩, -⟩ := (listed q).mp member
    have whole : destination ++ q ≠ [] := by simp [nonempty]
    have placed := Placed.of_lookup whole present
    exact ⟨whole, fun p inside => Or.inr (Forest.lookup_of_directory inside placed.parent)⟩
  have cleared : ∃ d₂, removals.foldlM (removeObsolete env destination) d₁ = .ok d₂ ∧
      (∀ x, d₂.tree.lookup x =
        if ∃ q ∈ removals, destination ++ q <+: x then none else d₁.tree.lookup x) ∧
      (d₁.tree.Valid → d₂.tree.Valid) := removeAll_spec direct
  obtain ⟨d₂, removed, lookup₂, valid₂⟩ := cleared
  rw [removed, ok_bind]
  have start := synced_start apart lookup₁ listed lookup₂ (valid₂ (valid₁ valid))
  -- The second loop goes over the source as it was read at the start.
  set todo := (env.order (entries d.tree source)).mergeSort shallower with todo_eq
  have wanted : ∀ q, q ∈ todo ↔ Wanted d.tree source q := by
    intro q
    rw [todo_eq, List.mem_mergeSort, mem_order, mem_entries_iff valid isDirectory]
  have copied : ∃ d', todo.foldlM (syncOne env source destination) d₂ = .ok d' ∧
      Synced d.tree source destination ([] ++ todo) d'.tree :=
    syncAll_synced apart start (sorted_wanted _) (fun r member => by cases member)
      (fun q member => (wanted q).mp member) fun q isWanted => Or.inr ((wanted q).mpr isWanted)
  obtain ⟨d', copied, synced⟩ := copied
  exact ⟨d', copied, synced.mirrored isDirectory fun q isWanted => (wanted q).mpr isWanted⟩

/-- A refresh of a copy makes no change. -/
theorem syncTree_again (env : Environment) {after : Tree}
    (isDirectory : before.lookup source = some .directory)
    (apart : ¬ destination <+: source ∧ ¬ source <+: destination)
    (mirrored : Mirrored before after source destination) :
    syncTree env source destination ⟨after, []⟩ = .ok ⟨after, []⟩ := by
  have source₁ : after.lookup source = some .directory := by
    have same := mirrored.untouched []
    rwa [List.append_nil, isDirectory] at same
  have top : after.lookup destination = some .directory := by
    have same := mirrored.mirror [] included_nil
    rwa [List.append_nil, List.append_nil, isDirectory] at same
  have free : ∀ p, p <+: destination → Free (after.lookup ([] ++ p)) := fun p inside =>
    Or.inr (Forest.lookup_of_directory inside top)
  have made : (⟨after, []⟩ : Disk).mkdirs [] destination = .ok ⟨after, []⟩ := by
    obtain ⟨d₁, made, -, -, same⟩ := mkdirs_spec (d := ⟨after, []⟩) (Forest.lookup_root after) free
    rw [made, same top]
  -- In a copy no path is obsolete, and every wanted path is what it should be.
  have none_ : (entries after destination).filter (· ∉ entries after source) = [] := by
    rw [List.filter_eq_nil_iff]
    intro q member
    obtain ⟨nonempty, included, present⟩ := (mem_entries mirrored.valid top).mp member
    rw [mirrored.mirror q included, ← mirrored.untouched] at present
    rw [decide_eq_true_eq, not_not, mem_entries_iff mirrored.valid source₁]
    exact ⟨nonempty, included, present⟩
  have empty : env.order [] = [] := (env.perm []).eq_nil
  rw [syncTree_eq env source₁ apart made, none_, empty, List.mergeSort_nil, List.foldlM_nil]
  refine (ok_bind _ _).trans (syncAll_unchanged (fun q member => ?_) fun q member => ?_)
  · rw [List.mem_mergeSort, mem_order, mem_entries_iff mirrored.valid source₁] at member
    exact member
  · rw [List.mem_mergeSort, mem_order, mem_entries_iff mirrored.valid source₁] at member
    exact (mirrored.mirror q member.included).trans (mirrored.untouched q).symm

end Refresh

/-- `sync_tree` makes the destination the source as far as names go that are not excluded. It
leaves the source alone, and it leaves what is under an excluded name in a directory of both
trees. Doing it again, in any environment, makes no change. -/
theorem syncTree_mirrors (env : Environment) (source destination : List Name) (d : Disk)
    (valid : d.tree.Valid) (isDirectory : d.tree.lookup source = some .directory)
    (apart : ¬ destination <+: source ∧ ¬ source <+: destination)
    (way : ∀ p, p <+: destination → d.tree.lookup p = none ∨ d.tree.lookup p = some .directory) :
    ∃ d', syncTree env source destination d = .ok d' ∧
      (∀ q, Included q → d'.tree.lookup (destination ++ q) = d.tree.lookup (source ++ q)) ∧
      (∀ q, d'.tree.lookup (source ++ q) = d.tree.lookup (source ++ q)) ∧
      (∀ p, d.tree.lookup (source ++ p) = some .directory →
        d.tree.lookup (destination ++ p) = some .directory → ∀ n ∈ excluded, ∀ q,
          d'.tree.lookup (destination ++ (p ++ n :: q)) =
            d.tree.lookup (destination ++ (p ++ n :: q))) ∧
      (∀ env', syncTree env' source destination ⟨d'.tree, []⟩ = .ok ⟨d'.tree, []⟩) := by
  obtain ⟨d', synced, mirrored⟩ := syncTree_mirrored env valid isDirectory apart way
  exact ⟨d', synced, mirrored.mirror, mirrored.untouched, mirrored.caches,
    fun env' => syncTree_again env' isDirectory apart mirrored⟩

/-! ### A refresh -/

theorem id_perm (paths : List (List Name)) : (id paths).Perm paths := List.Perm.refl paths

/-- Links lead nowhere, and sets are gone through as they were made. -/
def plainEnvironment : Environment := ⟨fun _ _ => none, id, id_perm⟩

/-- A source with one file, and a destination with a link in its place and a build cache. -/
def staleTree : Tree :=
  .directory (ascii "s") (.leaf (ascii "a") (.file 420 [1]) .nil)
    (.directory (ascii "d")
      (.leaf (ascii "a") (.link (ascii "b"))
        (.directory (ascii "build") (.leaf (ascii "c") (.file 420 [2]) .nil) .nil)) .nil)

theorem staleTree_valid : staleTree.Valid := by
  refine ⟨by decide, ⟨by decide, trivial⟩, by decide, ⟨by decide, by decide, ⟨by decide, trivial⟩, trivial⟩,
    trivial⟩

/-- The link gives way to the file, and the cache stays. -/
theorem staleTree_mirrored :
    ∃ d', syncTree plainEnvironment [ascii "s"] [ascii "d"] ⟨staleTree, []⟩ = .ok d' ∧
      d'.tree.lookup [ascii "d", ascii "a"] = some (.leaf (.file 420 [1])) ∧
      d'.tree.lookup [ascii "d", ascii "build", ascii "c"] = some (.leaf (.file 420 [2])) := by
  have way : ∀ p, p <+: [ascii "d"] →
      staleTree.lookup p = none ∨ staleTree.lookup p = some .directory := by
    intro p inside
    have short : p ∈ [ascii "d"].inits := (List.mem_inits p _).mpr inside
    have two : p = [] ∨ p = [ascii "d"] := by simpa using short
    rcases two with rfl | rfl
    · exact Or.inr rfl
    · exact Or.inr (by decide +kernel)
  obtain ⟨d', synced, mirror, -, caches, -⟩ := syncTree_mirrors plainEnvironment [ascii "s"] [ascii "d"]
    ⟨staleTree, []⟩ staleTree_valid (by decide +kernel) (by decide +kernel) way
  have copied := mirror [ascii "a"] (by decide +kernel)
  have kept := caches [] (by decide +kernel) (by decide +kernel) (ascii "build") (by decide +kernel)
    [ascii "c"]
  exact ⟨d', synced, copied.trans (by decide +kernel), kept.trans (by decide +kernel)⟩

end LashOs.SourceTree
