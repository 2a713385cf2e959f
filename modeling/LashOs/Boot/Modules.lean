import LashOs.Boot.Builder

/-!
# Loading the modules

`modules` of `sandbox_init.c` reads the list that the builder wrote and gives one file after the
other to the kernel, and the virtual machine powers down at the first one that is refused. What the
kernel accepts is a parameter; `Agrees` says what is assumed of it.

The builder and the init program are two programs that never run on the same machine. What they
agree on is the text of the list and the names of the files.
-/
namespace LashOs.Boot

open Base

structure Kernel where
  -- `finit_module`: the modules that are loaded behind it, or a refusal.
  finitModule : List (List UInt8) → List UInt8 → Option (List (List UInt8))

/-- How `modules` ends. -/
inductive Ending where
  -- `die`, with what it prints.
  | died (step : List UInt8)
  | booted (loaded : List (List UInt8))
  deriving DecidableEq, Repr

/-- `open` from the root directory. -/
def GuestTree.opened (guest : GuestTree) (path : List UInt8) : Option (List UInt8) :=
  if path.head? = some Path.slash then guest (path.drop 1) else guest path

/-- The string in the buffer once the newline is cut off. -/
def cut (line : List UInt8) : List UInt8 := line.takeWhile fun b => b ≠ 0 ∧ b ≠ newline

/-- The loop over the lines; the buffer has 256 bytes. -/
def loadModules (kernel : Kernel) (guest : GuestTree) (list : TextFile)
    (loaded : List (List UInt8)) : Ending :=
  match _read : list.fgets 256 with
  | (none, _) => .booted loaded
  | (some line, after) =>
    match guest.opened (cut line) with
    | none => .died (cut line)
    | some image =>
      match kernel.finitModule loaded image with
      | none => .died (cut line)
      | some loaded => loadModules kernel guest after loaded
termination_by list.bytes.length
decreasing_by exact TextFile.fgets_shorter (by decide) _read

def modules (kernel : Kernel) (guest : GuestTree) : Ending :=
  match guest.opened (Path.slash :: loadPath) with
  | none => .died (ascii "module list")
  | some text => loadModules kernel guest (.opened text false) []

/-! ### The names of the files -/

theorem value_twoDigits (i : Nat) : Decimal.value (twoDigits i) = i := by
  unfold twoDigits
  split
  · -- A zero in front does not change the value.
    exact Decimal.value_print i
  · exact Decimal.value_print i

theorem destination_injective {i j : Nat} (same : destination i = destination j) : i = j := by
  have digits : twoDigits i = twoDigits j :=
    List.append_cancel_left (List.append_cancel_right same)
  rw [← value_twoDigits i, digits, value_twoDigits j]

variable {i : Nat}

theorem isDigit_twoDigits : ∀ b ∈ twoDigits i, Decimal.isDigit b = true := by
  intro b member
  rcases List.mem_append.mp member with front | back
  · split at front
    · rw [List.mem_singleton.mp front]
      rfl
    · cases front
  · exact Decimal.isDigit_print i b back

theorem not_mem_destination {b : UInt8} (i : Nat) (before : b ∉ ascii "modules/")
    (behind : b ∉ ascii ".ko") (other : Decimal.isDigit b = false) : b ∉ destination i := by
  intro member
  rcases List.mem_append.mp member with front | back
  · rcases List.mem_append.mp front with first | digit
    · exact before first
    · exact absurd (isDigit_twoDigits b digit) (by simp [other])
  · exact behind back

theorem newline_not_mem_path (i : Nat) : newline ∉ Path.slash :: destination i := by
  rw [List.mem_cons, not_or]
  exact ⟨by decide, not_mem_destination i (by decide) (by decide) rfl⟩

theorem nul_not_mem_path (i : Nat) : (0 : UInt8) ∉ Path.slash :: destination i := by
  rw [List.mem_cons, not_or]
  exact ⟨by decide, not_mem_destination i (by decide) (by decide) rfl⟩

theorem destination_ne_loadPath (i : Nat) : destination i ≠ loadPath := by
  intro same
  have last : (destination i).getLast? = loadPath.getLast? := by rw [same]
  rw [destination, List.getLast?_append, show (ascii ".ko").getLast? = some 111 by decide,
    Option.some_or] at last
  exact absurd last (by decide)

theorem length_destination (small : i < 10 ^ 200) : (destination i).length < 240 := by
  have digits : (Decimal.print i).length ≤ 200 := Decimal.length_print_le small
  have zero : (if i < 10 then [(48 : UInt8)] else []).length ≤ 1 := by split <;> simp
  have parts : (ascii "modules/").length = 8 ∧ (ascii ".ko").length = 3 := by decide
  rw [destination, twoDigits]
  simp only [List.length_append, parts.1, parts.2]
  omega

theorem cut_path (i : Nat) :
    cut ((Path.slash :: destination i) ++ [newline]) = Path.slash :: destination i := by
  have plain : ∀ b ∈ Path.slash :: destination i, decide (b ≠ 0 ∧ b ≠ newline) = true := by
    intro b member
    rw [decide_eq_true_iff]
    refine ⟨?_, ?_⟩
    · rintro rfl
      exact nul_not_mem_path i member
    · rintro rfl
      exact newline_not_mem_path i member
  rw [cut, List.takeWhile_append_of_pos plain]
  simp

/-! ### What was copied -/

/-- The ordered modules stand in the tree under their numbers. -/
def Stands (source : ModuleSource) (guest : GuestTree) (i : Nat) (names : List (List UInt8)) : Prop :=
  ∀ k name, names[k]? = some name →
    ∃ data, source.contents name = .ok data ∧ guest (destination (i + k)) = some data

variable {source : ModuleSource} {names : List (List UInt8)}

theorem copyModules_other {guest image : GuestTree}
    (done : copyModules source i names guest = .ok image) {path : List UInt8}
    (other : ∀ k, i ≤ k → path ≠ destination k) : image path = guest path := by
  induction names generalizing i guest with
  | nil =>
    cases done
    rfl
  | cons name names ih =>
    rw [copyModules] at done
    split at done
    · cases done
    · rw [ih done fun k large => other k (by omega), GuestTree.write,
        if_neg (other i (Nat.le_refl i))]

theorem copyModules_stands {guest image : GuestTree}
    (done : copyModules source i names guest = .ok image) : Stands source image i names := by
  induction names generalizing i guest with
  | nil =>
    intro k name found
    simp at found
  | cons first names ih =>
    rw [copyModules] at done
    split at done
    · cases done
    next data read =>
      intro k name found
      cases k with
      | zero =>
        obtain rfl : first = name := by simpa using found
        refine ⟨data, read, ?_⟩
        rw [Nat.add_zero, copyModules_other done fun k large same => by
          have := destination_injective same
          omega]
        exact if_pos rfl
      | succ k =>
        obtain ⟨data, read, there⟩ := ih done k name (by simpa using found)
        refine ⟨data, read, ?_⟩
        rw [← there]
        congr 2
        omega

theorem Stands.tail {guest : GuestTree} {name : List UInt8}
    (stands : Stands source guest i (name :: names)) : Stands source guest (i + 1) names := by
  intro k other found
  have shifted := stands (k + 1) other (by simpa using found)
  rwa [show i + (k + 1) = i + 1 + k by omega] at shifted

/-! ### What the init program loads -/

/-- The files are what `modules.dep` says: the kernel takes the file of a listed module if that is
not loaded yet and everything is that is listed for it. -/
structure Agrees (kernel : Kernel) (source : ModuleSource) (map : DependencyMap) : Prop where
  loads : ∀ name ds data loaded, map.get name = some ds → source.contents name = .ok data →
    name ∉ loaded → (∀ d ∈ ds, d ∈ loaded) →
    kernel.finitModule loaded data = some (loaded ++ [name])

theorem finitModule_next {kernel : Kernel} {map : DependencyMap} (agrees : Agrees kernel source map)
    {before behind : List (List UInt8)} {name data : List UInt8}
    (order : DependenciesFirst map.get (before ++ name :: behind))
    (read : source.contents name = .ok data) :
    kernel.finitModule before data = some (before ++ [name]) := by
  obtain ⟨ds, known, first⟩ := order.first before name behind rfl
  refine agrees.loads name ds data before known read ?_ first
  intro member
  exact (List.nodup_append.mp order.once).2.2 name member name List.mem_cons_self rfl

/-- The list from some line on loads the modules from there on. -/
theorem loadModules_list {kernel : Kernel} {map : DependencyMap} (agrees : Agrees kernel source map)
    {guest : GuestTree} (stands : Stands source guest i names) (few : i + names.length ≤ 10 ^ 200)
    {before : List (List UInt8)} (order : DependenciesFirst map.get (before ++ names)) :
    loadModules kernel guest (.opened (listText (moduleList i names.length)) false) before =
      .booted (before ++ names) := by
  induction names generalizing i before with
  | nil =>
    rw [loadModules]
    simp [moduleList, listText, TextFile.fgets, TextFile.opened, gather]
  | cons name names ih =>
    obtain ⟨data, read, there⟩ := stands 0 name rfl
    rw [List.length_cons] at few
    have size := length_destination (show i < 10 ^ 200 by omega)
    have text : listText (moduleList i (name :: names).length) =
        (Path.slash :: destination i) ++
          newline :: listText (moduleList (i + 1) names.length) := by
      simp [listText, moduleList, List.range'_succ]
    have line : (TextFile.opened ((Path.slash :: destination i) ++
          newline :: listText (moduleList (i + 1) names.length)) false).fgets 256 =
        (some ((Path.slash :: destination i) ++ [newline]),
          .opened (listText (moduleList (i + 1) names.length)) false) :=
      TextFile.fgets_line (newline_not_mem_path i) (by rw [List.length_cons]; omega) _
    have image : guest.opened (cut ((Path.slash :: destination i) ++ [newline])) = some data := by
      rw [cut_path]
      exact there
    rw [text, loadModules]
    split
    next none_ =>
      rw [line] at none_
      cases none_
    next found =>
      rw [line] at found
      cases found
      simp only [image, finitModule_next agrees order read]
      have later : DependenciesFirst map.get ((before ++ [name]) ++ names) := by simpa using order
      simpa using ih stands.tail (by omega) later

/-- Whatever tree the builder starts from: if it ends, the init program on the tree that it leaves
loads every ordered module, each once and behind what it needs. These are the requested modules and
what is reached from them, nothing else. -/
theorem modules_stageModules (kernel : Kernel) (limit : Nat) (source : ModuleSource)
    (guest image : GuestTree) (map : DependencyMap) (ordered : List (List UInt8))
    (parsed : dependencyMap source.dep = .ok map) (agrees : Agrees kernel source map)
    (staged : stageModules limit (some source) guest = .ok (ordered, image))
    (few : ordered.length ≤ 10 ^ 200) :
    modules kernel image = .booted ordered ∧ DependenciesFirst map.get ordered ∧
      (∀ module ∈ requested, ∃ path ∈ ordered, moduleName path = module) ∧
      ∀ name, name ∈ ordered ↔
        ∃ path, Root map requested path ∧ Relation.ReflTransGen (DependsOn map.get) path name := by
  simp only [stageModules, parsed, bind, Except.bind] at staged
  cases found : orderModules limit source map with
  | error e => simp [found] at staged
  | ok names =>
    cases copied : copyModules source 0 names guest with
    | error e => simp [found, copied] at staged
    | ok tree =>
      simp only [found, copied, Except.ok.injEq, Prod.mk.injEq] at staged
      obtain ⟨rfl, rfl⟩ := staged
      obtain ⟨visited, all⟩ := orderModules_ok found
      refine ⟨?_, visited.order, fun module member => ?_, fun name => ⟨fun member => ?_, ?_⟩⟩
      · -- The list has a name of its own, so that writing it leaves the modules as they are.
        have stands : Stands source (tree.write loadPath (listText (moduleList 0 names.length)))
            0 names := by
          intro k name listed
          obtain ⟨data, read, there⟩ := copyModules_stands copied k name listed
          refine ⟨data, read, ?_⟩
          rw [GuestTree.write, if_neg (destination_ne_loadPath _), there]
        have list : (tree.write loadPath (listText (moduleList 0 names.length))).opened
            (Path.slash :: loadPath) = some (listText (moduleList 0 names.length)) := by
          simp [GuestTree.opened, GuestTree.write]
        rw [modules, list]
        have order : DependenciesFirst map.get ([] ++ names) := visited.order
        exact loadModules_list agrees stands (by omega) order
      · obtain ⟨path, only⟩ := all module member
        have matched : path ∈ matching map module := by simp [only]
        refine ⟨path, visited.there path ⟨module, member, only⟩, ?_⟩
        simpa using (List.mem_filter.mp matched).2
      · rcases visited.sound name member with old | reached
        · cases old
        · exact reached
      · rintro ⟨path, root, reached⟩
        exact visited.order.mem_of_reached (visited.there path root) reached

/-- Four modules: two of the requested ones need the fourth, which stands between them, and two are
compressed. A file holds the path under which it is read. -/
def smallSource : ModuleSource where
  path := ascii "/m"
  dep := ascii "k/9p.ko.xz: k/9pnet.ko\nk/9pnet.ko:\nk/9pnet_virtio.ko: k/9pnet.ko\nk/virtio_net.ko.zst:\n"
  readBytes := some
  lzma := some
  zstd := some

def smallMap : DependencyMap :=
  [(ascii "k/9p.ko.xz", [ascii "k/9pnet.ko"]), (ascii "k/9pnet.ko", []),
    (ascii "k/9pnet_virtio.ko", [ascii "k/9pnet.ko"]), (ascii "k/virtio_net.ko.zst", [])]

/-- A kernel that refuses what is loaded already, and what needs something that is not. -/
def smallKernel : Kernel where
  finitModule loaded image :=
    let name := image.drop 3
    if loaded.contains name then none
    else if ((smallMap.get name).getD []).all loaded.contains then some (loaded ++ [name])
    else none

theorem smallKernel_agrees : Agrees smallKernel smallSource smallMap where
  loads name ds data loaded known read new there := by
    have names : ∀ entry ∈ smallMap, smallSource.contents entry.1 = .ok (ascii "/m/" ++ entry.1) := by
      decide +kernel
    obtain ⟨entry, found, -⟩ := Option.map_eq_some_iff.mp known
    have same : entry.1 = name := by simpa using List.find?_some found
    have image : data.drop 3 = name := by
      rw [← same, names entry (List.mem_of_find?_eq_some found)] at read
      rw [← same, ← Except.ok.inj read]
      rfl
    have all : ds.all loaded.contains = true := by
      rw [List.all_eq_true]
      exact fun d member => List.contains_iff_mem.mpr (there d member)
    simp only [smallKernel, image, List.contains_iff_mem, if_neg new, known, Option.getD_some,
      if_pos all]

def smallOrder : List (List UInt8) :=
  [ascii "k/9pnet.ko", ascii "k/9p.ko.xz", ascii "k/9pnet_virtio.ko", ascii "k/virtio_net.ko.zst"]

theorem modules_stageModules_small : ∃ image,
    stageModules 5 (some smallSource) (fun _ => none) = .ok (smallOrder, image) ∧
      modules smallKernel image = .booted smallOrder := by
  have parsed : dependencyMap smallSource.dep = .ok smallMap := by decide +kernel
  have found : orderModules 5 smallSource smallMap = .ok smallOrder := by decide +kernel
  obtain ⟨tree, copied⟩ : ∃ tree, copyModules smallSource 0 smallOrder (fun _ => none) = .ok tree :=
    ⟨_, rfl⟩
  have staged : stageModules 5 (some smallSource) (fun _ => none) =
      .ok (smallOrder, tree.write loadPath (listText (moduleList 0 smallOrder.length))) := by
    simp only [stageModules, parsed, found, copied, bind, Except.bind]
  exact ⟨_, staged, (modules_stageModules smallKernel 5 smallSource _ _ smallMap _ parsed
    smallKernel_agrees staged (by decide)).1⟩

end LashOs.Boot
