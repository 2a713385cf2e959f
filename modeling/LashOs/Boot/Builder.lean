import LashOs.Base.CString
import LashOs.Base.DecimalText
import LashOs.Base.DependencyOrder
import LashOs.Base.PurePath
import LashOs.Base.PythonText
import LashOs.Base.TextFile

/-!
# The modules of the boot image

`build-sandbox.py` reads `modules.dep`, orders the three modules that the guest needs behind what
they depend on, and copies them under numbers into the tree of the guest, with a list of them for
the init program. The order is found by a recursion that does not look for cycles: on a cycle it
ends with the recursion limit of Python.
-/
namespace LashOs.Boot

open Base PythonText

inductive BuildError where
  -- `modules.dep` is not a text.
  | undecodable
  -- A line of `modules.dep` without a colon cannot be unpacked.
  | unpack (line : List Char)
  -- A `KeyError` or a `RecursionError` of `add_module`.
  | unresolved (error : VisitError (List UInt8))
  | valueError (message : List UInt8)
  | unreadable (path : List UInt8)
  | corrupt (path : List UInt8)
  deriving DecidableEq, Repr

/-! ### `modules.dep` -/

/-- `name, deps = line.split(":", 1)` -/
def splitColon (line : List Char) : Except BuildError (List Char × List Char) :=
  if ':' ∈ line then .ok (line.takeWhile (· ≠ ':'), (line.dropWhile (· ≠ ':')).drop 1)
  else .error (.unpack line)

/-- A dictionary of Python: the keys in the order in which they were first assigned. -/
abbrev DependencyMap : Type := List (List UInt8 × List (List UInt8))

namespace DependencyMap

def assign (map : DependencyMap) (name : List UInt8) (deps : List (List UInt8)) : DependencyMap :=
  if map.any (·.1 = name) then map.map fun entry => if entry.1 = name then (name, deps) else entry
  else map ++ [(name, deps)]

/-- `dependency_map[name]`, which raises a `KeyError` if there is none. -/
def get (map : DependencyMap) (name : List UInt8) : Option (List (List UInt8)) :=
  (map.find? (·.1 = name)).map (·.2)

end DependencyMap

/-- The names are kept as the bytes that they have in the file system. -/
def dependencyMap (bytes : List UInt8) : Except BuildError DependencyMap :=
  match readText bytes with
  | none => .error .undecodable
  | some text => (splitlines text).foldlM (fun map line =>
      (splitColon line).map fun parts => map.assign (encode parts.1) ((split parts.2).map encode)) []

/-! ### The order -/

/-- `add_module`, with the number of calls that Python allows to be open. -/
def addModule (limit : Nat) (map : DependencyMap) (ordered : List (List UInt8)) (name : List UInt8) :
    Except (VisitError (List UInt8)) (List (List UInt8)) :=
  visit map.get limit ordered name

def requested : List (List UInt8) := [ascii "9p", ascii "9pnet_virtio", ascii "virtio_net"]

def dotByte : UInt8 := 46

/-- `Path(p).name.split(".")[0]` -/
def moduleName (p : List UInt8) : List UInt8 :=
  (PurePosixPath.ofText p).name.takeWhile (· ≠ dotByte)

def matching (map : DependencyMap) (module : List UInt8) : List (List UInt8) :=
  (map.map (·.1)).filter (moduleName · = module)

/-- The directory of `--modules`: its path, its `modules.dep` and what reading a file and running
the two decompressors gives. -/
structure ModuleSource where
  path : List UInt8
  dep : List UInt8
  readBytes : List UInt8 → Option (List UInt8)
  lzma : List UInt8 → Option (List UInt8)
  zstd : List UInt8 → Option (List UInt8)

/-- One round of the loop over the requested modules. -/
def addRequested (limit : Nat) (source : ModuleSource) (map : DependencyMap)
    (ordered : List (List UInt8)) (module : List UInt8) : Except BuildError (List (List UInt8)) :=
  match matching map module with
  | [path] => (addModule limit map ordered path).mapError .unresolved
  | _ => .error (.valueError
      (ascii "Expected one " ++ module ++ ascii " module in " ++ (PurePosixPath.ofText source.path).str))

def orderModules (limit : Nat) (source : ModuleSource) (map : DependencyMap) :
    Except BuildError (List (List UInt8)) :=
  requested.foldlM (addRequested limit source map) []

/-! ### The files -/

/-- `args.modules / name` -/
def ModuleSource.child (source : ModuleSource) (name : List UInt8) : PurePosixPath :=
  if name.head? = some Path.slash then .ofText name else .ofText (source.path ++ Path.slash :: name)

def ModuleSource.contents (source : ModuleSource) (name : List UInt8) :
    Except BuildError (List UInt8) :=
  let path := source.child name
  match source.readBytes path.str with
  | none => .error (.unreadable path.str)
  | some data =>
    if path.suffix = ascii ".xz" then (source.lzma data).elim (.error (.corrupt path.str)) .ok
    else if path.suffix = ascii ".zst" then (source.zstd data).elim (.error (.corrupt path.str)) .ok
    else if path.suffix ≠ ascii ".ko" then
      .error (.valueError (ascii "Unsupported module compression: " ++ path.str))
    else .ok data

/-- The files of the guest by their path relative to its root. -/
abbrev GuestTree : Type := List UInt8 → Option (List UInt8)

/-- `write_bytes` and `write_text` -/
def GuestTree.write (guest : GuestTree) (path data : List UInt8) : GuestTree :=
  fun other => if other = path then some data else guest other

/-- A number in the format `02d`. -/
def twoDigits (i : Nat) : List UInt8 := (if i < 10 then [48] else []) ++ Decimal.print i

def destination (i : Nat) : List UInt8 := ascii "modules/" ++ twoDigits i ++ ascii ".ko"

/-- The loop over the ordered modules from a number on. -/
def copyModules (source : ModuleSource) : Nat → List (List UInt8) → GuestTree →
    Except BuildError GuestTree
  | _, [], guest => .ok guest
  | i, name :: names, guest =>
    match source.contents name with
    | .error e => .error e
    | .ok data => copyModules source (i + 1) names (guest.write (destination i) data)

/-- `module_list` from a number on. -/
def moduleList (i count : Nat) : List (List UInt8) :=
  (List.range' i count).map fun k => Path.slash :: destination k

/-- `"".join(name + "\n" for name in module_list)` -/
def listText (names : List (List UInt8)) : List UInt8 := names.flatMap (· ++ [newline])

def loadPath : List UInt8 := ascii "modules/load"

/-- The part of `main` from `dependency_map` to `modules/load`. Without `--modules` the list is
empty. -/
def stageModules (limit : Nat) (modules : Option ModuleSource) (guest : GuestTree) :
    Except BuildError (List (List UInt8) × GuestTree) :=
  match modules with
  | none => .ok ([], guest.write loadPath (listText []))
  | some source => do
    let map ← dependencyMap source.dep
    let ordered ← orderModules limit source map
    let guest ← copyModules source 0 ordered guest
    .ok (ordered, guest.write loadPath (listText (moduleList 0 ordered.length)))

/-! ### What is ordered -/

/-- The names that the requested modules stand for. -/
def Root (map : DependencyMap) (modules : List (List UInt8)) (path : List UInt8) : Prop :=
  ∃ module ∈ modules, matching map module = [path]

variable {map : DependencyMap} {source : ModuleSource}

theorem addRequested_ok {limit : Nat} {ordered out : List (List UInt8)} {module : List UInt8}
    (done : addRequested limit source map ordered module = .ok out) :
    ∃ path, matching map module = [path] ∧ visit map.get limit ordered path = .ok out := by
  unfold addRequested at done
  split at done
  next path only =>
    refine ⟨path, only, ?_⟩
    unfold addModule at done
    cases visited : visit map.get limit ordered path with
    | error e => simp [visited, Except.mapError] at done
    | ok middle => simpa [visited, Except.mapError] using done
  · cases done

/-- The loop over the requested modules is a visit of all their paths. -/
theorem foldlM_addRequested_ok {limit : Nat} {modules ordered out : List (List UInt8)}
    (done : modules.foldlM (addRequested limit source map) ordered = .ok out)
    (order : DependenciesFirst map.get ordered) (grounded : ∀ b ∈ ordered, Grounded map.get b) :
    Visited map.get ordered (Root map modules) out ∧
      ∀ module ∈ modules, ∃ path, matching map module = [path] := by
  induction modules generalizing ordered with
  | nil =>
    cases done
    refine ⟨⟨List.prefix_refl _, order, ?_, grounded, fun b member => .inl member⟩, by simp⟩
    rintro a ⟨module, member, -⟩
    cases member
  | cons module modules ih =>
    rw [List.foldlM_cons] at done
    cases first : addRequested limit source map ordered module with
    | error e => simp [first, bind, Except.bind] at done
    | ok middle =>
      rw [first] at done
      obtain ⟨path, only, visited⟩ := addRequested_ok first
      have here := visit_ok visited order grounded
      obtain ⟨later, all⟩ := ih done here.order here.grounded
      refine ⟨⟨here.kept.trans later.kept, later.order, ?_, later.grounded, fun b member => ?_⟩, ?_⟩
      · rintro a ⟨other, member, single⟩
        rcases List.mem_cons.mp member with rfl | member
        · obtain rfl : path = a := by simpa [only] using single
          exact later.kept.subset (here.there path rfl)
        · exact later.there a ⟨other, member, single⟩
      · rcases later.sound b member with old | ⟨a, ⟨other, member, single⟩, reached⟩
        · rcases here.sound b old with old | ⟨a, rfl, reached⟩
          · exact .inl old
          · exact .inr ⟨a, ⟨module, List.mem_cons_self, only⟩, reached⟩
        · exact .inr ⟨a, ⟨other, List.mem_cons_of_mem module member, single⟩, reached⟩
      · intro other member
        rcases List.mem_cons.mp member with rfl | member
        · exact ⟨path, only⟩
        · exact all other member

theorem orderModules_ok {limit : Nat} {ordered : List (List UInt8)}
    (done : orderModules limit source map = .ok ordered) :
    Visited map.get [] (Root map requested) ordered ∧
      ∀ module ∈ requested, ∃ path, matching map module = [path] :=
  foldlM_addRequested_ok done .nil (by simp)

/-- A name from which neither an unknown name nor a cycle is reached. -/
structure Resolvable (map : DependencyMap) (name : List UInt8) : Prop where
  known : ∀ other, Relation.ReflTransGen (DependsOn map.get) name other →
    (map.get other).isSome = true
  acyclic : ∀ other, Relation.ReflTransGen (DependsOn map.get) name other →
    ¬ Relation.TransGen (DependsOn map.get) other other

theorem DependencyMap.mem_keys {name : List UInt8} (known : (map.get name).isSome = true) :
    name ∈ map.map (·.1) := by
  obtain ⟨ds, found⟩ := Option.isSome_iff_exists.mp known
  obtain ⟨entry, first, -⟩ := Option.map_eq_some_iff.mp found
  have same : entry.1 = name := by simpa using List.find?_some first
  exact List.mem_map.mpr ⟨entry, List.mem_of_find?_eq_some first, same⟩

theorem Resolvable.grounded {name : List UInt8} (resolvable : Resolvable map name) :
    Grounded map.get name :=
  NoCycle.grounded resolvable.acyclic (map.map (·.1)) fun other reached =>
    DependencyMap.mem_keys (resolvable.known other reached)

theorem foldlM_addRequested_returns (source : ModuleSource) {modules : List (List UInt8)}
    (all : ∀ module ∈ modules, ∃ path, matching map module = [path] ∧ Resolvable map path) :
    ∃ depth, ∀ limit ≥ depth, ∀ ordered, ∃ out,
      modules.foldlM (addRequested limit source map) ordered = .ok out := by
  induction modules with
  | nil => exact ⟨0, fun _ _ ordered => ⟨ordered, rfl⟩⟩
  | cons module modules ih =>
    obtain ⟨path, only, resolvable⟩ := all module List.mem_cons_self
    obtain ⟨m, first⟩ := resolvable.grounded.visit_returns resolvable.known
    obtain ⟨n, rest⟩ := ih fun other member => all other (List.mem_cons_of_mem module member)
    refine ⟨max m n, fun limit large ordered => ?_⟩
    obtain ⟨middle, visited⟩ := first limit (le_trans (le_max_left m n) large) ordered
    obtain ⟨out, finished⟩ := rest limit (le_trans (le_max_right m n) large) middle
    have here : addRequested limit source map ordered module = .ok middle := by
      simp [addRequested, only, addModule, visited, Except.mapError]
    refine ⟨out, ?_⟩
    rw [List.foldlM_cons, here]
    exact finished

/-- The builder finds an order under some recursion limit exactly if every requested module is
there once, and neither a cycle nor an unknown name is reached from it. -/
theorem orderModules_returns_iff (source : ModuleSource) (map : DependencyMap) :
    (∃ limit ordered, orderModules limit source map = .ok ordered) ↔
      ∀ module ∈ requested, ∃ path, matching map module = [path] ∧ Resolvable map path := by
  constructor
  · rintro ⟨limit, ordered, done⟩ module member
    obtain ⟨visited, all⟩ := orderModules_ok done
    obtain ⟨path, only⟩ := all module member
    have there := visited.there path ⟨module, member, only⟩
    refine ⟨path, only, fun other reached => ?_, (visited.grounded path there).noCycle⟩
    obtain ⟨before, behind, split⟩ := List.append_of_mem (visited.order.mem_of_reached there reached)
    obtain ⟨ds, known, -⟩ := visited.order.first before other behind split
    rw [known]
    rfl
  · intro all
    obtain ⟨depth, enough⟩ := foldlM_addRequested_returns source all
    obtain ⟨out, done⟩ := enough depth (Nat.le_refl depth) []
    exact ⟨depth, out, done⟩

end LashOs.Boot
