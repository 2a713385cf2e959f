import Mathlib.Data.List.Perm.Subperm
import LashOs.Base.Bytes
import LashOs.Base.Run
import LashOs.Errno

/-!
# Copying a process

GNU Bash runs inside maps of the kernel, and a native fork shares them. `fork_process` therefore
takes a snapshot first, and the child loads the program anew and writes the snapshot into maps of
its own. A snapshot is only taken of a process at rest: one fiber is suspended in the call that
asked for the fork, and the other one, if it was ever issued, is free.
-/
namespace LashOs.Process

open Base

def EBUSY : Errno := .other 16

inductive MapKind where
  | array | hash | other
  deriving DecidableEq, Repr

/-- A map of the loaded object. An array that the snapshot is interested in has one entry. -/
structure BpfMap where
  name : String
  internal : Bool
  kind : MapKind
  -- `BPF_F_RDONLY_PROG`
  readOnly : Bool
  value : List UInt8
  deriving DecidableEq, Repr

/-- The condition of the loop over the maps. -/
def BpfMap.writable (m : BpfMap) : Bool := m.internal && m.kind == .array && !m.readOnly

/-- `bpf_capsule_issued_fibers`, with its entries in the order of `bpf_map_get_next_key`. -/
structure FiberMap where
  kind : MapKind
  keySize : Nat
  valueSize : Nat
  maxEntries : Nat
  entries : List (Nat × Nat)

/-- What a process consists of, apart from what the kernel keeps for every process. -/
structure Capsule where
  -- `memory_view_base`
  window : Nat
  start : Nat
  memory : List UInt8
  imageAddress : Nat
  image : List UInt8
  maps : List BpfMap
  issued : FiberMap
  claims : List Nat
  free : List Nat

/-- Where the fields of `control` are in the map that holds it. -/
structure Layout where
  control : String
  continuation : Nat
  pid : Nat
  ppid : Nat

structure SavedMap where
  name : String
  value : List UInt8
  deriving DecidableEq, Repr

/-- `struct process_snapshot`; the sizes are those of the lists. -/
structure Snapshot where
  window : Nat
  memoryAddress : Nat
  memory : List UInt8
  imageAddress : Nat
  image : List UInt8
  maps : List SavedMap
  issued : Nat → Nat
  freeFiber : Option Nat

/-! ### Taking a snapshot -/

/-- What the kernel or the allocator refuses while a snapshot is taken. -/
structure SaveRefusals where
  memory : Bool
  map : String → Option Errno
  key : Nat → Option Errno
  -- How `bpf_map_get_next_key` ends, if not with `ENOENT`.
  walk : Option Errno
  claims : Option Errno
  -- The pool of free fibers cannot be read.
  free : Bool

def SaveRefusals.none : SaveRefusals :=
  ⟨false, fun _ => Option.none, fun _ => Option.none, Option.none, Option.none, false⟩

def saveMaps (refused : String → Option Errno) :
    List BpfMap → List SavedMap → Except Errno (List SavedMap)
  | [], saved => .ok saved
  | m :: rest, saved =>
    if !m.writable then saveMaps refused rest saved
    else if saved.length ≥ 32 then .error .E2BIG
    else
      match refused m.name with
      | some e => .error e
      | none => saveMaps refused rest (saved ++ [⟨m.name, m.value⟩])

/-- The loop over the issued fibers, with the array `issued` and `issued_count`. -/
def readIssued (refused : Nat → Option Errno) :
    List (Nat × Nat) → (Nat → Nat) → Nat → Except Errno ((Nat → Nat) × Nat)
  | [], issued, count => .ok (issued, count)
  | (key, value) :: rest, issued, count =>
    if key ≥ 2 ∨ issued key ≠ 0 then .error .EPROTO
    else
      match refused key with
      | some e => .error e
      | none =>
        if value ≠ 1 then .error .EPROTO
        else readIssued refused rest (Function.update issued key value) (count + 1)

def FiberMap.expected (m : FiberMap) : Bool :=
  m.kind == .hash && m.keySize == 4 && m.valueSize == 4 && m.maxEntries == 2

/-- The fiber in the low bits of the continuation. -/
def activeFiber (layout : Layout) (maps : List BpfMap) : Nat :=
  match maps.find? (·.name = layout.control) with
  | none => 0
  | some m => leValue (slice m.value layout.continuation 8) % 65536

/-- The end of `save_process`: the pool of fibers must be at rest. -/
def readPool (refused : SaveRefusals) (active : Nat) (claims free : List Nat) (issued : Nat → Nat)
    (count : Nat) : Except Errno (Option Nat) :=
  if active ≥ 2 ∨ issued active = 0 then .error .EPROTO
  else if claims ≠ [] then .error EBUSY
  else
    match refused.claims with
    | some e => .error e
    | none =>
      if refused.free then .error EBUSY
      else
        match free with
        | fiber :: _ =>
          if count ≠ 2 ∨ fiber ≥ 2 ∨ fiber = active ∨ issued fiber = 0 then .error EBUSY
          else .ok (some fiber)
        | [] => if count = 1 then .ok none else .error EBUSY

/-- `save_process`; an error comes with the step that the message names. -/
def saveProcess (layout : Layout) (refused : SaveRefusals) (p : Capsule) :
    Except (String × Errno) Snapshot :=
  if refused.memory then .error ("copying arena memory", .ENOMEM)
  else
    match saveMaps refused.map p.maps [] with
    | .error e => .error ("copying writable maps", e)
    | .ok maps =>
      if !p.issued.expected then .error ("reading the fiber pool", .EPROTO)
      else
        match readIssued refused.key p.issued.entries (fun _ => 0) 0 with
        | .error e => .error ("reading the fiber pool", e)
        | .ok (issued, count) =>
          match refused.walk with
          | some e => .error ("reading the fiber pool", e)
          | none =>
            match readPool refused (activeFiber layout p.maps) p.claims p.free issued count with
            | .error e => .error ("reading the fiber pool", e)
            | .ok freeFiber => .ok {
                window := p.window
                memoryAddress := p.start + 4096
                memory := p.memory.drop 4096
                imageAddress := p.imageAddress
                image := p.image
                maps := maps
                issued := issued
                freeFiber := freeFiber }

/-! ### Restoring it -/

/-- Writes the first map of that name, if it has the right size. -/
def putMap (refused : String → Option Errno) (s : SavedMap) :
    List BpfMap → Except Errno (List BpfMap)
  | [] => .error .EPROTO
  | m :: rest =>
    if m.name = s.name then
      if m.value.length ≠ s.value.length then .error .EPROTO
      else
        match refused s.name with
        | some e => .error e
        | none => .ok ({ m with value := s.value } :: rest)
    else (putMap refused s rest).map (m :: ·)

def restoreMaps (refused : String → Option Errno) (saved : List SavedMap) (maps : List BpfMap) :
    Except Errno (List BpfMap) :=
  saved.foldlM (fun maps s => putMap refused s maps) maps

/-- `bpf_map_update_elem` with `BPF_NOEXIST`. -/
def issueFiber (m : FiberMap) (key value : Nat) : Except Errno FiberMap :=
  if (m.entries.lookup key).isSome then .error .EEXIST
  else if m.entries.length ≥ m.maxEntries then .error .E2BIG
  else .ok { m with entries := m.entries ++ [(key, value)] }

def issueFibers (issued : Nat → Nat) (m : FiberMap) : Except Errno FiberMap :=
  [0, 1].foldlM (fun m fiber => if issued fiber = 0 then .ok m else issueFiber m fiber (issued fiber))
    m

/-- A word of `control`. -/
def setControl (layout : Layout) (offset word : Nat) (maps : List BpfMap) : List BpfMap :=
  maps.map fun m =>
    if m.name = layout.control then { m with value := overwrite m.value offset (leBytes 4 word) }
    else m

/-- `restore_reserved_process` after the program has been loaded anew: `fresh` is what it starts
with. -/
def restoreProcess (layout : Layout) (refused : String → Option Errno) (s : Snapshot)
    (fresh : Capsule) (pid ppid : Nat) : Except Errno Capsule :=
  if fresh.start + 4096 ≠ s.memoryAddress ∨ fresh.memory.length - 4096 ≠ s.memory.length ∨
      fresh.imageAddress ≠ s.imageAddress ∨ fresh.image.length ≠ s.image.length then
    .error .EPROTO
  else do
    let maps ← restoreMaps refused s.maps fresh.maps
    let issued ← issueFibers s.issued fresh.issued
    let free := s.freeFiber.toList ++ fresh.free
    .ok { fresh with
      memory := fresh.memory.take 4096 ++ s.memory
      image := s.image
      maps := setControl layout layout.ppid ppid (setControl layout layout.pid pid maps)
      issued := issued
      free := free }

/-! ### Forking -/

/-- What `fork_process` returns in the parent, and what becomes of the child: it goes on with a
process of its own or exits with a status. -/
structure ForkOutcome where
  response : Int
  error : Option Errno
  child : Option (Except Nat Capsule)

/-- `fork_process`: `native` is the answer to the native fork or clone, `load` what loading the
program at the old window gives in the child. -/
def forkProcess (layout : Layout) (refused : SaveRefusals) (p : Capsule) (native : Except Errno Nat)
    (load : Nat → Except Errno Capsule) (restoreRefused : String → Option Errno) (pid ppid : Nat) :
    ForkOutcome :=
  match saveProcess layout refused p with
  | .error (_, e) => ⟨-1, some e, none⟩
  | .ok s =>
    match native with
    | .error e => ⟨-1, some e, none⟩
    | .ok child =>
      let restored := do
        let fresh ← load s.window
        restoreProcess layout restoreRefused s fresh pid ppid
      ⟨child, none, some (restored.mapError fun _ => 125)⟩

/-! ### What is saved -/

def writableMaps (maps : List BpfMap) : List SavedMap :=
  (maps.filter BpfMap.writable).map fun m => ⟨m.name, m.value⟩

theorem writableMaps_cons (m : BpfMap) (rest : List BpfMap) :
    writableMaps (m :: rest) =
      if m.writable then ⟨m.name, m.value⟩ :: writableMaps rest else writableMaps rest := by
  cases writable : m.writable <;> simp [writableMaps, writable]

variable {refused : String → Option Errno}

theorem saveMaps_ok {maps : List BpfMap} {saved result : List SavedMap}
    (ok : saveMaps refused maps saved = .ok result) (few : saved.length ≤ 32) :
    result = saved ++ writableMaps maps ∧ result.length ≤ 32 := by
  induction maps generalizing saved with
  | nil =>
    cases ok
    simp [writableMaps, few]
  | cons m rest ih =>
    rw [saveMaps] at ok
    rw [writableMaps_cons]
    cases writable : m.writable with
    | false =>
      rw [writable] at ok
      exact ih ok few
    | true =>
      simp only [writable, Bool.not_true, Bool.false_eq_true, if_false] at ok
      split at ok
      · cases ok
      · split at ok
        · cases ok
        · simpa using ih ok (by simp; omega)

theorem saveMaps_none (maps : List BpfMap) (saved : List SavedMap) (few : saved.length ≤ 32) :
    saveMaps (fun _ => none) maps saved =
      if saved.length + (writableMaps maps).length ≤ 32 then .ok (saved ++ writableMaps maps)
      else .error .E2BIG := by
  induction maps generalizing saved with
  | nil => simp [saveMaps, writableMaps, few]
  | cons m rest ih =>
    rw [saveMaps, writableMaps_cons]
    cases writable : m.writable with
    | false => simpa using ih saved few
    | true =>
      by_cases full : saved.length ≥ 32
      · have many : ¬ saved.length + ((writableMaps rest).length + 1) ≤ 32 := by omega
        simp [full, many]
      · have next := ih (saved ++ [⟨m.name, m.value⟩]) (by simp; omega)
        have same : saved.length + 1 + (writableMaps rest).length =
            saved.length + ((writableMaps rest).length + 1) := by omega
        simpa [full, same] using next

/-- The entries of the map of issued fibers as they must be: each of two numbers at most once. -/
structure FibersValid (entries : List (Nat × Nat)) (issued : Nat → Nat) : Prop where
  distinct : (entries.map Prod.fst).Nodup
  each : ∀ e ∈ entries, e.1 < 2 ∧ e.2 = 1 ∧ issued e.1 = 0

/-- `issued` with the fibers of the map. -/
def withFibers (entries : List (Nat × Nat)) (issued : Nat → Nat) (key : Nat) : Nat :=
  if key ∈ entries.map Prod.fst then 1 else issued key

variable {issued : Nat → Nat}

theorem withFibers_cons {key : Nat} {rest : List (Nat × Nat)} :
    withFibers rest (Function.update issued key 1) = withFibers ((key, 1) :: rest) issued := by
  funext k
  by_cases later : k ∈ rest.map Prod.fst
  · simp only [withFibers, List.map_cons, List.mem_cons, later, or_true, if_true]
  · by_cases here : k = key
    · simp [withFibers, here]
    · simp [withFibers, later, here]

theorem fibersValid_cons {key value : Nat} {rest : List (Nat × Nat)} :
    FibersValid ((key, value) :: rest) issued ↔
      (key < 2 ∧ issued key = 0) ∧ value = 1 ∧ FibersValid rest (Function.update issued key 1) := by
  constructor
  · rintro ⟨distinct, each⟩
    obtain ⟨small, one, unset⟩ := each (key, value) (by simp)
    obtain ⟨fresh, distinct⟩ := List.nodup_cons.mp distinct
    refine ⟨⟨small, unset⟩, one, distinct, ?_⟩
    intro e member
    obtain ⟨small, one, unset⟩ := each e (by simp [member])
    have other : e.1 ≠ key := by
      intro same
      exact fresh (List.mem_map.mpr ⟨e, member, same⟩)
    exact ⟨small, one, by simp [other, unset]⟩
  · rintro ⟨⟨small, unset⟩, one, distinct, each⟩
    refine ⟨List.nodup_cons.mpr ⟨?_, distinct⟩, ?_⟩
    · intro again
      obtain ⟨e, member, same⟩ := List.mem_map.mp again
      have := (each e member).2.2
      simp only at same
      simp [same] at this
    · intro e member
      rcases List.mem_cons.mp member with rfl | later
      · exact ⟨small, one, unset⟩
      · obtain ⟨small', one', unset'⟩ := each e later
        refine ⟨small', one', ?_⟩
        by_cases same : e.1 = key
        · simp [same] at unset'
        · simpa [same] using unset'

variable {entries : List (Nat × Nat)}

theorem readIssued_ok {refused : Nat → Option Errno} {issued result : Nat → Nat} {count total : Nat}
    (ok : readIssued refused entries issued count = .ok (result, total)) :
    FibersValid entries issued ∧ result = withFibers entries issued ∧
      total = count + entries.length := by
  induction entries generalizing issued count with
  | nil =>
    cases ok
    exact ⟨⟨by simp, by simp⟩, by funext k; simp [withFibers], rfl⟩
  | cons e rest ih =>
    obtain ⟨key, value⟩ := e
    rw [readIssued] at ok
    split at ok
    · cases ok
    next plain =>
      split at ok
      · cases ok
      · split at ok
        · cases ok
        next one =>
          obtain ⟨valid, same, total⟩ := ih ok
          have one : value = 1 := by simpa using one
          subst one
          refine ⟨fibersValid_cons.mpr ⟨by omega, rfl, valid⟩, ?_, ?_⟩
          · rw [same, withFibers_cons]
          · rw [total, List.length_cons]
            omega

theorem readIssued_of_valid {count : Nat} (valid : FibersValid entries issued) :
    readIssued (fun _ => none) entries issued count =
      .ok (withFibers entries issued, count + entries.length) := by
  induction entries generalizing issued count with
  | nil =>
    have same : withFibers [] issued = issued := by funext k; simp [withFibers]
    rw [readIssued, same]
    rfl
  | cons e rest ih =>
    obtain ⟨key, value⟩ := e
    obtain ⟨plain, rfl, valid'⟩ := fibersValid_cons.mp valid
    have unrefused : ¬ (key ≥ 2 ∨ issued key ≠ 0) := by omega
    rw [readIssued, if_neg unrefused]
    simp only [ne_eq, not_true_eq_false, if_false]
    rw [ih valid', withFibers_cons, List.length_cons]
    congr 2
    omega

/-! ### When a process can be copied -/

def Capsule.fibers (p : Capsule) : List Nat := p.issued.entries.map Prod.fst

/-- One fiber is suspended in the call, and the other one is free or was never issued. -/
structure AtRest (layout : Layout) (p : Capsule) : Prop where
  few : (writableMaps p.maps).length ≤ 32
  expected : p.issued.expected = true
  valid : FibersValid p.issued.entries fun _ => 0
  suspended : activeFiber layout p.maps ∈ p.fibers
  unclaimed : p.claims = []
  idle : (∃ other rest, p.free = other :: rest ∧ other ≠ activeFiber layout p.maps ∧
      other ∈ p.fibers) ∨ (p.free = [] ∧ p.fibers.length = 1)

def snapshotOf (p : Capsule) : Snapshot where
  window := p.window
  memoryAddress := p.start + 4096
  memory := p.memory.drop 4096
  imageAddress := p.imageAddress
  image := p.image
  maps := writableMaps p.maps
  issued := withFibers p.issued.entries fun _ => 0
  freeFiber := p.free.head?

theorem withFibers_eq_zero {key : Nat} :
    withFibers entries (fun _ => 0) key = 0 ↔ key ∉ entries.map Prod.fst := by
  rw [withFibers]
  split
  next member => simp [member]
  next absent => simp [absent]

theorem FibersValid.length_eq_two (valid : FibersValid entries issued) {a b : Nat}
    (different : a ≠ b) (first : a ∈ entries.map Prod.fst) (second : b ∈ entries.map Prod.fst) :
    entries.length = 2 := by
  have most : (entries.map Prod.fst).length ≤ (List.range 2).length := by
    refine (valid.distinct.subperm ?_).length_le
    intro key member
    obtain ⟨e, inside, rfl⟩ := List.mem_map.mp member
    exact List.mem_range.mpr (valid.each e inside).1
  have least : [a, b].length ≤ (entries.map Prod.fst).length := by
    refine (List.Nodup.subperm ?_ ?_).length_le
    · simpa using different
    · intro key member
      rcases List.mem_pair.mp member with rfl | rfl
      · exact first
      · exact second
  simp only [List.length_map, List.length_range, List.length_cons, List.length_nil] at most least
  omega

theorem readPool_ok {refused : SaveRefusals} {active : Nat} {claims free : List Nat} {count : Nat}
    {result : Option Nat} (ok : readPool refused active claims free issued count = .ok result) :
    issued active ≠ 0 ∧ claims = [] ∧ result = free.head? ∧
    ((∃ other rest, free = other :: rest ∧ other ≠ active ∧ issued other ≠ 0) ∨
      (free = [] ∧ count = 1)) := by
  rw [readPool.eq_def] at ok
  split at ok
  · cases ok
  next running =>
    split at ok
    · cases ok
    next unclaimed =>
      split at ok
      · cases ok
      · rw [not_or] at running
        split at ok
        · cases ok
        · refine ⟨running.2, by simpa using unclaimed, ?_⟩
          cases free with
          | nil =>
            dsimp only at ok
            split at ok
            next one =>
              cases ok
              exact ⟨rfl, .inr ⟨rfl, one⟩⟩
            · cases ok
          | cons other rest =>
            dsimp only at ok
            split at ok
            · cases ok
            next idle =>
              cases ok
              simp only [not_or] at idle
              exact ⟨rfl, .inl ⟨other, rest, rfl, idle.2.2.1, idle.2.2.2⟩⟩

variable {layout : Layout}

theorem saveProcess_ok {refused : SaveRefusals} {p : Capsule} {s : Snapshot}
    (ok : saveProcess layout refused p = .ok s) : AtRest layout p ∧ s = snapshotOf p := by
  rw [saveProcess] at ok
  split at ok
  · cases ok
  split at ok
  · cases ok
  next maps copied =>
    split at ok
    · cases ok
    next expected =>
      split at ok
      · cases ok
      next issued count read =>
        split at ok
        · cases ok
        · split at ok
          · cases ok
          next freeFiber pool =>
            cases ok
            obtain ⟨rfl, few⟩ := saveMaps_ok copied (by simp)
            obtain ⟨valid, rfl, rfl⟩ := readIssued_ok read
            obtain ⟨running, unclaimed, rfl, idle⟩ := readPool_ok pool
            have issuedOf {key : Nat} (set : withFibers p.issued.entries (fun _ => 0) key ≠ 0) :
                key ∈ p.fibers := by
              by_contra absent
              exact set (withFibers_eq_zero.mpr absent)
            refine ⟨⟨by simpa using few, by simpa using expected, valid, issuedOf running, unclaimed,
              ?_⟩, rfl⟩
            rcases idle with ⟨other, rest, same, different, set⟩ | ⟨empty, one⟩
            · exact .inl ⟨other, rest, same, different, issuedOf set⟩
            · exact .inr ⟨empty, by simpa [Capsule.fibers] using one⟩

/-- And of a process at rest a snapshot is taken, if nothing is refused. -/
theorem AtRest.saveProcess_eq {p : Capsule} (rest : AtRest layout p) :
    saveProcess layout SaveRefusals.none p = .ok (snapshotOf p) := by
  have maps : saveMaps (fun _ => none) p.maps [] = .ok (writableMaps p.maps) := by
    rw [saveMaps_none p.maps [] (by simp), if_pos (by simpa using rest.few), List.nil_append]
  have issued : readIssued (fun _ => none) p.issued.entries (fun _ => 0) 0 =
      .ok (withFibers p.issued.entries fun _ => 0, p.issued.entries.length) := by
    rw [readIssued_of_valid rest.valid, Nat.zero_add]
  have set {key : Nat} (member : key ∈ p.fibers) :
      withFibers p.issued.entries (fun _ => 0) key ≠ 0 :=
    fun unset => withFibers_eq_zero.mp unset member
  have small {key : Nat} (member : key ∈ p.fibers) : ¬ key ≥ 2 := by
    obtain ⟨e, inside, rfl⟩ := List.mem_map.mp member
    exact Nat.not_le.mpr (rest.valid.each e inside).1
  have pool : readPool SaveRefusals.none (activeFiber layout p.maps) p.claims p.free
      (withFibers p.issued.entries fun _ => 0) p.issued.entries.length = .ok p.free.head? := by
    have running : ¬ (activeFiber layout p.maps ≥ 2 ∨
        withFibers p.issued.entries (fun _ => 0) (activeFiber layout p.maps) = 0) :=
      not_or.mpr ⟨small rest.suspended, set rest.suspended⟩
    rw [readPool.eq_def, if_neg running, if_neg (by simp [rest.unclaimed])]
    rcases rest.idle with ⟨other, others, free, different, member⟩ | ⟨empty, one⟩
    · have two := rest.valid.length_eq_two different member rest.suspended
      have idle : ¬ (p.issued.entries.length ≠ 2 ∨ other ≥ 2 ∨
          other = activeFiber layout p.maps ∨
          withFibers p.issued.entries (fun _ => 0) other = 0) := by
        simp [two, small member, different, set member]
      rw [free]
      exact if_neg idle
    · rw [empty]
      have one : p.issued.entries.length = 1 := by simpa [Capsule.fibers] using one
      exact if_pos one
  simp only [saveProcess, show SaveRefusals.none.memory = false from rfl,
    show SaveRefusals.none.map = fun _ => none from rfl,
    show SaveRefusals.none.key = fun _ => none from rfl,
    show SaveRefusals.none.walk = none from rfl, maps, issued, pool, rest.expected]
  rfl

/-! ### What the child gets -/

/-- The program as the child loads it: the same maps with other contents, at the same addresses. -/
structure Fresh (p fresh : Capsule) : Prop where
  start : fresh.start = p.start
  memory : fresh.memory.length = p.memory.length
  page : 4096 ≤ p.memory.length
  imageAddress : fresh.imageAddress = p.imageAddress
  image : fresh.image.length = p.image.length
  maps : List.Forall₂ (fun m n => n.name = m.name ∧ n.value.length = m.value.length) p.maps fresh.maps
  names : (p.maps.map BpfMap.name).Nodup
  issued : fresh.issued.entries = [] ∧ fresh.issued.maxEntries = 2
  free : fresh.free = []
  claims : fresh.claims = []

/-- The maps of the child before it gets its own numbers. -/
def copiedMaps (maps fresh : List BpfMap) : List BpfMap :=
  List.zipWith (fun m n => if m.writable then { n with value := m.value } else n) maps fresh

theorem putMap_skip {s : SavedMap} {m : BpfMap} {rest : List BpfMap} (other : m.name ≠ s.name) :
    putMap refused s (m :: rest) = (putMap refused s rest).map (m :: ·) := by
  rw [putMap, if_neg other]

theorem restoreMaps_skip {saved : List SavedMap} {m : BpfMap} {rest : List BpfMap}
    (other : ∀ s ∈ saved, m.name ≠ s.name) :
    restoreMaps refused saved (m :: rest) = (restoreMaps refused saved rest).map (m :: ·) := by
  induction saved generalizing rest with
  | nil => rfl
  | cons s saved ih =>
    have first : putMap refused s (m :: rest) = (putMap refused s rest).map (m :: ·) :=
      putMap_skip (other s (by simp))
    rw [restoreMaps, List.foldlM_cons, first]
    cases put : putMap refused s rest with
    | error e => simp [restoreMaps, put, Except.map, bind, Except.bind]
    | ok maps =>
      have later : restoreMaps refused saved (m :: maps) =
          (restoreMaps refused saved maps).map (m :: ·) :=
        ih fun t member => other t (by simp [member])
      simpa [restoreMaps, put, Except.map, bind, Except.bind] using later

theorem restoreMaps_copies {maps fresh : List BpfMap}
    (shape : List.Forall₂ (fun m n => n.name = m.name ∧ n.value.length = m.value.length) maps fresh)
    (names : (maps.map BpfMap.name).Nodup) :
    restoreMaps (fun _ => none) (writableMaps maps) fresh = .ok (copiedMaps maps fresh) := by
  induction shape with
  | nil => rfl
  | @cons m n maps fresh same shape ih =>
    obtain ⟨absent, names⟩ := List.nodup_cons.mp names
    have others : ∀ s ∈ writableMaps maps, n.name ≠ s.name := by
      intro s member equal
      obtain ⟨other, inside, rfl⟩ := List.mem_map.mp member
      refine absent (List.mem_map.mpr ⟨other, (List.mem_filter.mp inside).1, ?_⟩)
      rw [← same.1, equal]
    rw [writableMaps_cons]
    cases writable : m.writable with
    | false =>
      simp only [Bool.false_eq_true, if_false]
      rw [restoreMaps_skip others, ih names]
      simp [copiedMaps, writable, Except.map]
    | true =>
      have put : putMap (fun _ => none) ⟨m.name, m.value⟩ (n :: fresh) =
          .ok ({ n with value := m.value } :: fresh) := by
        simp [putMap, same.1, same.2]
      have rest : restoreMaps (fun _ => none) (writableMaps maps) ({ n with value := m.value } :: fresh) =
          (restoreMaps (fun _ => none) (writableMaps maps) fresh).map
            ({ n with value := m.value } :: ·) :=
        restoreMaps_skip others
      simp only [if_true]
      rw [restoreMaps, List.foldlM_cons, put, ok_bind, ← restoreMaps, rest, ih names]
      simp [copiedMaps, writable, Except.map]

theorem issueFibers_eq (issued : Nat → Nat) {fresh : FiberMap}
    (empty : fresh.entries = [] ∧ fresh.maxEntries = 2) :
    issueFibers issued fresh = .ok { fresh with
      entries := ([0, 1].filter (issued · ≠ 0)).map fun fiber => (fiber, issued fiber) } := by
  obtain ⟨kind, keySize, valueSize, maxEntries, entries⟩ := fresh
  obtain ⟨rfl, rfl⟩ := empty
  by_cases zero : issued 0 = 0 <;> by_cases one : issued 1 = 0
  all_goals simp [issueFibers, issueFiber, zero, one]

theorem FibersValid.mem_reissued (valid : FibersValid entries fun _ => 0) (e : Nat × Nat) :
    e ∈ (([0, 1].filter (withFibers entries (fun _ => 0) · ≠ 0)).map fun fiber =>
      (fiber, withFibers entries (fun _ => 0) fiber)) ↔ e ∈ entries := by
  obtain ⟨key, value⟩ := e
  have values : ∀ fiber ∈ entries.map Prod.fst, withFibers entries (fun _ => 0) fiber = 1 :=
    fun fiber member => if_pos member
  rw [List.mem_map]
  constructor
  · rintro ⟨fiber, chosen, same⟩
    have set := (List.mem_filter.mp chosen).2
    rw [decide_eq_true_eq, ne_eq, withFibers_eq_zero, not_not] at set
    rw [values fiber set] at same
    obtain ⟨⟨k, v⟩, within, rfl⟩ := List.mem_map.mp set
    cases same
    have one : v = 1 := (valid.each _ within).2.1
    exact one ▸ within
  · intro within
    obtain ⟨small, one, -⟩ := valid.each _ within
    have member : key ∈ entries.map Prod.fst := List.mem_map.mpr ⟨_, within, rfl⟩
    refine ⟨key, List.mem_filter.mpr ⟨?_, ?_⟩, ?_⟩
    · simp only [List.mem_cons, List.not_mem_nil, or_false]
      simp only at small
      omega
    · rw [values key member]
      rfl
    · rw [values key member, show value = 1 from one]

/-- The value of a map in the child: the parent's, with the child's numbers in `control`. -/
def childValue (layout : Layout) (m : BpfMap) (pid ppid : Nat) : List UInt8 :=
  if m.name = layout.control then
    overwrite (overwrite m.value layout.pid (leBytes 4 pid)) layout.ppid (leBytes 4 ppid)
  else m.value

/-- The child has everything of the parent that the guest can see: its memory behind the page of
the runtime, the image, the writable maps with its own process numbers, and the pool of fibers. -/
structure SameProcess (layout : Layout) (p c : Capsule) (pid ppid : Nat) : Prop where
  memory : c.memory.drop 4096 = p.memory.drop 4096
  image : c.image = p.image
  maps : ∀ (i : Nat) (m : BpfMap), p.maps[i]? = some m → m.writable = true →
    ∃ n, c.maps[i]? = some n ∧ n.name = m.name ∧ n.value = childValue layout m pid ppid
  issued : ∀ e, e ∈ c.issued.entries ↔ e ∈ p.issued.entries
  free : c.free = p.free.take 1
  claims : c.claims = p.claims

def restoredCapsule (layout : Layout) (p fresh : Capsule) (pid ppid : Nat) : Capsule :=
  { fresh with
    memory := fresh.memory.take 4096 ++ p.memory.drop 4096
    image := p.image
    maps := setControl layout layout.ppid ppid
      (setControl layout layout.pid pid (copiedMaps p.maps fresh.maps))
    issued := { fresh.issued with
      entries := ([0, 1].filter (withFibers p.issued.entries (fun _ => 0) · ≠ 0)).map fun fiber =>
        (fiber, withFibers p.issued.entries (fun _ => 0) fiber) }
    free := p.free.head?.toList ++ fresh.free }

theorem Fresh.maps_restored {p fresh : Capsule} (loaded : Fresh p fresh) {i : Nat} {m : BpfMap}
    (found : p.maps[i]? = some m) (writable : m.writable = true) (pid ppid : Nat) :
    ∃ n, (restoredCapsule layout p fresh pid ppid).maps[i]? = some n ∧ n.name = m.name ∧
      n.value = childValue layout m pid ppid := by
  obtain ⟨below, here⟩ := List.getElem?_eq_some_iff.mp found
  have within : i < fresh.maps.length := loaded.maps.length_eq ▸ below
  have same : fresh.maps[i].name = m.name := by
    have shape := loaded.maps.get below within
    exact here ▸ shape.1
  have copied : (copiedMaps p.maps fresh.maps)[i]? = some { fresh.maps[i] with value := m.value } := by
    rw [copiedMaps, List.getElem?_zipWith, found, List.getElem?_eq_getElem within]
    simp [writable]
  refine ⟨{ fresh.maps[i] with value := childValue layout m pid ppid }, ?_, same, rfl⟩
  by_cases control : m.name = layout.control
  all_goals simp [restoredCapsule, setControl, copied, same, control, childValue]

theorem restoreProcess_same {p fresh : Capsule} (rest : AtRest layout p) (loaded : Fresh p fresh)
    (pid ppid : Nat) :
    ∃ c, restoreProcess layout (fun _ => none) (snapshotOf p) fresh pid ppid = .ok c ∧
      SameProcess layout p c pid ppid := by
  have fits : ¬ (fresh.start + 4096 ≠ (snapshotOf p).memoryAddress ∨
      fresh.memory.length - 4096 ≠ (snapshotOf p).memory.length ∨
      fresh.imageAddress ≠ (snapshotOf p).imageAddress ∨
      fresh.image.length ≠ (snapshotOf p).image.length) := by
    simp [snapshotOf, loaded.start, loaded.memory, loaded.imageAddress, loaded.image]
  have maps := restoreMaps_copies loaded.maps loaded.names
  have issued := issueFibers_eq (withFibers p.issued.entries fun _ => 0) loaded.issued
  refine ⟨restoredCapsule layout p fresh pid ppid, ?_, ?_⟩
  · rw [restoreProcess, if_neg fits]
    rw [show (snapshotOf p).maps = writableMaps p.maps from rfl, maps, ok_bind,
      show (snapshotOf p).issued = withFibers p.issued.entries fun _ => 0 from rfl, issued, ok_bind]
    rfl
  · exact {
      memory := by
        have page : (fresh.memory.take 4096).length = 4096 := by
          simp [loaded.memory, loaded.page]
        exact List.drop_left' page
      image := rfl
      maps := fun i m found writable => loaded.maps_restored found writable pid ppid
      issued := rest.valid.mem_reissued
      free := by
        cases free : p.free <;> simp [restoredCapsule, free, loaded.free]
      claims := by rw [rest.unclaimed]; exact loaded.claims }

/-- A process can be copied exactly when it is at rest. -/
theorem saveProcess_ok_iff (layout : Layout) (p : Capsule) :
    (∃ s, saveProcess layout SaveRefusals.none p = .ok s) ↔ AtRest layout p :=
  ⟨fun ⟨_, ok⟩ => (saveProcess_ok ok).1, fun rest => ⟨_, rest.saveProcess_eq⟩⟩

/-- The child of a fork goes on as a copy of its parent, if the program can be loaded again at the
same addresses and no update of a map is refused. -/
theorem forkProcess_child {layout : Layout} {refused : SaveRefusals} {p fresh : Capsule}
    {s : Snapshot} (saved : saveProcess layout refused p = .ok s) (native : Nat)
    {load : Nat → Except Errno Capsule} (loads : load p.window = .ok fresh) (loaded : Fresh p fresh)
    (pid ppid : Nat) :
    ∃ c, forkProcess layout refused p (.ok native) load (fun _ => none) pid ppid =
        ⟨native, none, some (.ok c)⟩ ∧
      SameProcess layout p c pid ppid := by
  obtain ⟨rest, rfl⟩ := saveProcess_ok saved
  obtain ⟨c, restored, same⟩ := restoreProcess_same rest loaded pid ppid
  refine ⟨c, ?_, same⟩
  rw [forkProcess, saved]
  dsimp only
  rw [show (snapshotOf p).window = p.window from rfl, loads, ok_bind, restored]
  rfl

/-- A small process whose second fiber was never issued. -/
def smallCapsule : Capsule where
  window := 0
  start := 0
  memory := List.replicate 4097 7
  imageAddress := 0
  image := [1, 2]
  maps := [⟨".data.ctrl", true, .array, false, [0, 0, 5, 0, 0, 0, 0, 0, 7, 0, 0, 0, 3, 0, 0, 0]⟩]
  issued := ⟨.hash, 4, 4, 2, [(0, 1)]⟩
  claims := []
  free := []

/-- What the child loads: everything is there and zero. -/
def smallFresh : Capsule :=
  { smallCapsule with
    memory := List.replicate 4097 0
    image := [0, 0]
    maps := [⟨".data.ctrl", true, .array, false, List.replicate 16 0⟩]
    issued := ⟨.hash, 4, 4, 2, []⟩ }

def smallLayout : Layout := ⟨".data.ctrl", 0, 8, 12⟩

theorem smallCapsule_rest : AtRest smallLayout smallCapsule where
  few := by decide
  expected := by decide
  valid := ⟨by decide, by decide⟩
  suspended := by decide
  unclaimed := rfl
  idle := .inr ⟨rfl, rfl⟩

theorem smallCapsule_fresh : Fresh smallCapsule smallFresh where
  start := rfl
  memory := by simp only [smallFresh, smallCapsule, List.length_replicate]
  page := by
    show 4096 ≤ (List.replicate 4097 (7 : UInt8)).length
    rw [List.length_replicate]
    decide
  imageAddress := rfl
  image := rfl
  maps := .cons ⟨rfl, rfl⟩ .nil
  names := by decide
  issued := ⟨rfl, rfl⟩
  free := rfl
  claims := rfl

theorem forkProcess_child_small :
    ∃ c, forkProcess smallLayout SaveRefusals.none smallCapsule (.ok 8) (fun _ => .ok smallFresh)
        (fun _ => none) 8 7 = ⟨8, none, some (.ok c)⟩ ∧
      SameProcess smallLayout smallCapsule c 8 7 :=
  forkProcess_child smallCapsule_rest.saveProcess_eq 8 rfl smallCapsule_fresh 8 7

end LashOs.Process
