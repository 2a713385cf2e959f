import Mathlib.Data.List.Nodup
import LashOs.Isolation.Mountinfo

/-!
# Is a directory visible below the share?

`mount_reachable` of `sandbox_host.c`: a bind mount shows one location of a file system at
several paths, so the location of the target is mapped back through every mount of its
device. The answer is 1 for reachable, 0 for unreachable and -1 for unknown.
-/
namespace LashOs.Isolation

open Base Path

def pathUnder (path base : List UInt8) : Bool :=
  if base = [slash] then decide (path.head? = some slash)
  else decide (base ≠ [] ∧ path.take base.length = base ∧ IsRest (path.drop base.length))

/-- `join_path`, with the size of the buffer. -/
def joinPath (size : Nat) (base rest : List UInt8) : Option (List UInt8) :=
  if (follow base rest).length ≥ size then none else some (follow base rest)

/-- `2 * PATH_MAX` -/
def pathBuffer : Nat := 8192

/-- The loop over the mounts of the device. -/
def reachLoop (device location share : List UInt8) : List Mount → Int
  | [] => 0
  | m :: mounts =>
    if m.device ≠ device ∨ m.root.head? ≠ some slash ∨ pathUnder location m.root = false then
      reachLoop device location share mounts
    else
      match joinPath pathBuffer m.point (restOf m.root location) with
      | none => -1
      | some candidate =>
        if pathUnder candidate share then 1 else reachLoop device location share mounts

/-- The loop that looks for the mount of the target; the last one counts. -/
def findMount (mounts : List Mount) (id : Nat) : Option Mount :=
  mounts.foldl (fun found m => if m.id = id then some m else found) none

/-- `contents` is what could be read of the table, and `failed` whether `ferror` is set. -/
def mountReachable (contents : List UInt8) (failed : Bool) (share target : List UInt8)
    (targetMount : Nat) : Int :=
  match parseTable contents with
  | none => -1
  | some mounts =>
    if failed then -1
    else
      match findMount mounts targetMount with
      | none => -1
      | some found =>
        if found.root.head? ≠ some slash ∨ pathUnder target found.point = false then -1
        else
          match joinPath pathBuffer found.root (restOf found.point target) with
          | none => -1
          | some location => reachLoop found.device location share mounts

/-! ### What is visible -/

/-- The mount shows its target at a location of its file system. -/
def Mount.Locates (m : Mount) (target location : List UInt8) : Prop :=
  ∃ rest, IsRest rest ∧ target = follow m.point rest ∧ location = follow m.root rest

/-- The mount shows a location of a device at a path. -/
def Mount.Exposes (m : Mount) (device location path : List UInt8) : Prop :=
  m.device = device ∧ ∃ rest, IsRest rest ∧ location = follow m.root rest ∧ path = follow m.point rest

/-- Some mount shows the location of the target at a path equal to or below the share. -/
def Visible (mounts : List Mount) (found : Mount) (target share : List UInt8) : Prop :=
  ∃ location path, found.Locates target location ∧
    (∃ m ∈ mounts, m.Exposes found.device location path) ∧ Under path share

def Fits (mounts : List Mount) (found : Mount) (target : List UInt8) : Prop :=
  let location := follow found.root (restOf found.point target)
  location.length < pathBuffer ∧ ∀ m ∈ mounts, m.device = found.device → Under location m.root →
    (follow m.point (restOf m.root location)).length < pathBuffer

theorem pathUnder_iff (path base : List UInt8) :
    pathUnder path base = true ↔ base ≠ [] ∧ Under path base := by
  unfold pathUnder
  split
  next root =>
    subst root
    simp only [decide_eq_true_eq, ne_eq, List.cons_ne_nil, not_false_eq_true, true_and]
    constructor
    · intro absolute
      refine ⟨path, Or.inr absolute, (follow_root path ?_).symm⟩
      rintro rfl
      cases absolute
    · rintro ⟨rest, isRest, rfl⟩
      exact head_follow rfl rest isRest
  next other =>
    simp only [decide_eq_true_eq]
    apply and_congr_right
    intro nonempty
    constructor
    · rintro ⟨same, isRest⟩
      refine ⟨path.drop base.length, isRest, ?_⟩
      calc path = path.take base.length ++ path.drop base.length :=
            (List.take_append_drop _ _).symm
        _ = follow base (path.drop base.length) := by rw [same, follow_other other]
    · rintro ⟨rest, isRest, rfl⟩
      rw [follow_other other, List.take_left, List.drop_left]
      exact ⟨rfl, isRest⟩

theorem joinPath_eq_some (size : Nat) (base rest joined : List UInt8) :
    joinPath size base rest = some joined ↔
      (follow base rest).length < size ∧ joined = follow base rest := by
  unfold joinPath
  split
  next long =>
    simp only [reduceCtorEq, false_iff]
    omega
  next short =>
    simp only [Option.some.injEq]
    constructor
    · exact fun same => ⟨by omega, same.symm⟩
    · exact fun same => same.2.symm

/-- The loop ends with 0 if it passes every mount. -/
theorem reachLoop_zero_iff (device location share : List UInt8) (mounts : List Mount) :
    reachLoop device location share mounts = 0 ↔
      ∀ m ∈ mounts, m.device = device → m.root.head? = some slash → pathUnder location m.root = true →
        (follow m.point (restOf m.root location)).length < pathBuffer ∧
        pathUnder (follow m.point (restOf m.root location)) share = false := by
  induction mounts with
  | nil => simp [reachLoop]
  | cons m mounts ih =>
    simp only [reachLoop, List.forall_mem_cons]
    split
    next skipped =>
      -- Another device, no path, or a location outside: the loop goes on.
      rw [ih]
      refine ⟨fun rest => ⟨fun same absolute under => ?_, rest⟩, fun all => all.2⟩
      rcases skipped with other | relative | outside
      · exact absurd same other
      · exact absurd absolute relative
      · rw [under] at outside
        cases outside
    next tried =>
      simp only [not_or, not_not, Bool.not_eq_false] at tried
      obtain ⟨same, absolute, under⟩ := tried
      cases joined : joinPath pathBuffer m.point (restOf m.root location) with
      | none =>
        -- A path that is too long ends the loop with an error.
        simp only [false_iff, not_and, Int.reduceNeg, neg_eq_zero, one_ne_zero]
        intro first
        have fits := (joinPath_eq_some pathBuffer _ _ _).mpr ⟨(first same absolute under).1, rfl⟩
        rw [joined] at fits
        cases fits
      | some candidate =>
        obtain ⟨short, rfl⟩ := (joinPath_eq_some pathBuffer _ _ _).mp joined
        simp only
        split
        next below =>
          simp only [one_ne_zero, false_iff, not_and]
          intro first
          have above := (first same absolute under).2
          rw [below] at above
          cases above
        next above =>
          rw [ih]
          refine ⟨fun rest => ⟨fun _ _ _ => ⟨short, by simpa using above⟩, rest⟩, fun all => all.2⟩

theorem reachLoop_cases (device location share : List UInt8) (mounts : List Mount) :
    reachLoop device location share mounts = 0 ∨ reachLoop device location share mounts = 1 ∨
      reachLoop device location share mounts = -1 := by
  induction mounts with
  | nil => exact Or.inl rfl
  | cons m mounts ih =>
    simp only [reachLoop]
    split
    · exact ih
    · split
      · exact Or.inr (Or.inr rfl)
      · split
        · exact Or.inr (Or.inl rfl)
        · exact ih

/-! ### The mount of the target -/

theorem foldl_found (mounts : List Mount) (id : Nat) (start : Option Mount) :
    (∃ m ∈ mounts, m.id = id ∧
        mounts.foldl (fun found m => if m.id = id then some m else found) start = some m) ∨
      (∀ m ∈ mounts, m.id ≠ id) ∧
        mounts.foldl (fun found m => if m.id = id then some m else found) start = start := by
  induction mounts generalizing start with
  | nil => simp
  | cons m mounts ih =>
    rw [List.foldl_cons]
    rcases ih (if m.id = id then some m else start) with ⟨n, member, named, last⟩ | ⟨others, same⟩
    · exact Or.inl ⟨n, List.mem_cons_of_mem _ member, named, last⟩
    · by_cases named : m.id = id
      · exact Or.inl ⟨m, by simp, named, by rw [same, if_pos named]⟩
      · refine Or.inr ⟨?_, by rw [same, if_neg named]⟩
        simpa [named] using others

theorem findMount_none {mounts : List Mount} {id : Nat} (absent : ∀ m ∈ mounts, m.id ≠ id) :
    findMount mounts id = none := by
  rcases foldl_found mounts id none with ⟨m, member, named, _⟩ | ⟨_, same⟩
  · exact absurd named (absent m member)
  · exact same

theorem findMount_some {mounts : List Mount} {m : Mount} (distinct : (mounts.map Mount.id).Nodup)
    (member : m ∈ mounts) : findMount mounts m.id = some m := by
  rcases foldl_found mounts m.id none with ⟨n, member', named, last⟩ | ⟨others, _⟩
  · rw [findMount, last, List.inj_on_of_nodup_map distinct member' member named]
  · exact absurd rfl (others m member)

/-! ### The answer -/

theorem candidate_under {found m : Mount} {target location path share : List UInt8}
    (located : found.Locates target location) (exposed : m.Exposes found.device location path)
    (below : Under path share) :
    Under (follow found.root (restOf found.point target)) m.root ∧
      Under (follow m.point (restOf m.root (follow found.root (restOf found.point target)))) share := by
  obtain ⟨rest, isRest, rfl, rfl⟩ := located
  obtain ⟨_, behind, isBehind, same, rfl⟩ := exposed
  -- The location of the code differs at most by a slash at its end.
  have slashed := slashed_follow (rfl : follow found.point rest = follow found.point rest) found.root
  rw [same] at slashed
  refine ⟨slashed.under (under_follow isBehind m.root), ?_⟩
  rcases slashed.restOf with equal | longer
  · rw [equal]
    exact below
  · rw [longer]
    exact under_follow_append_slash below

structure AbsPath where
  bytes : List UInt8
  absolute : bytes.head? = some slash

theorem AbsPath.ne_nil (p : AbsPath) : p.bytes ≠ [] := by
  intro empty
  have absolute := p.absolute
  rw [empty] at absolute
  cases absolute

theorem reachLoop_visible {mounts : List Mount} {found : Mount} {target : List UInt8}
    (share : AbsPath) (rooted : ∀ m ∈ mounts, m.root ≠ [])
    (absolute : found.root.head? = some slash) (under : Under target found.point) :
    let location := follow found.root (restOf found.point target)
    (location.length < pathBuffer ∧ reachLoop found.device location share.bytes mounts = 0) ↔
      ¬Visible mounts found target share.bytes ∧ Fits mounts found target := by
  intro location
  obtain ⟨isRest, target_eq⟩ := under_restOf under
  have located : found.Locates target location := ⟨_, isRest, target_eq, rfl⟩
  have here : location.head? = some slash := head_follow absolute _ isRest
  rw [reachLoop_zero_iff]
  constructor
  · rintro ⟨short, passed⟩
    have tried : ∀ m ∈ mounts, m.device = found.device → Under location m.root →
        (follow m.point (restOf m.root location)).length < pathBuffer ∧
          pathUnder (follow m.point (restOf m.root location)) share.bytes = false := by
      intro m member same below
      exact passed m member same (head_of_under (rooted m member) below here)
        ((pathUnder_iff _ _).mpr ⟨rooted m member, below⟩)
    constructor
    · rintro ⟨location', path, located', ⟨m, member, exposed⟩, below⟩
      obtain ⟨inside, candidate⟩ := candidate_under located' exposed below
      have outside := (tried m member exposed.1 inside).2
      rw [(pathUnder_iff _ _).mpr ⟨share.ne_nil, candidate⟩] at outside
      cases outside
    · exact ⟨short, fun m member same below => (tried m member same below).1⟩
  · rintro ⟨hidden, short, fits⟩
    refine ⟨short, fun m member same _ inside => ?_⟩
    have below := ((pathUnder_iff _ _).mp inside).2
    refine ⟨fits m member same below, ?_⟩
    by_contra shown
    obtain ⟨isBehind, location_eq⟩ := under_restOf below
    have candidate := ((pathUnder_iff _ _).mp (by simpa using shown)).2
    exact hidden ⟨location, _, located, ⟨m, member, same, _, isBehind, location_eq, rfl⟩, candidate⟩

theorem mountReachable_cases (contents : List UInt8) (failed : Bool) (share target : List UInt8)
    (targetMount : Nat) :
    mountReachable contents failed share target targetMount = 0 ∨
      mountReachable contents failed share target targetMount = 1 ∨
      mountReachable contents failed share target targetMount = -1 := by
  have unknown : (-1 : Int) = 0 ∨ (-1 : Int) = 1 ∨ (-1 : Int) = -1 := Or.inr (Or.inr rfl)
  unfold mountReachable
  split
  · exact unknown
  · split
    · exact unknown
    · split
      · exact unknown
      · split
        · exact unknown
        · split
          · exact unknown
          · exact reachLoop_cases _ _ _ _

/-- The answer is 0 exactly if the location of the target is visible nowhere below the share
and every path fitted, for a target mount whose root is an absolute path. It is never 0 for a
table that does not parse or does not have the mount. -/
theorem mountReachable_zero_iff (contents : List UInt8) (failed : Bool) (share : AbsPath)
    (target : List UInt8) (targetMount : Nat) :
    let answer := mountReachable contents failed share.bytes target targetMount
    (answer = 0 ∨ answer = 1 ∨ answer = -1) ∧
    (answer = 0 → failed = false ∧
      ∃ mounts, parseTable contents = some mounts ∧ ∃ m ∈ mounts, m.id = targetMount) ∧
    ∀ mounts found, parseTable contents = some mounts → failed = false →
      (mounts.map Mount.id).Nodup → found ∈ mounts → found.id = targetMount →
      Under target found.point →
      (answer = 0 ↔ found.root.head? = some slash ∧
        ¬Visible mounts found target share.bytes ∧ Fits mounts found target) := by
  intro answer
  refine ⟨mountReachable_cases _ _ _ _ _, ?_, ?_⟩
  · intro zero
    have known : (-1 : Int) ≠ 0 := by decide
    simp only [answer, mountReachable] at zero
    split at zero
    · exact absurd zero known
    next mounts parsed =>
      split at zero
      · exact absurd zero known
      next read =>
        refine ⟨by simpa using read, mounts, parsed, ?_⟩
        by_contra absent
        rw [findMount_none (fun m member named => absent ⟨m, member, named⟩)] at zero
        exact absurd zero known
  · rintro mounts found parsed rfl distinct member rfl under
    have rooted := parseTable_ne_nil parsed
    have inside : pathUnder target found.point = true :=
      (pathUnder_iff _ _).mpr ⟨(rooted found member).2, under⟩
    simp only [answer, mountReachable, parsed, Bool.false_eq_true, if_false,
      findMount_some distinct member, inside]
    -- A root that is not a path is an error.
    by_cases absolute : found.root.head? = some slash
    · have visible :=
        reachLoop_visible share (fun m member => (rooted m member).1) absolute under
      simp only at visible
      rw [if_neg (by simpa using absolute), and_iff_right absolute, ← visible]
      cases joined : joinPath pathBuffer found.root (restOf found.point target) with
      | none =>
        have long : ¬(follow found.root (restOf found.point target)).length < pathBuffer := by
          intro short
          rw [(joinPath_eq_some _ _ _ _).mpr ⟨short, rfl⟩] at joined
          cases joined
        simp [long]
      | some location =>
        obtain ⟨short, rfl⟩ := (joinPath_eq_some _ _ _ _).mp joined
        simp [short]
    · simp [absolute]

/-- A mount of a name space file, whose root is not a path. -/
def nsfsTable : List UInt8 := ascii "5 1 0:4 net:[40] /run/n rw - nsfs nsfs rw\n"

def nsfsMount : Mount := ⟨5, ascii "0:4", ascii "net:[40]", ascii "/run/n"⟩

/-- Nothing of it is visible below `/home`, and the answer is unknown. -/
theorem nsfs_unknown :
    parseTable nsfsTable = some [nsfsMount] ∧ Under (ascii "/run/n") nsfsMount.point ∧
    ¬Visible [nsfsMount] nsfsMount (ascii "/run/n") (ascii "/home") ∧
    Fits [nsfsMount] nsfsMount (ascii "/run/n") ∧
    mountReachable nsfsTable false (ascii "/home") (ascii "/run/n") 5 = -1 := by
  refine ⟨by decide, ⟨[], Or.inl rfl, by decide⟩, ?_, ?_, by decide⟩
  · rintro ⟨location, path, _, ⟨m, member, _, rest, _, _, rfl⟩, below, _, same⟩
    obtain rfl := List.mem_singleton.mp member
    rw [follow_other (by decide), follow_other (by decide)] at same
    simp [nsfsMount, ascii] at same
  · refine ⟨by decide, fun m member _ _ => ?_⟩
    obtain rfl := List.mem_singleton.mp member
    decide

end LashOs.Isolation
