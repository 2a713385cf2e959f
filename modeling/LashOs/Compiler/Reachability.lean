import Mathlib
import LashOs.Base.Exploration

/-!
# Reachability without a block

The compiler asks whether a use of a spilled value can be reached from a resume point without
passing through the block of its reload. The original `reachableWithout` searches the graph
once for every resume root; the patched one searches from all the roots together, once for
every excluded block, and keeps the result in a cache.
-/
namespace LashOs.Compiler

open Base

/-- The control-flow graph of a function. Every value of `β` is a block of the function, and
`blocks` is the order in which the function lists them. -/
structure Cfg (β : Type) where
  blocks : List β
  nodup : blocks.Nodup
  complete : ∀ b, b ∈ blocks
  successors : β → List β

variable {β : Type}

/-- `block` can be left for another block that is not `avoid`. -/
def Cfg.Step (f : Cfg β) (avoid a b : β) : Prop := b ∈ f.successors a ∧ b ≠ avoid

/-- Some root other than `avoid` reaches the target by a path without `avoid`. -/
def Cfg.Reaches (f : Cfg β) (roots : List β) (target avoid : β) : Prop :=
  ∃ root ∈ roots, root ≠ avoid ∧ Relation.ReflTransGen (f.Step avoid) root target

variable {f : Cfg β} {target avoid : β}

def rootSet (resumes : List β) (avoid : β) : Set β := {r | r ∈ resumes ∧ r ≠ avoid}

variable {resumes : List β}

theorem reaches_iff :
    f.Reaches resumes target avoid ↔
      ∃ r ∈ rootSet resumes avoid, Relation.ReflTransGen (f.Step avoid) r target :=
  ⟨fun ⟨r, member, other, path⟩ => ⟨r, ⟨member, other⟩, path⟩,
    fun ⟨r, ⟨member, other⟩, path⟩ => ⟨r, member, other, path⟩⟩

theorem not_reaches_self : ¬ f.Reaches resumes avoid avoid := by
  rintro ⟨r, -, other, path⟩
  rcases Relation.ReflTransGen.cases_tail path with same | ⟨b, -, -, last⟩
  · exact other same.symm
  · exact last rfl

theorem or_mem_cons_iff {Seen : β → Prop} {b : β} {more : List β} (passed : b = avoid ∨ Seen b)
    (c : β) : Seen c ∨ c ∈ b :: more ∧ c ≠ avoid ↔ Seen c ∨ c ∈ more ∧ c ≠ avoid := by
  constructor
  · rintro (old | ⟨member, other⟩)
    · exact Or.inl old
    · rcases List.mem_cons.mp member with rfl | later
      · exact passed.elim (fun same => absurd same other) Or.inl
      · exact Or.inr ⟨later, other⟩
  · rintro (old | ⟨later, other⟩)
    · exact Or.inl old
    · exact Or.inr ⟨List.mem_cons_of_mem b later, other⟩

variable [DecidableEq β]

/-! ### The original search -/

/-- The loop over the successors: what is not yet in the set is inserted and put on the
worklist. -/
def insertAll (avoid : β) : List β → List β × List β → List β × List β
  | [], state => state
  | b :: more, state =>
    insertAll avoid more (if b ≠ avoid ∧ b ∉ state.1 then (b :: state.1, b :: state.2) else state)

theorem insertAll_measure (f : Cfg β) (avoid : β) (more : List β) (state : List β × List β) :
    2 * remaining f.blocks (insertAll avoid more state).1 + (insertAll avoid more state).2.length ≤
      2 * remaining f.blocks state.1 + state.2.length := by
  induction more generalizing state with
  | nil => exact Nat.le_refl _
  | cons b more ih =>
    rw [insertAll]
    refine (ih _).trans ?_
    split
    next new =>
      have less := remaining_cons_lt (f.complete b) new.2
      simp only [List.length_cons]
      omega
    next => exact Nat.le_refl _

/-- The loop over the worklist, whose back is the head of the list. -/
def originalLoop (f : Cfg β) (target avoid : β) (seen worklist : List β) : Bool :=
  match worklist with
  | [] => false
  | block :: rest =>
    if block = target then true
    else
      originalLoop f target avoid (insertAll avoid (f.successors block) (seen, rest)).1
        (insertAll avoid (f.successors block) (seen, rest)).2
termination_by 2 * remaining f.blocks seen + worklist.length
decreasing_by
  have less := insertAll_measure f avoid (f.successors block) (seen, rest)
  simp only [List.length_cons] at less ⊢
  omega

/-- `reachableWithout` before the patch. -/
def originalReachableWithout (f : Cfg β) (start target avoid : β) : Bool :=
  if start = avoid then false else originalLoop f target avoid [start] [start]

/-! ### The patched search -/

/-- An assignment to `map[key]`. -/
def assign {γ : Type} (map : List (β × γ)) (key : β) (value : γ) : List (β × γ) :=
  if map.any (·.1 = key) then map.map fun entry => if entry.1 = key then (key, value) else entry
  else map ++ [(key, value)]

/-- The loop that numbers the blocks. The size is read before the assignment. -/
def blockIds (f : Cfg β) : List (β × Nat) :=
  f.blocks.foldl (fun ids block => assign ids block ids.length) []

/-- `blockIds.lookup`, which gives 0 for a block that is not there. -/
def blockId (f : Cfg β) (b : β) : Nat := ((blockIds f).find? (·.1 = b)).elim 0 (·.2)

/-- The loop over roots or successors: a block whose bit is not set is put on the worklist. A
test of a bit that is not there has no result. -/
def markAll (f : Cfg β) (avoid : β) : List β → List Bool × List β → Option (List Bool × List β)
  | [], state => some state
  | b :: more, state =>
    if b = avoid then markAll f avoid more state
    else
      match state.1[blockId f b]? with
      | none => none
      | some true => markAll f avoid more state
      | some false => markAll f avoid more (state.1.set (blockId f b) true, b :: state.2)

theorem count_set_lt {bits : List Bool} {i : Nat} (clear : bits[i]? = some false) :
    (bits.set i true).count false < bits.count false := by
  obtain ⟨inside, value⟩ := List.getElem?_eq_some_iff.mp clear
  have positive : 0 < bits.count false := List.count_pos_iff.mpr (value ▸ List.getElem_mem inside)
  have one : (bits.set i true).count false = bits.count false - 1 := by
    rw [List.count_set inside, value]
    rfl
  omega

theorem markAll_measure {f : Cfg β} {avoid : β} {more : List β} {state state' : List Bool × List β}
    (marked : markAll f avoid more state = some state') :
    2 * state'.1.count false + state'.2.length ≤ 2 * state.1.count false + state.2.length := by
  induction more generalizing state with
  | nil =>
    cases marked
    exact Nat.le_refl _
  | cons b more ih =>
    rw [markAll] at marked
    split at marked
    · exact ih marked
    · split at marked
      · cases marked
      · exact ih marked
      next clear =>
        have less := count_set_lt clear
        have rest := ih marked
        simp only [List.length_cons] at rest
        omega

/-- The loop over the worklist. -/
def searchLoop (f : Cfg β) (avoid : β) (seen : List Bool) (worklist : List β) :
    Option (List Bool) :=
  match worklist with
  | [] => some seen
  | block :: rest =>
    match _ : markAll f avoid (f.successors block) (seen, rest) with
    | none => none
    | some state => searchLoop f avoid state.1 state.2
termination_by 2 * seen.count false + worklist.length
decreasing_by
  rename_i marked
  have less := markAll_measure marked
  simp only [List.length_cons] at less ⊢
  omega

/-- The search from all resume roots, with no bit set. -/
def search (f : Cfg β) (resumes : List β) (avoid : β) : Option (List Bool) :=
  match markAll f avoid resumes (List.replicate f.blocks.length false, []) with
  | none => none
  | some state => searchLoop f avoid state.1 state.2

abbrev Cache (β : Type) : Type := List (β × List Bool)

/-- `reachableWithout` after the patch: the answer and the cache. -/
def reachableWithout (f : Cfg β) (resumes : List β) (cache : Cache β) (target avoid : β) :
    Option (Bool × Cache β) :=
  if target = avoid then some (false, cache)
  else
    match cache.find? (·.1 = avoid) with
    | some cached => (cached.2[blockId f target]?).map (·, cache)
    | none =>
      match search f resumes avoid with
      | none => none
      | some seen => (seen[blockId f target]?).map (·, cache ++ [(avoid, seen)])

/-- The answers to questions one after the other, of which each is a target and an excluded
block. -/
def answers (f : Cfg β) (resumes : List β) : Cache β → List (β × β) → Option (List Bool)
  | _, [] => some []
  | cache, (target, avoid) :: more =>
    match reachableWithout f resumes cache target avoid with
    | none => none
    | some (answer, cache) => (answers f resumes cache more).map (answer :: ·)

/-! ### The numbers of the blocks -/

theorem foldl_assign (ids : List (β × Nat)) (blocks : List β) (nodup : blocks.Nodup)
    (fresh : ∀ b ∈ blocks, ∀ entry ∈ ids, entry.1 ≠ b) :
    blocks.foldl (fun ids block => assign ids block ids.length) ids =
      ids ++ blocks.zipIdx ids.length := by
  induction blocks generalizing ids with
  | nil => simp
  | cons b blocks ih =>
    -- No block occurs twice, so the next free number is the length of the map.
    have new : ids.any (·.1 = b) = false := by
      rw [List.any_eq_false]
      intro entry member
      simpa using fresh b List.mem_cons_self entry member
    obtain ⟨apart, nodup⟩ := List.nodup_cons.mp nodup
    have step : assign ids b ids.length = ids ++ [(b, ids.length)] := by
      rw [assign, new, if_neg Bool.false_ne_true]
    rw [List.foldl_cons, step, ih _ nodup]
    · simp
    · intro c member entry inside
      rcases List.mem_append.mp inside with old | last
      · exact fresh c (List.mem_cons_of_mem b member) entry old
      · rw [List.mem_singleton.mp last]
        rintro rfl
        exact apart member

theorem blockIds_eq (f : Cfg β) : blockIds f = f.blocks.zipIdx := by
  rw [blockIds, foldl_assign [] f.blocks f.nodup fun _ _ _ member => by cases member]
  simp

theorem find?_zipIdx {blocks : List β} {b : β} (member : b ∈ blocks) (k : Nat) :
    (blocks.zipIdx k).find? (·.1 = b) = some (b, k + blocks.idxOf b) := by
  induction blocks generalizing k with
  | nil => cases member
  | cons c blocks ih =>
    rw [List.zipIdx_cons, List.find?_cons, List.idxOf_cons]
    by_cases same : c = b
    · simp [same]
    · have later : b ∈ blocks := (List.mem_cons.mp member).resolve_left (Ne.symm same)
      have other : (c == b) = false := by simp [same]
      rw [decide_eq_false same, other, ih later (k + 1)]
      simp only [cond_false, Option.some.injEq, Prod.mk.injEq, true_and]
      omega

theorem blockId_eq (f : Cfg β) (b : β) : blockId f b = f.blocks.idxOf b := by
  rw [blockId, blockIds_eq, find?_zipIdx (f.complete b) 0, Option.elim_some, Nat.zero_add]

theorem blockId_lt (f : Cfg β) (b : β) : blockId f b < f.blocks.length := by
  rw [blockId_eq]
  exact List.idxOf_lt_length_of_mem (f.complete b)

theorem blockId_injective (f : Cfg β) : Function.Injective (blockId f) := by
  intro a b same
  rw [blockId_eq, blockId_eq] at same
  exact (List.idxOf_inj (f.complete a)).mp same

theorem exists_blockId (f : Cfg β) {i : Nat} (inside : i < f.blocks.length) :
    ∃ b, blockId f b = i := by
  refine ⟨f.blocks[i], ?_⟩
  rw [blockId_eq]
  exact f.nodup.idxOf_getElem i inside

/-! ### What the loops mark -/

def Marked (f : Cfg β) (seen : List Bool) (b : β) : Prop := seen[blockId f b]? = some true

variable {seen : List Bool}

theorem marked_set {b : β} (size : seen.length = f.blocks.length) (c : β) :
    Marked f (seen.set (blockId f b) true) c ↔ Marked f seen c ∨ c = b := by
  have inside := blockId_lt f b
  rw [← size] at inside
  unfold Marked
  rw [List.getElem?_set]
  by_cases same : blockId f b = blockId f c
  · simp [blockId_injective f same, show blockId f c < seen.length from same ▸ inside]
  · have other : c ≠ b := fun eq => same (by rw [eq])
    simp [same, other]

/-- The loop over blocks sets their bits, and what is new is on the worklist. -/
theorem markAll_spec {more : List β} (size : seen.length = f.blocks.length) (worklist : List β) :
    ∃ seen' worklist', markAll f avoid more (seen, worklist) = some (seen', worklist') ∧
      seen'.length = f.blocks.length ∧
      (∀ c, Marked f seen' c ↔ Marked f seen c ∨ c ∈ more ∧ c ≠ avoid) ∧
      (∀ c, c ∈ worklist' ↔ c ∈ worklist ∨ Marked f seen' c ∧ ¬ Marked f seen c) := by
  induction more generalizing seen worklist with
  | nil => exact ⟨seen, worklist, rfl, size, by simp, by simp⟩
  | cons b more ih =>
    rw [markAll]
    by_cases isAvoid : b = avoid
    · obtain ⟨seen', worklist', marked, size', sees, waits⟩ := ih size worklist
      refine ⟨seen', worklist', by rw [if_pos isAvoid, marked], size', fun c => ?_, waits⟩
      rw [sees, or_mem_cons_iff (Or.inl isAvoid)]
    rw [if_neg isAvoid]
    dsimp only
    have inside : blockId f b < seen.length := size ▸ blockId_lt f b
    match bit : seen[blockId f b]? with
    | none => exact absurd (List.getElem?_eq_none_iff.mp bit) (by omega)
    | some true =>
      obtain ⟨seen', worklist', marked, size', sees, waits⟩ := ih size worklist
      refine ⟨seen', worklist', marked, size', fun c => ?_, waits⟩
      have old : Marked f seen b := bit
      rw [sees, or_mem_cons_iff (Or.inr old)]
    -- A clear bit: the block is new, and only here the worklist grows.
    | some false =>
      have set_size : (seen.set (blockId f b) true).length = f.blocks.length := by
        rw [List.length_set, size]
      obtain ⟨seen', worklist', marked, size', sees, waits⟩ := ih set_size (b :: worklist)
      have new : ¬ Marked f seen b := by
        unfold Marked
        rw [bit]
        simp
      refine ⟨seen', worklist', marked, size', fun c => ?_, fun c => ?_⟩
      · rw [sees, marked_set size, List.mem_cons]
        constructor
        · rintro ((old | rfl) | ⟨later, other⟩)
          · exact Or.inl old
          · exact Or.inr ⟨Or.inl rfl, isAvoid⟩
          · exact Or.inr ⟨Or.inr later, other⟩
        · rintro (old | ⟨rfl | later, other⟩)
          · exact Or.inl (Or.inl old)
          · exact Or.inl (Or.inr rfl)
          · exact Or.inr ⟨later, other⟩
      · rw [waits, List.mem_cons, marked_set size]
        by_cases same : c = b
        · subst same
          have seenNow : Marked f seen' c :=
            (sees c).mpr (Or.inl ((marked_set size c).mpr (Or.inr rfl)))
          simp [seenNow, new]
        · simp [same]

/-- The search ends, no bit it tests is out of range, and the bits that are set in the end are
those of the blocks that are reached. -/
theorem searchLoop_spec {roots : Set β} {worklist : List β}
    (explores : Explores (f.Step avoid) roots {c | Marked f seen c} {c | c ∈ worklist})
    (size : seen.length = f.blocks.length) :
    ∃ seen', searchLoop f avoid seen worklist = some seen' ∧ seen'.length = f.blocks.length ∧
      ∀ c, Marked f seen' c ↔ ∃ r ∈ roots, Relation.ReflTransGen (f.Step avoid) r c := by
  -- `Explores` is the invariant: the block that is taken off the worklist is looked at in full.
  fun_induction searchLoop f avoid seen worklist with
  | case1 seen =>
    refine ⟨seen, rfl, size, fun c => ?_⟩
    exact explores.mem_iff fun b member => by cases member
  -- The numbers of the blocks are below their count, so no bit test fails.
  | case2 seen block rest none_ =>
    obtain ⟨seen', worklist', marked, -⟩ := markAll_spec size rest
    rw [marked] at none_
    cases none_
  | case3 seen block rest state marked ih =>
    obtain ⟨seen', worklist', marked', size', sees, waits⟩ := markAll_spec size rest
    rw [marked] at marked'
    cases marked'
    refine ih (Explores.visit (b := block) ?_ sees waits) size'
    refine { explores with waiting := ?_, closed := ?_ }
    · intro c member
      exact explores.waiting c (List.mem_cons.mpr member)
    · intro c member done
      exact explores.closed c member fun inside => done (List.mem_cons.mp inside)

theorem search_spec (f : Cfg β) (resumes : List β) (avoid : β) :
    ∃ seen, search f resumes avoid = some seen ∧ seen.length = f.blocks.length ∧
      ∀ c, Marked f seen c ↔ f.Reaches resumes c avoid := by
  have clear : ∀ c, ¬ Marked f (List.replicate f.blocks.length false) c := by
    intro c
    unfold Marked
    rw [List.getElem?_replicate]
    split <;> simp
  have empty : (List.replicate f.blocks.length false).length = f.blocks.length :=
    List.length_replicate ..
  obtain ⟨seen, worklist, marked, size, sees, waits⟩ := markAll_spec (f := f) empty []
  -- The first loop marks the roots, the excluded one apart, and puts them on the worklist.
  have seenRoots : {c | Marked f seen c} = rootSet resumes avoid := by
    ext c
    exact (sees c).trans (or_iff_right (clear c))
  have waitingRoots : {c | c ∈ worklist} = rootSet resumes avoid := by
    ext c
    rw [← seenRoots]
    simp [waits, clear]
  have start : Explores (f.Step avoid) (rootSet resumes avoid) {c | Marked f seen c}
      {c | c ∈ worklist} := by
    rw [seenRoots, waitingRoots]
    exact Explores.init
  obtain ⟨seen', found, size', sees'⟩ := searchLoop_spec start size
  refine ⟨seen', ?_, size', fun c => (sees' c).trans reaches_iff.symm⟩
  rw [search, marked]
  exact found

/-! ### The answers of the original -/

theorem insertAll_spec (avoid : β) (more seen worklist : List β) :
    (∀ c, c ∈ (insertAll avoid more (seen, worklist)).1 ↔ c ∈ seen ∨ c ∈ more ∧ c ≠ avoid) ∧
    (∀ c, c ∈ (insertAll avoid more (seen, worklist)).2 ↔
      c ∈ worklist ∨ c ∈ (insertAll avoid more (seen, worklist)).1 ∧ c ∉ seen) := by
  induction more generalizing seen worklist with
  | nil => simp [insertAll]
  | cons b more ih =>
    rw [insertAll]
    split
    next new =>
      obtain ⟨sees, waits⟩ := ih (b :: seen) (b :: worklist)
      refine ⟨fun c => ?_, fun c => ?_⟩
      · rw [sees, List.mem_cons, List.mem_cons]
        by_cases same : c = b
        · simp [same, new.1]
        · simp [same]
      · rw [waits, sees, List.mem_cons, List.mem_cons]
        by_cases same : c = b
        · simp [same, new.2]
        · simp [same]
    next old =>
      obtain ⟨sees, waits⟩ := ih seen worklist
      refine ⟨fun c => ?_, waits⟩
      have passed : b = avoid ∨ b ∈ seen := by
        by_contra neither
        rw [not_or] at neither
        exact old neither
      rw [sees, ← or_mem_cons_iff passed]

/-- The original search stops at the target, which is on the worklist from when it is seen. -/
theorem originalLoop_iff {roots : Set β} {seen worklist : List β}
    (explores : Explores (f.Step avoid) roots {c | c ∈ seen} {c | c ∈ worklist})
    (pending : target ∈ seen → target ∈ worklist) :
    originalLoop f target avoid seen worklist = true ↔
      ∃ r ∈ roots, Relation.ReflTransGen (f.Step avoid) r target := by
  fun_induction originalLoop f target avoid seen worklist with
  | case1 seen =>
    -- Nothing is pending, so the target was never seen.
    have absent : target ∉ seen := fun member => by cases pending member
    rw [← explores.mem_iff fun b member => by cases member]
    simpa using absent
  | case2 seen rest =>
    -- The original stops as soon as it takes the target off its worklist.
    have reached := explores.sound target (explores.waiting target List.mem_cons_self)
    simp [reached]
  | case3 seen block rest other ih =>
    obtain ⟨sees, waits⟩ := insertAll_spec avoid (f.successors block) seen rest
    refine ih (Explores.visit (b := block) ?_ sees waits) fun member => ?_
    · refine { explores with waiting := ?_, closed := ?_ }
      · intro c member
        exact explores.waiting c (List.mem_cons.mpr member)
      · intro c member done
        exact explores.closed c member fun inside => done (List.mem_cons.mp inside)
    · rw [waits]
      by_cases old : target ∈ seen
      · exact Or.inl ((List.mem_cons.mp (pending old)).resolve_left (Ne.symm other))
      · exact Or.inr ⟨member, old⟩

theorem originalReachableWithout_iff {root : β} :
    originalReachableWithout f root target avoid = true ↔
      root ≠ avoid ∧ Relation.ReflTransGen (f.Step avoid) root target := by
  rw [originalReachableWithout]
  split
  next same => simp [same]
  next other =>
    have start : Explores (f.Step avoid) {root} {c | c ∈ [root]} {c | c ∈ [root]} := by
      have single : {c | c ∈ [root]} = ({root} : Set β) := by
        ext c
        simp
      rw [single]
      exact Explores.init
    rw [originalLoop_iff start id]
    simp [other]

theorem any_original_iff :
    resumes.any (originalReachableWithout f · target avoid) = true ↔
      f.Reaches resumes target avoid := by
  rw [List.any_eq_true]
  constructor
  · rintro ⟨root, member, found⟩
    obtain ⟨other, path⟩ := originalReachableWithout_iff.mp found
    exact ⟨root, member, other, path⟩
  · rintro ⟨root, member, other, path⟩
    exact ⟨root, member, originalReachableWithout_iff.mpr ⟨other, path⟩⟩

/-! ### The answers of the patch -/

def Cached (f : Cfg β) (resumes : List β) (cache : Cache β) : Prop :=
  ∀ entry ∈ cache, search f resumes entry.1 = some entry.2

theorem test_search (found : search f resumes avoid = some seen) :
    seen[blockId f target]? = some (resumes.any (originalReachableWithout f · target avoid)) := by
  obtain ⟨seen', found', size, sees⟩ := search_spec f resumes avoid
  rw [found] at found'
  cases found'
  have inside : blockId f target < seen.length := size ▸ blockId_lt f target
  rw [List.getElem?_eq_getElem inside, Option.some.injEq, Bool.eq_iff_iff, any_original_iff, ← sees,
    Marked, List.getElem?_eq_getElem inside, Option.some.injEq]

theorem reachableWithout_spec {cache : Cache β} (cached : Cached f resumes cache)
    (target avoid : β) :
    ∃ cache', reachableWithout f resumes cache target avoid =
        some (resumes.any (originalReachableWithout f · target avoid), cache') ∧
      Cached f resumes cache' := by
  rw [reachableWithout]
  by_cases same : target = avoid
  · subst same
    have never : resumes.any (originalReachableWithout f · target target) = false := by
      rw [Bool.eq_false_iff, ne_eq, any_original_iff]
      exact not_reaches_self
    exact ⟨cache, by rw [if_pos rfl, never], cached⟩
  rw [if_neg same]
  -- A result that is kept was found by a search for the same excluded block.
  match kept : cache.find? (·.1 = avoid) with
  | some entry =>
    have isAvoid : entry.1 = avoid := by simpa using List.find?_some kept
    have found := cached entry (List.mem_of_find?_eq_some kept)
    rw [isAvoid] at found
    exact ⟨cache, by simp only [kept, test_search found, Option.map_some], cached⟩
  | none =>
    obtain ⟨seen, found, -⟩ := search_spec f resumes avoid
    refine ⟨cache ++ [(avoid, seen)], ?_, ?_⟩
    · simp only [kept, found, test_search found, Option.map_some]
    · intro entry member
      rcases List.mem_append.mp member with old | last
      · exact cached entry old
      · rw [List.mem_singleton.mp last]
        exact found

theorem answers_eq {cache : Cache β} (cached : Cached f resumes cache) (questions : List (β × β)) :
    answers f resumes cache questions =
      some (questions.map fun q => resumes.any (originalReachableWithout f · q.1 q.2)) := by
  induction questions generalizing cache with
  | nil => rfl
  | cons question questions ih =>
    obtain ⟨target, avoid⟩ := question
    obtain ⟨cache', answered, cached'⟩ := reachableWithout_spec cached target avoid
    rw [answers, answered]
    dsimp only
    rw [ih cached']
    rfl

/-- Every sequence of questions gets the answers that the original search gives, and these say
whether a root reaches the target without the excluded block. The numbers of the blocks are
those below their count. -/
theorem answers_original (f : Cfg β) (resumes : List β) (questions : List (β × β)) :
    answers f resumes [] questions =
      some (questions.map fun q => resumes.any (originalReachableWithout f · q.1 q.2)) ∧
    (∀ target avoid, resumes.any (originalReachableWithout f · target avoid) = true ↔
      f.Reaches resumes target avoid) ∧
    (∀ b, blockId f b < f.blocks.length) ∧ Function.Injective (blockId f) ∧
    (∀ i < f.blocks.length, ∃ b, blockId f b = i) :=
  ⟨answers_eq (fun _ member => by cases member) questions, fun _ _ => any_original_iff,
    blockId_lt f, blockId_injective f, fun _ inside => exists_blockId f inside⟩

end LashOs.Compiler
