import LashOs.Memory.Pages

/-!
# Failing `munmap` and moving `mremap`

`munmap` can only fail in the middle of its loop if its range is strictly inside a mapping.
No other mapping then meets the range, so nothing has been changed yet. `mremap` ignores such
a failure when it moves a range.
-/
namespace LashOs.Memory

open Base

variable {s s' : Arena} {start end_ : Nat}

/-- A range is strictly inside a mapping, so that both ends of the mapping remain. -/
def Mapping.Encloses (m : Mapping) (start end_ : Nat) : Prop :=
  m.base < start ∧ end_ < m.base + m.size

def NoTail (callocs : List Bool) : Prop := callocs.head? ≠ some true

instance (callocs : List Bool) : Decidable (NoTail callocs) :=
  inferInstanceAs (Decidable (_ ≠ _))

theorem munmapLoop.keep_eq_some {kept items' : List Mapping} {table : SharedTable Block}
    {result : Except Errno Unit}
    {out : Option (List Mapping × SharedTable Block × Except Errno Unit)}
    (went : munmapLoop.keep kept out = some (items', table, result)) :
    ∃ rest, out = some (rest, table, result) ∧ items' = kept ++ rest := by
  cases out with
  | none => cases went
  | some out =>
    obtain ⟨rest, table, result⟩ := out
    cases went
    exact ⟨rest, rfl, rfl⟩

/-- A loop that fails has not changed anything. -/
theorem munmapLoop_error (items : List Mapping)
    (allocations : SharedTable Block) (callocs : List Bool)
    (bounded : ∀ m ∈ items, m.base + m.size < 2 ^ 64) (disjoint : items.Pairwise Mapping.Disjoint)
    {items' : List Mapping} {allocations' : SharedTable Block} {error : Errno}
    (ran : munmapLoop start end_ items allocations callocs =
      some (items', allocations', .error error)) :
    items' = items ∧ allocations' = allocations ∧ NoTail callocs ∧
      ∃ m ∈ items, m.Encloses start end_ := by
  induction items generalizing allocations callocs items' with
  | nil => simp [munmapLoop] at ran
  | cons item rest ih =>
    have limit : (item.base + item.size) % 2 ^ 64 = item.base + item.size :=
      Nat.mod_eq_of_lt (bounded item (by simp))
    have smaller : ∀ m ∈ rest, m.base + m.size < 2 ^ 64 :=
      fun m member => bounded m (List.mem_cons_of_mem _ member)
    obtain ⟨apart, others⟩ := List.pairwise_cons.mp disjoint
    -- If the loop fails further on, the item did not meet the range.
    have untouched : ∀ {allocations callocs rest'},
        munmapLoop start end_ rest allocations callocs = some (rest', allocations', .error error) →
        end_ ≤ item.base ∨ item.base + item.size ≤ start := by
      intro allocations callocs rest' later
      obtain ⟨-, -, -, m, member, low, high⟩ := ih allocations callocs smaller others later
      have between := apart m member
      unfold Mapping.Disjoint at between
      omega
    simp only [munmapLoop, limit] at ran
    split at ran
    next away =>
      obtain ⟨rest', later, rfl⟩ := munmapLoop.keep_eq_some ran
      obtain ⟨rfl, same, failed, m, member, encloses⟩ := ih allocations callocs smaller others later
      exact ⟨rfl, same, failed, m, List.mem_cons_of_mem _ member, encloses⟩
    next touched =>
      split at ran
      · split at ran
        next table released => exact absurd (untouched ran) (by omega)
        · cases ran
      next notWhole =>
        split at ran
        next middle =>
          split at ran
          next callocs =>
            split at ran
            next table retained =>
              obtain ⟨rest', later, -⟩ := munmapLoop.keep_eq_some ran
              exact absurd (untouched later) (by omega)
            · cases ran
          next failed =>
            simp only [Option.some.injEq, Prod.mk.injEq] at ran
            obtain ⟨rfl, rfl, -⟩ := ran
            refine ⟨rfl, rfl, fun succeeds => ?_, item, by simp, middle⟩
            obtain ⟨tail, rfl⟩ := List.head?_eq_some_iff.mp succeeds
            exact failed tail rfl
        next notMiddle =>
          split at ran
          all_goals
            obtain ⟨rest', later, -⟩ := munmapLoop.keep_eq_some ran
            exact absurd (untouched later) (by omega)

theorem munmapLoop_enclosed (nonempty : start < end_) (items : List Mapping)
    (allocations : SharedTable Block) (callocs : List Bool) (failed : NoTail callocs)
    (bounded : ∀ m ∈ items, m.base + m.size < 2 ^ 64) (disjoint : items.Pairwise Mapping.Disjoint)
    {m : Mapping} (member : m ∈ items) (encloses : m.Encloses start end_) :
    ∃ items' allocations', munmapLoop start end_ items allocations callocs =
      some (items', allocations', .error .ENOMEM) := by
  induction items with
  | nil => cases member
  | cons item rest ih =>
    have limit : (item.base + item.size) % 2 ^ 64 = item.base + item.size :=
      Nat.mod_eq_of_lt (bounded item (by simp))
    obtain ⟨apart, others⟩ := List.pairwise_cons.mp disjoint
    obtain ⟨low, high⟩ := encloses
    simp only [munmapLoop, limit]
    rcases List.mem_cons.mp member with rfl | later
    · -- The mapping itself: every other case of the loop is about a range that reaches out.
      rw [if_neg (by omega), if_neg (by omega), if_pos (by omega)]
      split
      next callocs => exact absurd rfl failed
      · exact ⟨_, _, rfl⟩
    · have between := apart m later
      unfold Mapping.Disjoint at between
      rw [if_pos (by omega)]
      obtain ⟨items', allocations', ran⟩ :=
        ih (fun n member => bounded n (List.mem_cons_of_mem _ member)) others later
      exact ⟨item :: items', allocations', by rw [ran]; rfl⟩

/-! ### `munmap` -/

/-- The arguments that `munmap` refuses. -/
def Refused (address length : Nat) : Prop :=
  length = 0 ∨ address % 4096 ≠ 0 ∨ length > 2 ^ 64 - 1 - 4095 ∨
    pageRound length > 2 ^ 64 - 1 - address

theorem munmap_error (valid : s.Valid) {address length : Nat} {callocs : List Bool} {error : Errno}
    (failed : munmap s address length callocs = some (s', .error error)) :
    s' = s ∧ (Refused address length ∨
      NoTail callocs ∧ ∃ m ∈ s.mappings, m.Encloses address (address + pageRound length)) := by
  unfold munmap at failed
  split at failed
  next refused =>
    simp only [Option.some.injEq, Prod.mk.injEq] at failed
    exact ⟨failed.1.symm, .inl refused⟩
  · split at failed
    next mappings allocations result ran =>
      simp only [Option.some.injEq, Prod.mk.injEq] at failed
      obtain ⟨rfl, rfl⟩ := failed
      obtain ⟨rfl, rfl, reason⟩ := munmapLoop_error s.mappings s.allocations callocs
        (fun m member => valid.limit_lt member) valid.disjoint ran
      exact ⟨rfl, .inr reason⟩
    · cases failed

theorem munmap_enclosed (valid : s.Valid) (start size : Nat) {callocs : List Bool} {m : Mapping}
    (aligned : start % 4096 = 0) (sizeAligned : size % 4096 = 0) (positive : 0 < size)
    (member : m ∈ s.mappings) (encloses : m.Encloses start (start + size))
    (failed : NoTail callocs) : ∃ s', munmap s start size callocs = some (s', .error .ENOMEM) := by
  have bound := Memory.Valid.limit_lt valid member
  have high := encloses.2
  have same : pageRound size = size := pageRound_aligned sizeAligned (by omega)
  obtain ⟨mappings, allocations, ran⟩ := munmapLoop_enclosed (by omega) s.mappings s.allocations
    callocs failed (fun m member => valid.limit_lt member) valid.disjoint member encloses
  refine ⟨{ s with mappings, allocations }, ?_⟩
  unfold munmap
  rw [if_neg (by omega), same, ran]

/-- From every reachable state on, a `munmap` that fails leaves the mappings, the allocations
with their counts and the memory as they were. -/
theorem failed_munmap_changes_nothing (bytes : Nat → UInt8) (calls : List Call) :
    ∃ s, runPartial Arena.step (Arena.start bytes) calls = some s ∧
      ∀ (address length : UInt64) (callocs : List Bool) (s' : Arena) (error : Errno),
        munmap s address.toNat length.toNat callocs = some (s', .error error) →
        s' = s ∧ s'.pages = s.pages := by
  obtain ⟨s, ran, valid⟩ := Arena.run_valid bytes calls
  refine ⟨s, ran, ?_⟩
  intro address length callocs s' error failed
  obtain ⟨rfl, -⟩ := munmap_error valid failed
  exact ⟨rfl, rfl⟩

/-- An anonymous mapping of three pages, in a block at the first page. -/
def threePages : Call := .mmap 12288 3 0x22 0 ⟨true, some 1, some 4096, []⟩

/-- Without memory for a tail the middle page stays. -/
theorem middle_page_stays : ∃ s s',
    runPartial Arena.step (Arena.start fun _ => 0) [threePages] = some s ∧
      munmap s 8192 4096 [] = some (s', .error .ENOMEM) ∧ s' = s := by
  obtain ⟨s, ran, same⟩ := failed_munmap_changes_nothing (fun _ => 0) [threePages]
  obtain ⟨_, ran', valid⟩ := Arena.run_valid (fun _ => 0) [threePages]
  cases ran
  cases ran'
  obtain ⟨s', failed⟩ := munmap_enclosed valid 8192 4096 rfl rfl (by decide)
    (List.mem_singleton_self _) ⟨by decide, by decide⟩ (by decide : NoTail [])
  exact ⟨_, s', rfl, failed, (same 8192 4096 [] s' .ENOMEM failed).1⟩

/-! ### `mremap` -/

/-- What a call of `mremap` is for: an error changes no page, shrinking removes the pages
behind the new size, and a move replaces the old range by one with the old contents. -/
def Resized (s s' : Arena) (start oldPages newPages : Nat) : Except Errno Nat → Prop
  | .error _ => s'.pages = s.pages
  | .ok out =>
    if newPages ≤ oldPages then
      out = start ∧ s'.pages = s.pages \ pagesOf (start + newPages) (oldPages - newPages)
    else
      s'.pages = s.pages \ pagesOf start oldPages ∪ pagesOf out newPages ∧
        (∀ i < oldPages, s'.bytes (out + i) = s.bytes (start + i)) ∧
        ∀ i, oldPages ≤ i → i < newPages → s'.bytes (out + i) = 0

theorem error_resized (s : Arena) (start oldPages newPages : Nat) (error : Errno) :
    Resized s s start oldPages newPages (.error error) := rfl

theorem mmap_anonymous (valid : s.Valid) {length : UInt64} {answers : Answers}
    {result : Except Errno Nat} (mapped : mmap s length 3 0x22 0 answers = some (s', result)) :
    s'.Valid ∧ match result with
      | .error _ => s' = s
      | .ok out => s'.bytes = fill s.bytes out (pageRound length.toNat) 0 ∧
          ∃ id, s'.mappings = ⟨out, pageRound length.toNat, id⟩ :: s.mappings := by
  constructor
  · obtain ⟨_, _, mapped', good⟩ := mmap_valid valid length 3 0x22 0 answers
    rw [mapped] at mapped'
    cases mapped'
    exact good
  unfold mmap at mapped
  split at mapped
  · cases mapped; rfl
  · rw [if_neg (by decide)] at mapped
    split at mapped
    · split at mapped
      · cases mapped
        exact ⟨rfl, _, rfl⟩
      · cases mapped; rfl
    · cases mapped; rfl

section Move

variable {s₁ : Arena} {oldPages newPages out id : Nat} {callocs : List Bool} {m : Mapping}

variable {result : Except Errno Unit}

/-- The pages after a move. The mapping `m` holds the old range, and `s₁` has the new one. -/
theorem move_pages_iff (s₁ : Arena) (valid : s₁.Valid)
    (added : s₁.mappings = ⟨out, newPages, id⟩ :: s.mappings) (aligned : start % 4096 = 0)
    (sizeAligned : oldPages % 4096 = 0) (positive : 0 < oldPages) (member : m ∈ s.mappings)
    (low : m.base ≤ start) (high : start + oldPages ≤ m.base + m.size)
    (unmapped : munmap s₁ start oldPages callocs = some (s', result)) :
    s'.pages = s.pages \ pagesOf start oldPages ∪ pagesOf out newPages ↔
      ¬ (NoTail callocs ∧ ∃ m ∈ s.mappings, m.Encloses start (start + oldPages)) := by
  have member₁ : m ∈ s₁.mappings := by rw [added]; exact List.mem_cons_of_mem _ member
  have bound := Memory.Valid.limit_lt valid member₁
  have same : pageRound oldPages = oldPages := pageRound_aligned sizeAligned (by omega)
  have apart : out + newPages ≤ m.base ∨ m.base + m.size ≤ out := by
    have disjoint := Memory.Valid.disjoint valid
    rw [added] at disjoint
    exact (List.pairwise_cons.mp disjoint).1 m member
  have pages : s₁.pages = s.pages ∪ pagesOf out newPages := by
    ext p
    simp only [Arena.pages, added, List.mem_cons, exists_eq_or_imp, Set.mem_ofPred_eq,
      Set.mem_union, pagesOf, Mapping.Covers]
    exact or_comm
  constructor
  · rintro exact_ ⟨failed, n, inside, encloses⟩
    -- The old range stays mapped: its first page is a witness.
    obtain ⟨s₂, failed⟩ := munmap_enclosed valid start oldPages aligned sizeAligned positive
      (by rw [added]; exact List.mem_cons_of_mem _ inside) encloses failed
    rw [failed] at unmapped
    cases unmapped
    obtain ⟨rfl, -⟩ := munmap_error valid failed
    have mapped : start / 4096 ∈ s'.pages := ⟨m, member₁, by omega, by omega⟩
    rw [exact_] at mapped
    simp only [Set.mem_union, Set.mem_sdiff, pagesOf, Set.mem_ofPred_eq] at mapped
    omega
  · intro succeeds
    cases result with
    | error error =>
      obtain ⟨-, refused | ⟨failed, n, inside, encloses⟩⟩ := munmap_error valid unmapped
      · unfold Refused at refused
        omega
      · rw [same] at encloses
        rw [added] at inside
        rcases List.mem_cons.mp inside with rfl | inside
        · -- The new mapping is elsewhere.
          obtain ⟨left, right⟩ := encloses
          simp only at left right
          omega
        · exact absurd ⟨failed, n, inside, encloses⟩ succeeds
    | ok =>
      rw [munmap_pages valid start oldPages callocs unmapped, pages, same, Set.union_sdiff_distrib]
      congr 1
      ext p
      simp only [Set.mem_sdiff, pagesOf, Set.mem_ofPred_eq]
      omega

theorem move_bytes (bytes : Nat → UInt8) (apart : start + oldPages ≤ out ∨ out + newPages ≤ start)
    {i : Nat} (inside : i < newPages) :
    copy (fill bytes out newPages 0) out start oldPages (out + i) =
      if i < oldPages then bytes (start + i) else 0 := by
  have back : start + (out + i - out) = start + i := by omega
  unfold copy fill
  simp only [back]
  split
  next old =>
    rw [if_neg (by omega), if_pos (by omega)]
  next fresh =>
    rw [if_pos (by omega), if_neg (by omega)]

theorem munmap_bytes (ran : munmap s start oldPages callocs = some (s', result)) :
    s'.bytes = s.bytes := by
  unfold munmap at ran
  split at ran
  · cases ran; rfl
  · split at ran
    · cases ran; rfl
    · cases ran

theorem shrink_resized (valid : s.Valid) (oldAligned : oldPages % 4096 = 0)
    (newAligned : newPages % 4096 = 0) (small : oldPages ≤ 2 ^ 64 - 1 - 4095)
    (shrinks : newPages ≤ oldPages)
    (unmapped : munmap s (start + newPages) (oldPages - newPages) callocs = some (s', result)) :
    Resized s s' start oldPages newPages (result.map fun _ => start) := by
  cases result with
  | error error =>
    obtain ⟨rfl, -⟩ := munmap_error valid unmapped
    rfl
  | ok =>
    have pages := munmap_pages valid (start + newPages) (oldPages - newPages) callocs unmapped
    have same : pageRound (oldPages - newPages) = oldPages - newPages :=
      pageRound_aligned (by omega) (by omega)
    rw [same] at pages
    simp [Resized, Except.map, shrinks, pages]

theorem equal_resized : Resized s s start oldPages oldPages (.ok start) := by
  have empty : pagesOf (start + oldPages) 0 = ∅ := by
    ext p
    simp only [pagesOf, Set.mem_ofPred_eq, Set.mem_empty_iff_false, iff_false]
    omega
  simp [Resized, empty]

/-- A move is right exactly if `munmap` removes the old range. -/
theorem move_resized_iff (valid : s₁.Valid) (zeroed : s₁.bytes = fill s.bytes out newPages 0)
    (added : s₁.mappings = ⟨out, newPages, id⟩ :: s.mappings)
    (aligned : start % 4096 = 0) (sizeAligned : oldPages % 4096 = 0) (positive : 0 < oldPages)
    (grows : oldPages < newPages)
    (member : m ∈ s.mappings) (low : m.base ≤ start) (high : start + oldPages ≤ m.base + m.size)
    (unmapped : munmap { s₁ with bytes := copy s₁.bytes out start oldPages } start oldPages callocs =
      some (s', result)) :
    Resized s s' start oldPages newPages (.ok out) ↔
      ¬ (NoTail callocs ∧ ∃ m ∈ s.mappings, m.Encloses start (start + oldPages)) := by
  have apart : out + newPages ≤ m.base ∨ m.base + m.size ≤ out := by
    have disjoint := Memory.Valid.disjoint valid
    rw [added] at disjoint
    exact (List.pairwise_cons.mp disjoint).1 m member
  have contents : ∀ i < newPages, s'.bytes (out + i) =
      if i < oldPages then s.bytes (start + i) else 0 := by
    intro i inside
    rw [munmap_bytes unmapped, zeroed]
    exact move_bytes s.bytes (by omega) inside
  have old : ∀ i < oldPages, s'.bytes (out + i) = s.bytes (start + i) := by
    intro i inside
    rw [contents i (by omega), if_pos inside]
  have zero : ∀ i, oldPages ≤ i → i < newPages → s'.bytes (out + i) = 0 := by
    intro i behind inside
    rw [contents i inside, if_neg (by omega)]
  rw [← move_pages_iff (s := s) { s₁ with bytes := copy s₁.bytes out start oldPages } valid added
    aligned sizeAligned positive member low high unmapped]
  simp only [Resized, Nat.not_le.mpr grows, if_false]
  exact ⟨fun resized => resized.1, fun pages => ⟨pages, old, zero⟩⟩

end Move

/-- The three allocations that `mmap` makes for some bytes succeed. -/
structure Answers.Succeed (answers : Answers) (s : Arena) (length : Nat) : Prop where
  item : answers.item = true
  allocation : (s.callocAllocation answers.allocation).isSome = true
  memory : (s.malloc (pageRound length + 4095) answers.memory).isSome = true

theorem mmap_anonymous_iff {length : UInt64} {answers : Answers} (positive : length.toNat ≠ 0)
    (small : length.toNat ≤ 2 ^ 64 - 1 - 8190) {result : Except Errno Nat}
    (mapped : mmap s length 3 0x22 0 answers = some (s', result)) :
    (∃ out, result = .ok out) ↔ answers.Succeed s length.toNat := by
  unfold mmap at mapped
  rw [if_neg (by
    simp only [not_or, Nat.not_lt]
    exact ⟨positive, small, by decide, by decide⟩), if_neg (by decide)] at mapped
  split at mapped
  next id item got =>
    have allocation : (s.callocAllocation answers.allocation).isSome = true := by rw [got]; rfl
    split at mapped
    next memory allocated =>
      -- nothing is read, so that the mapping is made
      cases mapped
      exact iff_of_true ⟨_, rfl⟩ ⟨item, allocation, by rw [allocated]; rfl⟩
    next refused =>
      cases mapped
      refine iff_of_false (by simp) fun succeeds => ?_
      simpa [refused] using succeeds.memory
  next refused =>
    cases mapped
    refine iff_of_false (by simp) fun succeeds => ?_
    obtain ⟨id, got⟩ := Option.isSome_iff_exists.mp succeeds.allocation
    exact refused id succeeds.item got

/-- A move for which there is memory, of a range strictly inside a mapping, without memory for the
tail that `munmap` has to split off. -/
structure MovesWithoutTail (s : Arena) (address oldSize newSize : UInt64) (flags : UInt32)
    (answers : Answers) (callocs : List Bool) : Prop where
  mayMove : flags = 1
  aligned : address.toNat % 4096 = 0
  oldFits : 0 < oldSize.toNat ∧ oldSize.toNat ≤ 2 ^ 64 - 1 - 8190
  newFits : 0 < newSize.toNat ∧ newSize.toNat ≤ 2 ^ 64 - 1 - 8190
  grows : pageRound oldSize.toNat < pageRound newSize.toNat
  enclosed : ∃ m ∈ s.mappings, m.Encloses address.toNat (address.toNat + pageRound oldSize.toNat)
  allocated : answers.Succeed s newSize.toNat
  noTail : NoTail callocs

theorem eq_mayMove {flags : UInt32} (known : flags &&& ~~~1 = 0) (moves : flags &&& 1 ≠ 0) :
    flags = 1 := by
  have high : flags.toNat / 2 = 0 := by
    have zero : flags.toNat &&& (2 ^ 32 - 2) = 0 := by
      simpa [UInt32.toNat_and] using congrArg UInt32.toNat known
    have halved := congrArg (· / 2) zero
    have small : flags.toNat / 2 < 2 ^ 31 := by
      have := flags.toNat_lt
      omega
    rwa [Nat.and_div_two, show (2 ^ 32 - 2) / 2 = 2 ^ 31 - 1 from rfl,
      Nat.and_two_pow_sub_one_eq_mod, Nat.mod_eq_of_lt small] at halved
  have low : flags.toNat % 2 ≠ 0 := by
    intro even
    apply moves
    apply UInt32.toNat_inj.mp
    rw [UInt32.toNat_and]
    exact (Nat.and_one_is_mod _).trans even
  apply UInt32.toNat_inj.mp
  simp only [UInt32.reduceToNat]
  omega

theorem mremap_iff (valid : s.Valid) (address oldSize newSize : UInt64) (flags : UInt32)
    (answers : Answers) (callocs : List Bool) {result : Except Errno Nat}
    (called : mremap s address oldSize newSize flags answers callocs = some (s', result)) :
    Resized s s' address.toNat (pageRound oldSize.toNat) (pageRound newSize.toNat) result ↔
      ¬ MovesWithoutTail s address oldSize newSize flags answers callocs := by
  unfold mremap at called
  simp only at called
  split at called
  next unknown =>
    cases called
    refine iff_of_true (error_resized ..) fun moves => unknown ?_
    rw [moves.mayMove]
    decide
  next known =>
  split at called
  next refused =>
    cases called
    refine iff_of_true (error_resized ..) fun moves => ?_
    obtain ⟨-, aligned, old, new, -⟩ := moves
    omega
  next accepted =>
  simp only [not_or, Nat.not_lt, ne_eq, not_not] at accepted known
  obtain ⟨aligned, oldPositive, newPositive, oldSmall, newSmall⟩ := accepted
  obtain ⟨oldAligned, oldLow, -⟩ := pageRound_spec (n := oldSize.toNat) (by omega)
  obtain ⟨newAligned, -, -⟩ := pageRound_spec (n := newSize.toNat) (by omega)
  split at called
  next missing =>
    cases called
    refine iff_of_true (error_resized ..) fun moves => ?_
    obtain ⟨m, member, low, high⟩ := moves.enclosed
    simp only [containing, Option.isNone_iff_eq_none, List.find?_eq_none, decide_eq_true_eq]
      at missing
    exact missing m member ⟨by omega, by omega, by omega⟩
  next found =>
  obtain ⟨m, member, low, above, fits⟩ : ∃ m ∈ s.mappings, m.base ≤ address.toNat ∧
      address.toNat - m.base < m.size ∧
      pageRound oldSize.toNat ≤ m.size - (address.toNat - m.base) := by
    simpa [containing, List.find?_isSome] using found
  have bound := Memory.Valid.limit_lt valid member
  split at called
  next shrinks =>
    -- In place the result of `munmap` is passed on.
    refine iff_of_true ?_ fun moves => absurd moves.grows (Nat.not_lt.mpr shrinks)
    split at called
    next smaller =>
      rw [Nat.mod_eq_of_lt (by omega)] at called
      split at called
      next s₁ error failed =>
        cases called
        exact shrink_resized valid oldAligned newAligned (by omega) shrinks failed
      next s₁ unmapped =>
        cases called
        exact shrink_resized valid oldAligned newAligned (by omega) shrinks unmapped
      · cases called
    next equal =>
      cases called
      have same : pageRound newSize.toNat = pageRound oldSize.toNat := by omega
      rw [same]
      exact equal_resized
  next grows =>
    split at called
    next stays =>
      cases called
      refine iff_of_true (error_resized ..) fun moves => ?_
      rw [moves.mayMove] at stays
      exact absurd stays (by decide)
    next moves =>
    split at called
    next s₁ out mapped =>
      obtain ⟨good, zeroed, id, added⟩ := mmap_anonymous valid mapped
      have allocated := (mmap_anonymous_iff newPositive newSmall mapped).mp ⟨out, rfl⟩
      split at called
      next s₂ ignored unmapped =>
        cases called
        rw [move_resized_iff good zeroed added aligned oldAligned (by omega) (by omega) member low
          (by omega) unmapped, not_iff_not]
        constructor
        · rintro ⟨noTail, enclosed⟩
          exact ⟨eq_mayMove known moves, aligned, ⟨by omega, oldSmall⟩, ⟨by omega, newSmall⟩,
            by omega, enclosed, allocated, noTail⟩
        · exact fun moves => ⟨moves.noTail, moves.enclosed⟩
      · cases called
    next failed =>
      have changed := (mmap_anonymous valid called).2
      have allocated := mmap_anonymous_iff newPositive newSmall called
      rcases result with error | out
      · obtain rfl : s' = s := changed
        refine iff_of_true (error_resized ..) fun moves => ?_
        obtain ⟨out, impossible⟩ := allocated.mpr moves.allocated
        cases impossible
      · exact absurd called (failed s' out)

/-- From every reachable state on, `mremap` does what it is for, except for one case: a move
whose old range is strictly inside a mapping when there is no memory for the tail. -/
theorem mremap_resizes_iff (bytes : Nat → UInt8) (calls : List Call) :
    ∃ s, runPartial Arena.step (Arena.start bytes) calls = some s ∧
      ∀ (address oldSize newSize : UInt64) (flags : UInt32) (answers : Answers)
        (callocs : List Bool), ∃ s' result,
        mremap s address oldSize newSize flags answers callocs = some (s', result) ∧
        (Resized s s' address.toNat (pageRound oldSize.toNat) (pageRound newSize.toNat) result ↔
          ¬ MovesWithoutTail s address oldSize newSize flags answers callocs) := by
  obtain ⟨s, ran, valid⟩ := Arena.run_valid bytes calls
  refine ⟨s, ran, ?_⟩
  intro address oldSize newSize flags answers callocs
  obtain ⟨s', result, called, -⟩ :=
    mremap_valid valid address oldSize newSize flags answers callocs
  exact ⟨s', result, called, mremap_iff valid address oldSize newSize flags answers callocs called⟩

/-- The middle page of three is moved to a block of two pages and stays mapped as well. -/
theorem moved_page_stays : ∃ s s',
    runPartial Arena.step (Arena.start fun _ => 0) [threePages] = some s ∧
      mremap s 8192 4096 8192 1 ⟨true, some 2, some 65536, []⟩ [] = some (s', .ok 65536) ∧
      s'.mappings = [⟨65536, 8192, 2⟩, ⟨4096, 12288, 1⟩] ∧
      ¬ Resized s s' 8192 4096 8192 (.ok 65536) := by
  obtain ⟨s, ran, valid⟩ := Arena.run_valid (fun _ => 0) [threePages]
  obtain ⟨s', result, called, -⟩ :=
    mremap_valid valid 8192 4096 8192 1 ⟨true, some 2, some 65536, []⟩ []
  have outcome : (mremap s 8192 4096 8192 1 ⟨true, some 2, some 65536, []⟩ []).map
      (fun out => (out.1.mappings, out.2)) =
        some ([⟨65536, 8192, 2⟩, ⟨4096, 12288, 1⟩], .ok 65536) := by
    cases ran
    decide +kernel
  rw [called] at outcome
  obtain ⟨mappings, rfl⟩ : s'.mappings = _ ∧ result = _ := by simpa using outcome
  refine ⟨s, s', ran, called, mappings, fun resized => ?_⟩
  refine (mremap_iff valid 8192 4096 8192 1 _ [] called).mp resized ?_
  cases ran
  exact ⟨rfl, by decide, by decide, by decide, by decide,
    ⟨⟨4096, 12288, 1⟩, List.mem_singleton_self _, by decide, by decide⟩,
    ⟨rfl, by decide +kernel, by decide +kernel⟩, by decide⟩

end LashOs.Memory
