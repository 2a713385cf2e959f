import LashOs.Base.Run
import LashOs.Memory.Mapping

/-!
# The set of mapped pages

The list of mappings represents a set of pages: the ranges are aligned, disjoint and inside
their allocations, and every allocation is kept as long as a range refers to it.
-/
namespace LashOs.Memory

open Base

namespace Mapping

def Aligned (m : Mapping) : Prop := m.base % 4096 = 0 ∧ m.size % 4096 = 0 ∧ 0 < m.size

def Disjoint (m n : Mapping) : Prop := m.base + m.size ≤ n.base ∨ n.base + n.size ≤ m.base

/-- A part of a mapping that shares its allocation. -/
def PartOf (part m : Mapping) : Prop :=
  part.allocation = m.allocation ∧ m.base ≤ part.base ∧ part.base + part.size ≤ m.base + m.size

def Inside (m : Mapping) (b : Block) : Prop :=
  b.memory ≤ m.base ∧ m.base + m.size ≤ b.memory + b.size

def Covers (m : Mapping) (p : Nat) : Prop := m.base ≤ 4096 * p ∧ 4096 * p < m.base + m.size

theorem Disjoint.symm {m n : Mapping} (apart : m.Disjoint n) : n.Disjoint m := Or.symm apart

theorem Disjoint.part {m n part : Mapping} (apart : m.Disjoint n) (sub : part.PartOf m) :
    part.Disjoint n := by
  unfold Disjoint PartOf at *
  omega

end Mapping

def Block.Apart (b c : Block) : Prop := b.memory + b.size ≤ c.memory ∨ c.memory + c.size ≤ b.memory

structure Valid (mappings : List Mapping) (allocations : SharedTable Block) : Prop where
  aligned : ∀ m ∈ mappings, m.Aligned
  disjoint : mappings.Pairwise Mapping.Disjoint
  inside : ∀ m ∈ mappings, ∃ b, allocations.value m.allocation = some b ∧ m.Inside b
  counted : allocations.Counted (mappings.map Mapping.allocation)
  bounded : ∀ id b, allocations.value id = some b → b.memory + b.size < 2 ^ 64
  apart : ∀ id id' b b', allocations.value id = some b → allocations.value id' = some b' →
    id ≠ id' → b.Apart b'

def Arena.Valid (s : Arena) : Prop := Memory.Valid s.mappings s.allocations

def Arena.pages (s : Arena) : Set Nat := { p | ∃ m ∈ s.mappings, m.Covers p }

/-- The pages of `[start, start + size)`. -/
def pagesOf (start size : Nat) : Set Nat := { p | start ≤ 4096 * p ∧ 4096 * p < start + size }

variable {mappings : List Mapping} {allocations : SharedTable Block} {m : Mapping}

theorem valid_start (bytes : Nat → UInt8) : (Arena.start bytes).Valid := by
  constructor
  · intro m member
    cases member
  · exact List.Pairwise.nil
  · intro m member
    cases member
  · exact SharedTable.counted_empty
  · intro id b found
    simp [Arena.start, SharedTable.value] at found
  · intro id id' b b' found
    simp [Arena.start, SharedTable.value] at found

theorem Valid.perm {others : List Mapping} (valid : Valid mappings allocations)
    (same : mappings.Perm others) : Valid others allocations := by
  constructor
  · exact fun m member => valid.aligned m (same.mem_iff.mpr member)
  · exact (same.pairwise_iff Mapping.Disjoint.symm).mp valid.disjoint
  · exact fun m member => valid.inside m (same.mem_iff.mpr member)
  · exact valid.counted.perm (same.map Mapping.allocation)
  · exact valid.bounded
  · exact valid.apart

theorem Valid.limit_lt (valid : Valid mappings allocations) (member : m ∈ mappings) :
    m.base + m.size < 2 ^ 64 := by
  obtain ⟨b, found, _, within⟩ := valid.inside m member
  exact Nat.lt_of_le_of_lt within (valid.bounded _ b found)

/-! ### What the calls do to the list -/

theorem Valid.drop (valid : Valid (m :: mappings) allocations) :
    ∃ allocations', allocations.release m.allocation = some allocations' ∧
      Valid mappings allocations' := by
  obtain ⟨allocations', released, counted, kept, old⟩ := valid.counted.release
  refine ⟨allocations', released, ?_⟩
  constructor
  · exact fun n member => valid.aligned n (List.mem_cons_of_mem _ member)
  · exact (List.pairwise_cons.mp valid.disjoint).2
  · intro n member
    obtain ⟨b, found, within⟩ := valid.inside n (List.mem_cons_of_mem _ member)
    exact ⟨b, (kept _ (List.mem_map_of_mem member)).trans found, within⟩
  · exact counted
  · exact fun id b found => valid.bounded id b (old id b found)
  · exact fun id id' b b' found found' =>
      valid.apart id id' b b' (old id b found) (old id' b' found')

theorem Valid.shrink (valid : Valid (m :: mappings) allocations) {part : Mapping}
    (sub : part.PartOf m) (aligned : part.Aligned) : Valid (part :: mappings) allocations := by
  obtain ⟨apart, rest⟩ := List.pairwise_cons.mp valid.disjoint
  constructor
  · rintro n (_ | ⟨_, member⟩)
    · exact aligned
    · exact valid.aligned n (List.mem_cons_of_mem _ member)
  · exact List.pairwise_cons.mpr ⟨fun n member => (apart n member).part sub, rest⟩
  · rintro n (_ | ⟨_, member⟩)
    · obtain ⟨b, found, low, high⟩ := valid.inside m (by simp)
      refine ⟨b, sub.1 ▸ found, ?_⟩
      unfold Mapping.PartOf Mapping.Inside at *
      omega
    · exact valid.inside n (List.mem_cons_of_mem _ member)
  · simpa [sub.1] using valid.counted
  · exact valid.bounded
  · exact valid.apart

theorem Valid.split (valid : Valid (m :: mappings) allocations) {head tail : Mapping}
    (headSub : head.PartOf m) (headAligned : head.Aligned)
    (tailSub : tail.PartOf m) (tailAligned : tail.Aligned) (between : head.Disjoint tail) :
    ∃ allocations', allocations.retain m.allocation = some allocations' ∧
      Valid (head :: tail :: mappings) allocations' := by
  have owned : m.allocation ∈ (m :: mappings).map Mapping.allocation := by simp
  obtain ⟨allocations', retained, counted, same⟩ := valid.counted.retain owned
  have headValid := valid.shrink headSub headAligned
  have tailValid := valid.shrink tailSub tailAligned
  refine ⟨allocations', retained, ?_⟩
  constructor
  · rintro n (_ | ⟨_, member⟩)
    · exact headAligned
    · exact tailValid.aligned n member
  · refine List.pairwise_cons.mpr ⟨?_, tailValid.disjoint⟩
    rintro n (_ | ⟨_, member⟩)
    · exact between
    · exact (List.pairwise_cons.mp headValid.disjoint).1 n member
  · rintro n (_ | ⟨_, member⟩)
    · simpa only [same] using headValid.inside head (by simp)
    · simpa only [same] using tailValid.inside n member
  · simpa [headSub.1, tailSub.1] using counted
  · intro id b found
    exact valid.bounded id b (same id ▸ found)
  · intro id id' b b' found found'
    exact valid.apart id id' b b' (same id ▸ found) (same id' ▸ found')

/-- A new range in a new block. -/
theorem Valid.add (valid : Valid mappings allocations) {b : Block}
    (fresh : allocations.lookup m.allocation = none) (aligned : m.Aligned) (inside : m.Inside b)
    (bounded : b.memory + b.size < 2 ^ 64)
    (clear : ∀ id c, allocations.value id = some c → b.Apart c) :
    Valid (m :: mappings) (allocations.create m.allocation b) := by
  -- The identifier of the new block was not in use.
  have here : (allocations.create m.allocation b).value m.allocation = some b := by
    simp [SharedTable.value, SharedTable.create]
  have elsewhere : ∀ id, id ≠ m.allocation →
      (allocations.create m.allocation b).value id = allocations.value id := by
    intro id other
    simp [SharedTable.value, SharedTable.create, AList.lookup_insert_ne other]
  have other : ∀ id c, allocations.value id = some c → id ≠ m.allocation := by
    intro id c found same
    rw [same, SharedTable.value, fresh] at found
    cases found
  constructor
  · rintro n (_ | ⟨_, member⟩)
    · exact aligned
    · exact valid.aligned n member
  · refine List.pairwise_cons.mpr ⟨fun n member => ?_, valid.disjoint⟩
    obtain ⟨c, found, within⟩ := valid.inside n member
    have apart := clear _ c found
    unfold Mapping.Disjoint Mapping.Inside Block.Apart at *
    omega
  · rintro n (_ | ⟨_, member⟩)
    · exact ⟨b, here, inside⟩
    · obtain ⟨c, found, within⟩ := valid.inside n member
      exact ⟨c, (elsewhere _ (other _ c found)).trans found, within⟩
  · exact valid.counted.create fresh b
  · intro id c found
    by_cases same : id = m.allocation
    · rw [same, here, Option.some.injEq] at found
      exact found ▸ bounded
    · exact valid.bounded id c (elsewhere id same ▸ found)
  · intro id id' c c' found found' distinct
    by_cases same : id = m.allocation
    · have other' : id' ≠ m.allocation := fun same' => distinct (same.trans same'.symm)
      rw [same, here, Option.some.injEq] at found
      exact found ▸ clear id' c' (elsewhere id' other' ▸ found')
    · rw [elsewhere id same] at found
      by_cases same' : id' = m.allocation
      · rw [same', here, Option.some.injEq] at found'
        exact found' ▸ Or.symm (clear id c found)
      · exact valid.apart id id' c c' found (elsewhere id' same' ▸ found') distinct

/-! ### `munmap` -/

theorem munmapLoop.keep_nil (out : Option (List Mapping × SharedTable Block × Except Errno Unit)) :
    munmapLoop.keep [] out = out := by
  cases out with
  | none => rfl
  | some out => rfl

/-- The parts of an item outside of a range that it contains. -/
def Mapping.before (item : Mapping) (start : Nat) : Mapping :=
  { item with size := start - item.base }

def Mapping.after (item : Mapping) (end_ : Nat) : Mapping :=
  { item with base := end_, size := item.base + item.size - end_ }

theorem Mapping.before_part (item : Mapping) (start : Nat) (low : item.base < start)
    (high : start < item.base + item.size) (aligned : item.Aligned) (cut : start % 4096 = 0) :
    (item.before start).PartOf item ∧ (item.before start).Aligned := by
  unfold Mapping.Aligned Mapping.PartOf Mapping.before at *
  simp only [true_and]
  omega

theorem Mapping.after_part (item : Mapping) (end_ : Nat) (low : item.base < end_)
    (high : end_ < item.base + item.size) (aligned : item.Aligned) (cut : end_ % 4096 = 0) :
    (item.after end_).PartOf item ∧ (item.after end_).Aligned := by
  unfold Mapping.Aligned Mapping.PartOf Mapping.after at *
  simp only [true_and]
  omega

/-- The loop keeps the invariant for the items it has passed and those before it. -/
theorem munmapLoop_valid (start end_ : Nat) (ordered : start ≤ end_)
    (startAligned : start % 4096 = 0) (endAligned : end_ % 4096 = 0) (items done : List Mapping)
    (allocations : SharedTable Block) (callocs : List Bool)
    (valid : Valid (items ++ done) allocations) :
    ∃ items' allocations' result,
      munmapLoop start end_ items allocations callocs = some (items', allocations', result) ∧
      Valid (items' ++ done) allocations' := by
  induction items generalizing done allocations callocs with
  | nil => exact ⟨[], allocations, .ok (), rfl, valid⟩
  | cons item rest ih =>
    have limit : (item.base + item.size) % 2 ^ 64 = item.base + item.size :=
      Nat.mod_eq_of_lt (valid.limit_lt (by simp))
    have aligned := valid.aligned item (by simp)
    -- Items that the loop passes join those before it.
    have pass : ∀ kept allocations callocs, Valid (kept ++ (rest ++ done)) allocations →
        ∃ items' allocations' result,
          munmapLoop.keep kept (munmapLoop start end_ rest allocations callocs) =
            some (items', allocations', result) ∧ Valid (items' ++ done) allocations' := by
      intro kept allocations callocs good
      obtain ⟨items', allocations', result, ran, good'⟩ :=
        ih (kept ++ done) allocations callocs (good.perm (List.perm_append_comm_assoc _ _ _))
      refine ⟨kept ++ items', allocations', result, by simp [ran, munmapLoop.keep], ?_⟩
      rw [List.append_assoc]
      exact good'.perm (List.perm_append_comm_assoc _ _ _)
    simp only [munmapLoop, limit]
    split
    · exact pass [item] allocations callocs valid
    next touched =>
      split
      · obtain ⟨allocations', released, good⟩ := valid.drop
        simp only [released]
        exact ih done allocations' callocs good
      next notWhole =>
        split
        next middle =>
          split
          next callocs =>
            obtain ⟨headPart, headAligned⟩ :=
              item.before_part start middle.1 (by omega) aligned startAligned
            obtain ⟨tailPart, tailAligned⟩ :=
              item.after_part end_ (by omega) middle.2 aligned endAligned
            have between : (item.before start).Disjoint (item.after end_) := by
              left
              simp only [Mapping.before, Mapping.after]
              omega
            obtain ⟨allocations', retained, good⟩ :=
              valid.split headPart headAligned tailPart tailAligned between
            simp only [retained]
            exact pass [item.before start, item.after end_] allocations' callocs good
          · exact ⟨item :: rest, allocations, .error .ENOMEM, rfl, valid⟩
        next notMiddle =>
          split
          next fromBase =>
            obtain ⟨sub, tailAligned⟩ :=
              item.after_part end_ (by omega) (by omega) aligned endAligned
            exact pass [item.after end_] allocations callocs (valid.shrink sub tailAligned)
          next inside =>
            obtain ⟨sub, headAligned⟩ :=
              item.before_part start (by omega) (by omega) aligned startAligned
            exact pass [item.before start] allocations callocs (valid.shrink sub headAligned)

/-- A loop that ends takes exactly the pages of the range away. -/
theorem munmapLoop_pages {start end_ : Nat} (ordered : start ≤ end_) (items : List Mapping)
    (allocations : SharedTable Block) (callocs : List Bool)
    (bounded : ∀ m ∈ items, m.base + m.size < 2 ^ 64) {items' : List Mapping}
    {allocations' : SharedTable Block}
    (ran : munmapLoop start end_ items allocations callocs = some (items', allocations', .ok ()))
    (p : Nat) :
    (∃ m ∈ items', m.Covers p) ↔
      (∃ m ∈ items, m.Covers p) ∧ ¬(start ≤ 4096 * p ∧ 4096 * p < end_) := by
  induction items generalizing allocations callocs items' allocations' with
  | nil =>
    simp only [munmapLoop, Option.some.injEq, Prod.mk.injEq] at ran
    simp [← ran.1]
  | cons item rest ih =>
    have limit : (item.base + item.size) % 2 ^ 64 = item.base + item.size :=
      Nat.mod_eq_of_lt (bounded item (by simp))
    have smaller : ∀ m ∈ rest, m.base + m.size < 2 ^ 64 :=
      fun m member => bounded m (List.mem_cons_of_mem _ member)
    -- The parts of the item that are kept cover its pages outside of the range.
    have pass : ∀ kept allocations callocs,
        ((∃ m ∈ kept, m.Covers p) ↔ item.Covers p ∧ ¬(start ≤ 4096 * p ∧ 4096 * p < end_)) →
        munmapLoop.keep kept (munmapLoop start end_ rest allocations callocs) =
          some (items', allocations', .ok ()) →
        ((∃ m ∈ items', m.Covers p) ↔
          (∃ m ∈ item :: rest, m.Covers p) ∧ ¬(start ≤ 4096 * p ∧ 4096 * p < end_)) := by
      intro kept allocations callocs outside went
      cases ended : munmapLoop start end_ rest allocations callocs with
      | none => simp [ended, munmapLoop.keep] at went
      | some out =>
        obtain ⟨rest', table, result⟩ := out
        simp only [ended, munmapLoop.keep, Option.some.injEq, Prod.mk.injEq] at went
        obtain ⟨rfl, rfl, rfl⟩ := went
        have others := ih allocations callocs smaller ended
        simp only [List.mem_append, List.mem_cons, or_and_right, exists_or, exists_eq_left,
          outside, others]
    simp only [munmapLoop, limit] at ran
    split at ran
    next apart =>
      apply pass [item] allocations callocs _ ran
      simp only [Mapping.Covers, List.mem_singleton, exists_eq_left]
      omega
    next touched =>
      split at ran
      next whole =>
        split at ran
        next table released =>
          apply pass [] table callocs _ (by rw [munmapLoop.keep_nil, ran])
          simp only [Mapping.Covers, List.not_mem_nil, false_and, exists_false, false_iff]
          omega
        · cases ran
      next notWhole =>
        split at ran
        next middle =>
          split at ran
          next callocs =>
            split at ran
            next table retained =>
              apply pass [item.before start, item.after end_] _ _ _ ran
              simp only [Mapping.Covers, Mapping.before, Mapping.after, List.mem_cons,
                List.not_mem_nil, or_false, exists_eq_or_imp, exists_eq_left]
              omega
            · cases ran
          · cases ran
        next notMiddle =>
          split at ran
          · apply pass [item.after end_] _ _ _ ran
            simp only [Mapping.Covers, Mapping.after, List.mem_singleton, exists_eq_left]
            omega
          · apply pass [item.before start] _ _ _ ran
            simp only [Mapping.Covers, Mapping.before, List.mem_singleton, exists_eq_left]
            omega

theorem pageRound_spec {n : Nat} (small : n ≤ 2 ^ 64 - 1 - 4095) :
    pageRound n % 4096 = 0 ∧ n ≤ pageRound n ∧ pageRound n < n + 4096 := by
  unfold pageRound
  omega

theorem pageRound_aligned {n : Nat} (aligned : n % 4096 = 0) (small : n ≤ 2 ^ 64 - 1 - 4095) :
    pageRound n = n := by
  obtain ⟨_, _, _⟩ := pageRound_spec small
  omega

variable {s : Arena}

theorem munmap_valid (valid : s.Valid) (address length : Nat) (callocs : List Bool) :
    ∃ s' result, munmap s address length callocs = some (s', result) ∧ s'.Valid := by
  unfold munmap
  split
  · exact ⟨s, _, rfl, valid⟩
  next accepted =>
    simp only [not_or, Nat.not_lt] at accepted
    obtain ⟨rounded, _⟩ := pageRound_spec (n := length) (by omega)
    have good : Memory.Valid (s.mappings ++ []) s.allocations := by
      rw [List.append_nil]
      exact valid
    obtain ⟨mappings, allocations, result, ran, good'⟩ :=
      munmapLoop_valid address (address + pageRound length) (by omega) (by omega) (by omega) _ _ _
        callocs good
    rw [List.append_nil] at good'
    simp only [ran]
    exact ⟨_, result, rfl, good'⟩

theorem munmap_pages {s s' : Arena} (valid : s.Valid) (address length : Nat) (callocs : List Bool)
    (success : munmap s address length callocs = some (s', .ok ())) :
    s'.pages = s.pages \ pagesOf address (pageRound length) := by
  unfold munmap at success
  split at success
  · cases success
  · split at success
    next mappings allocations result ran =>
      simp only [Option.some.injEq, Prod.mk.injEq] at success
      obtain ⟨rfl, rfl⟩ := success
      ext p
      exact munmapLoop_pages (by omega) s.mappings s.allocations callocs
        (fun m member => valid.limit_lt member) ran p
    · cases success

/-! ### The other calls -/

theorem Arena.malloc_spec {size memory : Nat} {answer : Option Nat}
    (got : s.malloc size answer = some memory) :
    memory + size < 2 ^ 64 ∧
      ∀ id c, s.allocations.value id = some c → (⟨memory, size⟩ : Block).Apart c := by
  simp only [Arena.malloc, Option.filter_eq_some_iff, Bool.and_eq_true, decide_eq_true_eq,
    List.all_eq_true] at got
  obtain ⟨_, ⟨_, bounded⟩, clear⟩ := got
  refine ⟨bounded, fun id c found => ?_⟩
  obtain ⟨shared, here, rfl⟩ := Option.map_eq_some_iff.mp found
  exact clear ⟨id, shared⟩ (AList.mem_lookup_iff.mp here)

theorem mapMemory_valid (valid : s.Valid) {length : Nat} (small : length ≤ 2 ^ 64 - 1 - 8190)
    (positive : 0 < length) (anonymous : Bool) {id memory : Nat}
    (reads : List (Except Errno (List UInt8))) (fresh : s.allocations.lookup id = none)
    (bounded : memory + (pageRound length + 4095) < 2 ^ 64)
    (clear : ∀ k c, s.allocations.value k = some c →
      (⟨memory, pageRound length + 4095⟩ : Block).Apart c) :
    ∃ s' result, mapMemory s length anonymous id memory reads = some (s', result) ∧ s'.Valid := by
  obtain ⟨sizeAligned, sizeLow, _⟩ := pageRound_spec (n := length) (by omega)
  obtain ⟨baseAligned, baseLow, baseHigh⟩ := pageRound_spec (n := memory) (by omega)
  have added : Memory.Valid (⟨pageRound memory, pageRound length, id⟩ :: s.mappings)
      (s.allocations.create id ⟨memory, pageRound length + 4095⟩) := by
    apply Valid.add valid fresh
    · exact ⟨baseAligned, sizeAligned, by simp only; omega⟩
    · exact ⟨baseLow, by simp only; omega⟩
    · exact bounded
    · exact clear
  unfold mapMemory
  simp only
  split
  next error failed =>
    -- The only reference of the new block is released.
    obtain ⟨allocations, released, good⟩ := added.drop
    simp only at released
    simp only [released]
    exact ⟨_, _, rfl, good⟩
  · exact ⟨_, _, rfl, added⟩

theorem mmap_valid (valid : s.Valid) (length : UInt64) (protection flags : UInt32) (offset : Int64)
    (answers : Answers) :
    ∃ s' result, mmap s length protection flags offset answers = some (s', result) ∧ s'.Valid := by
  unfold mmap
  split
  · exact ⟨s, _, rfl, valid⟩
  next accepted =>
    simp only [not_or, Nat.not_lt] at accepted
    split
    · exact ⟨s, _, rfl, valid⟩
    · split
      next id item got =>
        split
        next memory allocated =>
          obtain ⟨bounded, clear⟩ := Arena.malloc_spec allocated
          have fresh : s.allocations.lookup id = none := by
            simp only [Arena.callocAllocation, Option.filter_eq_some_iff, Bool.and_eq_true] at got
            simpa using got.2.2
          exact mapMemory_valid valid accepted.2.1 (by omega) _ answers.reads fresh bounded clear
        · exact ⟨s, _, rfl, valid⟩
      · exact ⟨s, _, rfl, valid⟩

theorem mremap_valid (valid : s.Valid) (address oldSize newSize : UInt64) (flags : UInt32)
    (answers : Answers) (callocs : List Bool) :
    ∃ s' result, mremap s address oldSize newSize flags answers callocs = some (s', result) ∧
      s'.Valid := by
  unfold mremap
  simp only
  split
  · exact ⟨s, _, rfl, valid⟩
  · split
    · exact ⟨s, _, rfl, valid⟩
    · split
      · exact ⟨s, _, rfl, valid⟩
      · split
        · split
          · obtain ⟨s', result, ran, good⟩ := munmap_valid valid _ _ callocs
            rw [ran]
            cases result with
            | error error => exact ⟨s', _, rfl, good⟩
            | ok => exact ⟨s', _, rfl, good⟩
          · exact ⟨s, _, rfl, valid⟩
        · split
          · exact ⟨s, _, rfl, valid⟩
          · obtain ⟨s', result, ran, good⟩ := mmap_valid valid newSize 3 0x22 0 answers
            rw [ran]
            cases result with
            | error error => exact ⟨s', _, rfl, good⟩
            | ok out =>
              -- The copy changes memory only.
              obtain ⟨s'', ignored, unmapped, good'⟩ := munmap_valid
                (s := { s' with bytes := copy s'.bytes out address.toNat (pageRound oldSize.toNat) })
                good address.toNat (pageRound oldSize.toNat) callocs
              simp only [unmapped]
              exact ⟨s'', _, rfl, good'⟩

/-! ### `mincore` -/

/-- The pages of the bytes of `[address, address + length)`. -/
def touched (address length : Nat) : Set Nat :=
  { p | ∃ a, address ≤ a ∧ a < address + length ∧ a / 4096 = p }

theorem Arena.Valid.page_bound (valid : s.Valid) {p : Nat} (mapped : p ∈ s.pages) :
    4096 * p + 4096 < 2 ^ 64 := by
  obtain ⟨m, member, low, high⟩ := mapped
  have aligned := Memory.Valid.aligned valid m member
  have bound := Memory.Valid.limit_lt valid member
  unfold Mapping.Aligned at aligned
  omega

theorem containing_page (valid : s.Valid) (p : Nat) :
    (containing s (4096 * p) 4096).isSome = true ↔ p ∈ s.pages := by
  simp only [containing, List.find?_isSome, decide_eq_true_eq]
  constructor
  · rintro ⟨m, member, low, high, _⟩
    exact ⟨m, member, low, by omega⟩
  · rintro ⟨m, member, low, high⟩
    have aligned := Memory.Valid.aligned valid m member
    unfold Mapping.Aligned at aligned
    exact ⟨m, member, low, by omega, by omega⟩

theorem mincoreLoop_iff (valid : s.Valid) {start : Nat} (aligned : start % 4096 = 0)
    (i left : Nat) : mincoreLoop s start i left = true ↔
      ∀ j, i ≤ j → j < i + left → (start + j * 4096) % 2 ^ 64 / 4096 ∈ s.pages := by
  induction left generalizing i with
  | zero =>
    simp only [mincoreLoop, true_iff]
    intro j low high
    omega
  | succ left ih =>
    have page : (start + i * 4096) % 2 ^ 64 = 4096 * ((start + i * 4096) % 2 ^ 64 / 4096) := by
      omega
    rw [mincoreLoop, Bool.and_eq_true, ih (i + 1), page, containing_page valid]
    constructor
    · rintro ⟨first, rest⟩ j low high
      by_cases here : j = i
      · rw [here]
        exact first
      · exact rest j (by omega) (by omega)
    · intro all
      exact ⟨all i (by omega) (by omega), fun j low high => all j (by omega) (by omega)⟩

theorem lt_pageCount (j length : Nat) : j < pageCount length ↔ j * 4096 < length := by
  unfold pageCount
  split <;> omega

/-- `mincore` succeeds for an aligned address if every page of the range is mapped. A range
that leaves the address space includes its last page, which never is. -/
theorem mincore_iff (valid : s.Valid) (address length vector : UInt64) :
    (mincore s address length vector).2 = .ok () ↔
      address.toNat % 4096 = 0 ∧ touched address.toNat length.toNat ⊆ s.pages := by
  have small := address.toNat_lt
  have accepts : (mincore s address length vector).2 = .ok () ↔ address.toNat % 4096 = 0 ∧
      mincoreLoop s address.toNat 0 (pageCount length.toNat) = true := by
    unfold mincore
    split
    · simp_all
    · split <;> simp_all
  rw [accepts]
  apply and_congr_right
  intro aligned
  rw [mincoreLoop_iff valid aligned]
  simp only [Nat.zero_add, lt_pageCount, Nat.zero_le, true_implies]
  generalize address.toNat = start at *
  constructor
  · rintro all p ⟨a, low, high, rfl⟩
    have mapped := all ((a - start) / 4096) (by omega)
    by_cases inside : a < 2 ^ 64
    · have same : (start + (a - start) / 4096 * 4096) % 2 ^ 64 / 4096 = a / 4096 := by omega
      exact same ▸ mapped
    · -- The last page of the address space is in the range.
      have last := all ((2 ^ 64 - 4096 - start) / 4096) (by omega)
      have bound := valid.page_bound last
      omega
  · intro all j inside
    have mapped : (start + j * 4096) / 4096 ∈ s.pages :=
      all ⟨start + j * 4096, by omega, by omega, rfl⟩
    have bound := valid.page_bound mapped
    rwa [Nat.mod_eq_of_lt (by omega)]

/-! ### Sequences of calls -/

theorem Arena.step_valid (valid : s.Valid) (call : Call) :
    ∃ s', s.step call = some s' ∧ s'.Valid := by
  cases call with
  | mmap length protection flags offset answers =>
    obtain ⟨s', result, ran, good⟩ := mmap_valid valid length protection flags offset answers
    exact ⟨s', by simp [Arena.step, ran], good⟩
  | munmap address length callocs =>
    obtain ⟨s', result, ran, good⟩ := munmap_valid valid address.toNat length.toNat callocs
    exact ⟨s', by simp [Arena.step, ran], good⟩
  | mremap address oldSize newSize flags answers callocs =>
    obtain ⟨s', result, ran, good⟩ :=
      mremap_valid valid address oldSize newSize flags answers callocs
    exact ⟨s', by simp [Arena.step, ran], good⟩
  | mincore address length vector =>
    refine ⟨(Memory.mincore s address length vector).1, rfl, ?_⟩
    unfold Memory.mincore
    split
    · exact valid
    · split
      · exact valid
      · exact valid

theorem Arena.run_valid (bytes : Nat → UInt8) (calls : List Call) :
    ∃ s, runPartial Arena.step (Arena.start bytes) calls = some s ∧ s.Valid :=
  runPartial_invariant Arena.step (fun _ => True) Arena.Valid
    (fun _ call _ good => Arena.step_valid good call) calls (fun _ _ => trivial)
    (Arena.start bytes) (valid_start bytes)

/-- Whatever the calls, their arguments and the allocator's answers: no freed allocation is
touched, the list stays valid, a successful `munmap` removes exactly the pages of its range,
and `mincore` succeeds exactly for aligned ranges of mapped pages. For an address that is not
aligned its error is `EINVAL`. -/
theorem mappings_refine_pages (bytes : Nat → UInt8) (calls : List Call) :
    ∃ s, runPartial Arena.step (Arena.start bytes) calls = some s ∧ s.Valid ∧
      (∀ (address length : UInt64) (callocs : List Bool) (s' : Arena),
        munmap s address.toNat length.toNat callocs = some (s', .ok ()) →
        s'.pages = s.pages \ pagesOf address.toNat (pageRound length.toNat)) ∧
      (∀ address length vector : UInt64, (mincore s address length vector).2 = .ok () ↔
        address.toNat % 4096 = 0 ∧ touched address.toNat length.toNat ⊆ s.pages) ∧
      ∀ address length vector : UInt64, address.toNat % 4096 ≠ 0 →
        mincore s address length vector = (s, .error .EINVAL) := by
  obtain ⟨s, ran, valid⟩ := Arena.run_valid bytes calls
  refine ⟨s, ran, valid, ?_, fun address length vector => mincore_iff valid address length vector,
    fun address length vector unaligned => if_pos unaligned⟩
  intro address length callocs s' success
  exact munmap_pages valid address.toNat length.toNat callocs success

/-- An anonymous mapping of one page, in a block at the first page. -/
def onePage : Call := .mmap 4096 3 0x22 0 ⟨true, some 1, some 4096, []⟩

/-- A mapped byte at an address that is not aligned. -/
theorem mincore_refuses_unaligned :
    ∃ s, runPartial Arena.step (Arena.start fun _ => 0) [onePage] = some s ∧
      touched 4097 1 ⊆ s.pages ∧ (mincore s 4097 1 0).2 = .error .EINVAL := by
  refine ⟨_, rfl, ?_, rfl⟩
  rintro p ⟨a, low, high, rfl⟩
  exact ⟨⟨4096, 4096, 1⟩, List.mem_singleton_self _, by simp only; omega, by simp only; omega⟩

end LashOs.Memory
