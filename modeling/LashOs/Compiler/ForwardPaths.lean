import LashOs.Base.Meter
import LashOs.Compiler.LargePaths

/-!
# The boundaries bound every forward path

The budgets of the pass are joined over predecessors, those of a single path are not. The
joined ones simulate them: at every point of a forward path the budgets of the path are at most
those of the pass (`Gauge.scan_within` for a block, `Visited` for the blocks that were visited).
The joined ones never pass their limits, since a full budget starts again before the next
counted instruction.
-/

namespace LashOs.Compiler

open Base

variable {β : Type} {symbols : List Symbol}

/-! ### What is counted -/

/-- An instruction that counts: neither skipped nor a boundary. -/
def counted (i : Instruction β) : Bool := !i.skipped && !boundary i

def conditionPoint (i : Instruction β) : Bool := counted i && i.condition

theorem boundary_of_resets {i : Instruction β} (starts : resets symbols i = true) :
    boundary i = true := by
  unfold resets at starts
  unfold boundary
  cases call : i.callBase with
  | none =>
    rw [call] at starts
    cases starts
  | some site =>
    rw [call] at starts
    simp only [getFunction, Bool.or_eq_true, Bool.and_eq_true, decide_eq_true_eq] at starts ⊢
    rcases starts with managed | ⟨direct, named⟩
    · simp [managed]
    · obtain ⟨callee, resolved⟩ := Option.isSome_iff_exists.mp direct
      rw [resolved] at named ⊢
      -- `getFunction` gives the symbol itself or nothing.
      grind

theorem not_counted_of_skipped {i : Instruction β} (passed : i.skipped = true) :
    counted i = false := by
  simp [counted, passed]

/-! ### One block -/

instance : LE Budget := ⟨fun a b => a.span ≤ b.span ∧ a.branches ≤ b.branches⟩

def Budget.Fits (budget : Budget) : Prop := budget ≤ ⟨256, 4⟩

/-- One of the two budgets, with what it counts on a path. -/
structure Gauge (value : Budget → Nat) (limit : Nat) (weighs : Instruction β → Bool) : Prop where
  mono : ∀ a b : Budget, a ≤ b → value a ≤ value b
  top : value ⟨256, 4⟩ = limit
  zero : value .zero = 0
  counts : ∀ i, weighs i = true → counted i = true
  gains : ∀ budget i, value budget + (weighs i).toNat ≤ value (budget.count i)

theorem gauge_span : Gauge (β := β) Budget.span 256 counted where
  mono _ _ le := le.1
  top := rfl
  zero := rfl
  counts _ weighs := weighs
  gains _ _ := Nat.add_le_add_left (Bool.toNat_le _) _

theorem gauge_branches : Gauge (β := β) Budget.branches 4 conditionPoint where
  mono _ _ le := le.2
  top := rfl
  zero := rfl
  counts i weighs := by
    rw [conditionPoint, Bool.and_eq_true] at weighs
    exact weighs.1
  gains budget i := by
    refine Nat.add_le_add_left ?_ _
    rw [conditionPoint]
    cases counted i <;> simp

theorem Budget.fits_zero : Budget.zero.Fits := ⟨Nat.zero_le _, Nat.zero_le _⟩

variable {budget : Budget}

theorem Budget.Fits.count (fits : budget.Fits) (room : budget.full = false) (i : Instruction β) :
    (budget.count i).Fits := by
  obtain ⟨span, branches⟩ := fits
  simp only [Budget.full, Bool.or_eq_false_iff, decide_eq_false_iff_not] at room
  -- An instruction is one condition point at most, so neither budget skips its limit.
  have once := Bool.toNat_le i.condition
  refine ⟨?_, ?_⟩
  · show budget.span + 1 ≤ 256
    simp only at span
    omega
  · show budget.branches + i.condition.toNat ≤ 4
    simp only at branches
    omega

theorem Budget.Fits.ofZero (i : Instruction β) : (Budget.zero.count i).Fits :=
  Budget.fits_zero.count rfl i

theorem scan_fits (fits : budget.Fits) (index : Nat) (instructions : List (Instruction β)) :
    (scan symbols budget index instructions).2.Fits := by
  fun_induction scan symbols budget index instructions with
  | case1 => exact fits
  | case2 budget index i rest passed ih => exact ih fits
  | case3 budget index i rest passed starts ih => exact ih Budget.fits_zero
  | case4 budget index i rest passed starts full scanned ih => exact ih (Budget.Fits.ofZero i)
  | case5 budget index i rest passed starts room ih =>
    exact ih (fits.count (Bool.eq_false_iff.mpr room) i)

theorem le_of_mem_scan {index point : Nat} {instructions : List (Instruction β)}
    (member : point ∈ (scan symbols budget index instructions).1) : index ≤ point := by
  fun_induction scan symbols budget index instructions with
  | case1 => cases member
  | case2 budget index i rest passed ih => exact Nat.le_of_succ_le (ih member)
  | case3 budget index i rest passed starts ih => exact Nat.le_of_succ_le (ih member)
  | case4 budget index i rest passed starts full scanned ih =>
    rcases List.mem_cons.mp member with rfl | later
    · exact Nat.le_refl point
    · exact Nat.le_of_succ_le (ih later)
  | case5 budget index i rest passed starts room ih => exact Nat.le_of_succ_le (ih member)

theorem not_isPoint {isPoint : Nat → Bool} {index : Nat} {rest : List (Instruction β)}
    (points : ∀ p, index ≤ p → (isPoint p = true ↔ p ∈ (scan symbols budget (index + 1) rest).1)) :
    isPoint index = false := by
  rw [← Bool.not_eq_true, points index (Nat.le_refl index)]
  exact fun member => absurd (le_of_mem_scan member) (Nat.not_succ_le_self index)

theorem getLast?_insertBefore (isPoint : Nat → Bool) (index : Nat)
    (instructions : List (Instruction β)) :
    (insertBefore isPoint index instructions).getLast? = instructions.getLast? := by
  induction instructions generalizing index with
  | nil => rfl
  | cons i rest ih =>
    rw [insertBefore]
    split <;> simp only [List.getLast?_cons, ih]
    simp

/-- The new instructions are the old ones with a marker in front of some of them. -/
inductive WithMarkers : List (Instruction β) → List (Instruction β) → Prop
  | nil : WithMarkers [] []
  | keep {i : Instruction β} {old new : List (Instruction β)} :
    WithMarkers old new → WithMarkers (i :: old) (i :: new)
  | mark {i : Instruction β} {old new : List (Instruction β)} :
    WithMarkers old new → WithMarkers (i :: old) (.marker :: i :: new)

theorem withMarkers_insertBefore (isPoint : Nat → Bool) (index : Nat) (instructions : List (Instruction β)) :
    WithMarkers instructions (insertBefore isPoint index instructions) := by
  induction instructions generalizing index with
  | nil => exact .nil
  | cons i rest ih =>
    rw [insertBefore]
    split
    · exact .mark (ih (index + 1))
    · exact .keep (ih (index + 1))

theorem insertBefore_eq_self {isPoint : Nat → Bool} (none_ : ∀ p, isPoint p = false) (index : Nat)
    (instructions : List (Instruction β)) :
    insertBefore isPoint index instructions = instructions := by
  induction instructions generalizing index with
  | nil => rfl
  | cons i rest ih => simp [insertBefore, none_, ih]

section Block

variable {value : Budget → Nat} {limit : Nat} {weighs : Instruction β → Bool}

theorem Gauge.le_limit (gauge : Gauge value limit weighs) {budget : Budget} (fits : budget.Fits) :
    value budget ≤ limit := gauge.top ▸ gauge.mono _ _ fits

theorem Gauge.tick_skipped (gauge : Gauge value limit weighs) {i : Instruction β}
    (passed : i.skipped = true) (met : Nat) :
    tick boundary (fun i => (weighs i).toNat) met i ≤ met := by
  have weightless : weighs i = false := by
    by_contra weighty
    have counts := gauge.counts i (Bool.eq_true_of_not_eq_false weighty)
    rw [not_counted_of_skipped passed] at counts
    cases counts
  unfold tick
  split
  · exact Nat.zero_le met
  · simp [weightless]

theorem Gauge.tick_counted (gauge : Gauge value limit weighs) (i : Instruction β) {met : Nat}
    {budget : Budget} (le : met ≤ value budget) :
    tick boundary (fun i => (weighs i).toNat) met i ≤ value (budget.count i) := by
  unfold tick
  split
  · exact Nat.zero_le _
  · exact (Nat.add_le_add_right le _).trans (gauge.gains budget i)

/-- The budgets of the pass bound those of a path through the block as it is in the end. -/
theorem Gauge.scan_within (gauge : Gauge value limit weighs) {isPoint : Nat → Bool}
    {budget : Budget} (fits : budget.Fits) {index : Nat} {instructions : List (Instruction β)}
    (points : ∀ p, index ≤ p →
      (isPoint p = true ↔ p ∈ (scan symbols budget index instructions).1))
    {met : Nat} (le : met ≤ value budget) :
    Within boundary (fun i => (weighs i).toNat) limit met
        (insertBefore isPoint index instructions) ∧
      meter boundary (fun i => (weighs i).toNat) met (insertBefore isPoint index instructions) ≤
        value (scan symbols budget index instructions).2 := by
  have below := le.trans (gauge.le_limit fits)
  fun_induction scan symbols budget index instructions generalizing met with
  | case1 => exact ⟨within_nil.mpr below, le⟩
  | case2 budget index i rest passed ih =>
    have here := not_isPoint points
    have less := gauge.tick_skipped passed met
    obtain ⟨within, ends⟩ := ih fits (fun p after => points p (by omega)) (less.trans le)
      (less.trans below)
    simp only [insertBefore, here, Bool.false_eq_true, if_false, within_cons, meter_cons]
    exact ⟨⟨below, within⟩, ends⟩
  -- A boundary: both start again.
  | case3 budget index i rest passed starts ih =>
    have here := not_isPoint points
    obtain ⟨within, ends⟩ := ih Budget.fits_zero (fun p after => points p (by omega))
      (Nat.zero_le _) (Nat.zero_le _)
    have start : tick boundary (fun i => (weighs i).toNat) met i = 0 := by
      rw [tick, if_pos (boundary_of_resets starts)]
    simp only [insertBefore, here, Bool.false_eq_true, if_false, within_cons, meter_cons, start]
    exact ⟨⟨below, within⟩, ends⟩
  | case4 budget index i rest passed starts full scanned ih =>
    have here : isPoint index = true :=
      (points index (Nat.le_refl index)).mpr List.mem_cons_self
    have later : ∀ p, index + 1 ≤ p → (isPoint p = true ↔ p ∈ scanned.1) := fun p after => by
      rw [points p (by omega), List.mem_cons]
      exact or_iff_right (by omega)
    have counts := gauge.tick_counted i (gauge.zero ▸ Nat.zero_le 0 : 0 ≤ value .zero)
    obtain ⟨within, ends⟩ := ih (Budget.Fits.ofZero i) later counts
      (counts.trans (gauge.le_limit (Budget.Fits.ofZero i)))
    -- The inserted call starts the budgets of the path again as well.
    have start : tick boundary (fun i => (weighs i).toNat) met .marker = 0 := rfl
    simp only [insertBefore, here, if_true, within_cons, meter_cons, start]
    exact ⟨⟨below, Nat.zero_le limit, within⟩, ends⟩
  -- A counted instruction: the budget of the path grows by at most as much.
  | case5 budget index i rest passed starts room ih =>
    have here := not_isPoint points
    have more := fits.count (Bool.eq_false_iff.mpr room) i
    have counts := gauge.tick_counted i le
    obtain ⟨within, ends⟩ := ih more (fun p after => points p (by omega)) counts
      (counts.trans (gauge.le_limit more))
    simp only [insertBefore, here, Bool.false_eq_true, if_false, within_cons, meter_cons]
    exact ⟨⟨below, within⟩, ends⟩

end Block

/-! ### The blocks that were visited -/

theorem Budget.le_refl (a : Budget) : a ≤ a := ⟨Nat.le_refl _, Nat.le_refl _⟩

theorem Budget.max_le_iff {a b c : Budget} : a.max b ≤ c ↔ a ≤ c ∧ b ≤ c := by
  constructor
  · intro le
    exact ⟨⟨(Nat.max_le.mp le.1).1, (Nat.max_le.mp le.2).1⟩,
      ⟨(Nat.max_le.mp le.1).2, (Nat.max_le.mp le.2).2⟩⟩
  · rintro ⟨first, second⟩
    exact ⟨Nat.max_le.mpr ⟨first.1, second.1⟩, Nat.max_le.mpr ⟨first.2, second.2⟩⟩

variable {tails : β → Option Budget} {predecessors : List β}

theorem foldl_joinTail_le_iff {budget limit : Budget} :
    predecessors.foldl (joinTail tails) budget ≤ limit ↔
      budget ≤ limit ∧ ∀ a ∈ predecessors, ∀ tail, tails a = some tail → tail ≤ limit := by
  induction predecessors generalizing budget with
  | nil => simp
  | cons a predecessors ih =>
    rw [List.foldl_cons, ih, joinTail]
    cases visited : tails a with
    | none => simp [visited]
    | some tail => simp [visited, Budget.max_le_iff, and_assoc]

theorem le_joined {a : β} (member : a ∈ predecessors) {tail : Budget}
    (visited : tails a = some tail) : tail ≤ joined tails predecessors :=
  (foldl_joinTail_le_iff.mp (Budget.le_refl _)).2 a member tail visited

theorem joined_fits (fits : ∀ a tail, tails a = some tail → tail.Fits) :
    (joined tails predecessors).Fits :=
  foldl_joinTail_le_iff.mpr ⟨Budget.fits_zero, fun a _ => fits a⟩

variable {f : Body β}

/-- The block `a` comes before the block `b`. -/
def Before (order : List β) (a b : β) : Prop := [a, b].Sublist order

/-- What is known of a visited block: the budgets it started from and ended with, and that no
visited predecessor ended with larger ones. -/
structure Scanned (symbols : List Symbol) (f : Body β) (done : List β) (state : Traversal β)
    (b : β) (start tail : Budget) : Prop where
  fits : start.Fits
  tail : (scan symbols start 0 (f.instructions b)).2 = tail
  points : ∀ index, (b, index) ∈ state.points ↔
    index ∈ (scan symbols start 0 (f.instructions b)).1
  above : ∀ a, Before done a b → b ∈ f.successors a →
    ∃ before, state.tails a = some before ∧ before ≤ start

/-- What holds after the blocks `done`. -/
structure Visited (symbols : List Symbol) (f : Body β) (done : List β) (state : Traversal β) :
    Prop where
  visited : ∀ b, (∃ tail, state.tails b = some tail) ↔ b ∈ done
  points : ∀ b index, (b, index) ∈ state.points → b ∈ done
  scanned : ∀ b tail, state.tails b = some tail →
    ∃ start, Scanned symbols f done state b start tail

theorem Visited.init : Visited symbols f [] { points := [], tails := fun _ => none } where
  visited b := by simp
  points b index member := by cases member
  scanned b tail none_ := by cases none_

variable {done : List β}

theorem before_append_singleton {a b c : β} :
    Before (done ++ [c]) a b ↔ Before done a b ∨ a ∈ done ∧ b = c := by
  constructor
  · intro before
    obtain ⟨first, second, same, inDone, inLast⟩ := List.sublist_append_iff.mp before
    match first, second, same with
    | [], _, rfl => exact absurd inLast.length_le (by simp)
    | [_], _, rfl =>
      refine Or.inr ⟨List.singleton_sublist.mp inDone, ?_⟩
      exact List.mem_singleton.mp (List.singleton_sublist.mp inLast)
    | [_, _], _, rfl => exact Or.inl inDone
  · rintro (before | ⟨member, rfl⟩)
    · exact before.trans (List.sublist_append_left done [c])
    · exact (List.singleton_sublist.mpr member).append (List.Sublist.refl [b])

theorem Before.mem_left {order : List β} {a b : β} (before : Before order a b) : a ∈ order :=
  before.mem List.mem_cons_self

theorem Before.mem_right {order : List β} {a b : β} (before : Before order a b) : b ∈ order :=
  before.mem (List.mem_cons_of_mem a List.mem_cons_self)

variable {state : Traversal β}

theorem Visited.fits (visited : Visited symbols f done state) (b : β) (tail : Budget)
    (ends : state.tails b = some tail) : tail.Fits := by
  obtain ⟨start, scanned⟩ := visited.scanned b tail ends
  rw [← scanned.tail]
  exact scan_fits scanned.fits 0 _

variable [DecidableEq β]

theorem mem_predecessors {a b : β} : a ∈ f.predecessors b ↔ b ∈ f.successors a := by
  simp [Body.predecessors, f.complete a]

theorem Visited.scanned_new (visited : Visited symbols f done state) {c : β} (new : c ∉ done) :
    Scanned symbols f (done ++ [c]) (visitBlock symbols f state c) c
      (joined state.tails (f.predecessors c))
      (scan symbols (joined state.tails (f.predecessors c)) 0 (f.instructions c)).2 where
  fits := joined_fits visited.fits
  tail := rfl
  points index := by
    have fresh : (c, index) ∉ state.points := fun member => new (visited.points c index member)
    simp [visitBlock, fresh]
  above a before edge := by
    -- Only the new block comes last, so an earlier predecessor was visited.
    have member : a ∈ done := by
      rcases before_append_singleton.mp before with old | ⟨member, -⟩
      · exact absurd old.mem_right new
      · exact member
    obtain ⟨tail, ends⟩ := (visited.visited a).mpr member
    have other : a ≠ c := fun same => new (same ▸ member)
    refine ⟨tail, ?_, le_joined (mem_predecessors.mpr edge) ends⟩
    simp [visitBlock, Function.update_of_ne other, ends]

theorem Scanned.visitBlock {b c : β} {start tail : Budget}
    (scanned : Scanned symbols f done state b start tail) (new : c ∉ done) (other : b ≠ c) :
    Scanned symbols f (done ++ [c]) (visitBlock symbols f state c) b start tail where
  fits := scanned.fits
  tail := scanned.tail
  points index := by
    rw [← scanned.points]
    simp [Compiler.visitBlock, Ne.symm other]
  above a before edge := by
    have old : Before done a b :=
      (before_append_singleton.mp before).resolve_right fun last => other last.2
    obtain ⟨tail, ends, le⟩ := scanned.above a old edge
    have apart : a ≠ c := fun same => new (same ▸ old.mem_left)
    refine ⟨tail, ?_, le⟩
    simp [Compiler.visitBlock, Function.update_of_ne apart, ends]

theorem Visited.visitBlock (visited : Visited symbols f done state) {c : β} (new : c ∉ done) :
    Visited symbols f (done ++ [c]) (visitBlock symbols f state c) where
  visited b := by
    by_cases same : b = c
    · simp [Compiler.visitBlock, same]
    · simp [Compiler.visitBlock, visited.visited b, same]
  points b index member := by
    simp only [Compiler.visitBlock, List.mem_append, List.mem_map, Prod.mk.injEq] at member
    rcases member with old | ⟨_, _, rfl, _⟩
    · exact List.mem_append_left [c] (visited.points b index old)
    · exact List.mem_append_right done (List.mem_singleton_self c)
  scanned b tail ends := by
    by_cases same : b = c
    · subst same
      simp only [Compiler.visitBlock, Function.update_self, Option.some.injEq] at ends
      exact ⟨_, ends ▸ visited.scanned_new new⟩
    · simp only [Compiler.visitBlock, Function.update_of_ne same] at ends
      obtain ⟨start, scanned⟩ := visited.scanned b tail ends
      exact ⟨start, scanned.visitBlock new same⟩

theorem visited_traverse (symbols : List Symbol) (f : Body β) {order : List β}
    (nodup : order.Nodup) : Visited symbols f order (traverse symbols f order) := by
  -- From the left: the invariant is about the blocks that were visited so far.
  induction order using List.reverseRecOn with
  | nil => exact Visited.init
  | append_singleton done c ih =>
    obtain ⟨nodup, -, apart⟩ := List.nodup_append.mp nodup
    have new : c ∉ done := fun member => apart c member c (List.mem_singleton_self c) rfl
    rw [traverse, List.foldl_append]
    exact (ih nodup).visitBlock new

theorem nodup_order (f : Body β) : f.order.Nodup :=
  List.nodup_reverse.mpr (nodup_postOrder f.blocks f.complete f.entry)

theorem mem_order_iff {b : β} :
    b ∈ f.order ↔ Relation.ReflTransGen (fun a b => b ∈ f.successors a) f.entry b := by
  rw [Body.order, List.mem_reverse, mem_postOrder_iff]

/-! ### Paths -/

/-- A path from a block that the entry reaches, along edges from earlier to later blocks. -/
structure Body.Forward (f : Body β) (path : List β) : Prop where
  reached : ∀ b ∈ path.head?, Relation.ReflTransGen (fun a b => b ∈ f.successors a) f.entry b
  edges : path.IsChain fun a b => b ∈ f.successors a ∧ Before f.order a b

/-- Between two boundaries of a trace there are at most 256 counted instructions and at most
four condition points. -/
def Bounded (trace : List (Instruction β)) : Prop :=
  ∀ before segment after, trace = before ++ segment ++ after →
    (∀ i ∈ segment, boundary i = false) →
      segment.countP counted ≤ 256 ∧ segment.countP conditionPoint ≤ 4

section Paths

variable {value : Budget → Nat} {limit : Nat} {weighs : Instruction β → Bool}

/-- The bound that a visited block carries at its end. -/
def tailValue (value : Budget → Nat) (state : Traversal β) (b : β) : Nat :=
  ((state.tails b).map value).getD 0

theorem Gauge.block_within (gauge : Gauge value limit weighs) {done : List β}
    {state : Traversal β} {b : β} {start tail : Budget}
    (scanned : Scanned symbols f done state b start tail) {met : Nat} (le : met ≤ value start) :
    Within boundary (fun i => (weighs i).toNat) limit met
        ((f.insertMarkers state.points).instructions b) ∧
      meter boundary (fun i => (weighs i).toNat) met
        ((f.insertMarkers state.points).instructions b) ≤ value tail := by
  rw [← scanned.tail]
  refine gauge.scan_within scanned.fits (fun p _ => ?_) le
  rw [decide_eq_true_eq]
  exact scanned.points p

theorem Gauge.path_within (gauge : Gauge value limit weighs) {state : Traversal β}
    (visited : Visited symbols f f.order state) {path : List β} (forward : f.Forward path) :
    Within boundary (fun i => (weighs i).toNat) limit 0
      (path.flatMap (f.insertMarkers state.points).instructions) := by
  refine within_path (tailValue value state) (fun b head => ?_)
    (fun a b edge met le => ?_) forward.edges
  · obtain ⟨tail, ends⟩ := (visited.visited b).mpr (mem_order_iff.mpr (forward.reached b head))
    obtain ⟨start, scanned⟩ := visited.scanned b tail ends
    rw [tailValue, ends]
    exact gauge.block_within scanned (Nat.zero_le _)
  -- The predecessor on the path is one of those whose budgets were joined.
  · obtain ⟨tail, ends⟩ := (visited.visited b).mpr edge.2.mem_right
    obtain ⟨start, scanned⟩ := visited.scanned b tail ends
    obtain ⟨before, endsBefore, above⟩ := scanned.above a edge.2 edge.1
    rw [tailValue, endsBefore] at le
    rw [tailValue, ends]
    exact gauge.block_within scanned (le.trans (gauge.mono _ _ above))

theorem Gauge.segment_le (gauge : Gauge value limit weighs) {state : Traversal β}
    (visited : Visited symbols f f.order state) {path : List β} (forward : f.Forward path)
    {before segment after : List (Instruction β)}
    (trace : path.flatMap (f.insertMarkers state.points).instructions = before ++ segment ++ after)
    (free : ∀ i ∈ segment, boundary i = false) : segment.countP weighs ≤ limit := by
  have within := gauge.path_within visited forward
  rw [trace] at within
  rw [← sum_map_toNat]
  exact within.segment_le free

end Paths

theorem bounded_of_forward (large : 1024 ≤ f.getInstructionCount) {path : List β}
    (forward : f.Forward path) :
    Bounded (path.flatMap (f.insertMarkers (functionPoints symbols f)).instructions) := by
  intro before segment after trace free
  have visited := visited_traverse symbols f (nodup_order f)
  rw [functionPoints, if_neg (Nat.not_lt.mpr large)] at trace
  exact ⟨gauge_span.segment_le visited forward trace free,
    gauge_branches.segment_le visited forward trace free⟩

/-! ### The module -/

theorem successors_insertMarkers (f : Body β) (points : List (β × Nat)) :
    (f.insertMarkers points).successors = f.successors := by
  funext b
  rw [Body.successors, Body.insertMarkers, getLast?_insertBefore]
  rfl

theorem insertMarkers_nil (f : Body β) : f.insertMarkers [] = f := by
  have same : ∀ b, insertBefore (fun index => (b, index) ∈ ([] : List (β × Nat))) 0
      (f.instructions b) = f.instructions b :=
    fun b => insertBefore_eq_self (by simp) 0 _
  simp only [Body.insertMarkers, same]

theorem managed_insertLargePathYields (m : IrModule) :
    (insertLargePathYields m).managed = m.managed.map fun g =>
      { g with body := g.body.insertMarkers (functionPoints m.symbols g.body) } := by
  rw [insertLargePathYields]
  split
  next none_ =>
    refine (List.map_id _).symm.trans (List.map_congr_left fun g member => ?_)
    have empty := List.all_eq_true.mp none_ g member
    rw [List.isEmpty_iff.mp empty, insertMarkers_nil]
    rfl
  next => rfl

/-- Every managed function of at least 1024 instructions keeps its instructions and its edges and
gets markers, and along every forward path of it the boundaries are close. -/
theorem forward_paths_bounded (m : IrModule) (k : Nat) (g : Managed)
    (managed : m.managed[k]? = some g) (large : 1024 ≤ g.body.getInstructionCount) :
    ∃ body : Body (Fin g.size), (insertLargePathYields m).managed[k]? = some ⟨g.size, body⟩ ∧
      (∀ b, WithMarkers (g.body.instructions b) (body.instructions b)) ∧
      body.successors = g.body.successors ∧ body.order = g.body.order ∧
      ∀ path, g.body.Forward path → Bounded (path.flatMap body.instructions) := by
  refine ⟨g.body.insertMarkers (functionPoints m.symbols g.body), ?_, ?_, ?_, ?_, ?_⟩
  · rw [managed_insertLargePathYields, List.getElem?_map, managed]
    rfl
  · exact fun b => withMarkers_insertBefore _ 0 (g.body.instructions b)
  · exact successors_insertMarkers _ _
  · rw [Body.order, successors_insertMarkers]
    rfl
  · exact fun path forward => bounded_of_forward large forward

/-- Two blocks of 600 instructions each, one after the other. -/
def twoBlockInstructions (b : Fin 2) : List (Instruction (Fin 2)) :=
  List.replicate 600 .other ++ [.terminator (if b = 0 then [1] else [])]

theorem nodup_twoBlocks : [(0 : Fin 2), 1].Nodup := by decide

theorem mem_twoBlocks (b : Fin 2) : b ∈ [(0 : Fin 2), 1] := by
  revert b
  decide

def twoBlocks : Body (Fin 2) where
  blocks := [0, 1]
  nodup := nodup_twoBlocks
  complete := mem_twoBlocks
  entry := 0
  instructions := twoBlockInstructions

theorem successors_twoBlocks : twoBlocks.successors = fun b => if b = 0 then [1] else [] := by
  funext b
  have last : (twoBlocks.instructions b).getLast? =
      some (.terminator (if b = 0 then [1] else [])) := List.getLast?_concat
  rw [Body.successors, last]
  rfl

theorem order_twoBlocks : twoBlocks.order = [0, 1] := by
  rw [Body.order, successors_twoBlocks]
  simp [postOrder, postOrderLoop, twoBlocks]

theorem forward_twoBlocks : twoBlocks.Forward [0, 1] where
  reached b head := by
    cases head
    exact .refl
  edges := by
    refine List.isChain_cons_cons.mpr ⟨⟨?_, ?_⟩, List.isChain_singleton _⟩
    · simp [successors_twoBlocks]
    · rw [Before, order_twoBlocks]

theorem twoBlocks_bounded :
    ∃ body : Body (Fin 2),
      (insertLargePathYields ⟨[], [⟨2, twoBlocks⟩]⟩).managed[0]? = some ⟨2, body⟩ ∧
      Bounded ([0, 1].flatMap body.instructions) := by
  have size : ∀ b, (twoBlockInstructions b).length = 601 := fun b => by
    rw [twoBlockInstructions, List.length_append, List.length_replicate, List.length_singleton]
  have large : 1024 ≤ twoBlocks.getInstructionCount := by
    have total : twoBlocks.getInstructionCount = 601 + (601 + 0) := by
      simp only [Body.getInstructionCount, size, twoBlocks, List.map_cons, List.map_nil,
        List.sum_cons, List.sum_nil]
    rw [total]
    decide
  obtain ⟨body, managed, -, -, -, bounded⟩ :=
    forward_paths_bounded ⟨[], [⟨2, twoBlocks⟩]⟩ 0 ⟨2, twoBlocks⟩ rfl large
  exact ⟨body, managed, bounded _ forward_twoBlocks⟩

end LashOs.Compiler
