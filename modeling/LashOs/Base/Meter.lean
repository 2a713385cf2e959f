import Mathlib

/-!
# Metered traces

A meter runs along a trace: it starts again at every boundary and adds up the weights of what
stands between two boundaries. A trace keeps within a limit when the meter does at every point
of it. That bounds the weight of every part without a boundary.

A trace that is put together from the bodies of blocks along a path keeps within the limit when
every block carries a bound of the meter at its end, and every step of the path keeps these
bounds.
-/

namespace Base

section Meter

variable {α β : Type} (reset : α → Bool) (weight : α → Nat)

def tick (value : Nat) (item : α) : Nat := if reset item then 0 else value + weight item

def meter (value : Nat) (trace : List α) : Nat := trace.foldl (tick reset weight) value

/-- The meter is at most the limit at every point of the trace. -/
def Within (limit value : Nat) (trace : List α) : Prop :=
  ∀ start, start <+: trace → meter reset weight value start ≤ limit

variable {reset weight} {limit value : Nat}

@[simp] theorem meter_nil : meter reset weight value [] = value := rfl

@[simp] theorem meter_cons (item : α) (trace : List α) :
    meter reset weight value (item :: trace) =
      meter reset weight (tick reset weight value item) trace := rfl

theorem meter_append (first second : List α) :
    meter reset weight value (first ++ second) =
      meter reset weight (meter reset weight value first) second :=
  List.foldl_append

@[simp] theorem within_nil : Within reset weight limit value [] ↔ value ≤ limit := by
  refine ⟨fun within => within [] List.prefix_rfl, fun le start isStart => ?_⟩
  rw [List.prefix_nil.mp isStart]
  exact le

@[simp] theorem within_cons {item : α} {trace : List α} :
    Within reset weight limit value (item :: trace) ↔
      value ≤ limit ∧ Within reset weight limit (tick reset weight value item) trace := by
  constructor
  · intro within
    refine ⟨within [] List.nil_prefix, fun start isStart => ?_⟩
    exact within (item :: start) (List.cons_prefix_cons.mpr ⟨rfl, isStart⟩)
  · rintro ⟨le, within⟩ start isStart
    cases start with
    | nil => exact le
    | cons first start =>
      obtain ⟨rfl, rest⟩ := List.cons_prefix_cons.mp isStart
      exact within start rest

theorem within_append {first second : List α} :
    Within reset weight limit value (first ++ second) ↔
      Within reset weight limit value first ∧
        Within reset weight limit (meter reset weight value first) second := by
  induction first generalizing value with
  | nil =>
    refine ⟨fun within => ⟨within_nil.mpr ?_, within⟩, fun both => both.2⟩
    exact within [] List.nil_prefix
  | cons item first ih =>
    rw [List.cons_append, within_cons, within_cons, ih, meter_cons, and_assoc]

/-- Between boundaries the meter adds up. -/
theorem meter_of_no_reset {trace : List α} (free : ∀ item ∈ trace, reset item = false) :
    meter reset weight value trace = value + (trace.map weight).sum := by
  induction trace generalizing value with
  | nil => simp
  | cons item trace ih =>
    have here : reset item = false := free item List.mem_cons_self
    have later := fun next member => free next (List.mem_cons_of_mem item member)
    rw [meter_cons, ih later, tick, here, List.map_cons, List.sum_cons]
    simp only [Bool.false_eq_true, if_false]
    omega

/-- A part without a boundary weighs at most the limit. -/
theorem Within.segment_le {before segment after : List α}
    (within : Within reset weight limit value (before ++ segment ++ after))
    (free : ∀ item ∈ segment, reset item = false) : (segment.map weight).sum ≤ limit := by
  have whole := within (before ++ segment) (List.prefix_append ..)
  -- The meter has at least the weight of the part behind whatever stood before it.
  rw [meter_append, meter_of_no_reset free] at whole
  omega

/-- The simulation along a path: every block carries a bound of the meter at its end, which the
next block may start from. -/
theorem within_steps {body : β → List α} {tail : β → Nat} {Edge : β → β → Prop}
    (step : ∀ a b, Edge a b → ∀ value ≤ tail a,
      Within reset weight limit value (body b) ∧ meter reset weight value (body b) ≤ tail b)
    {a : β} {path : List β} (chain : (a :: path).IsChain Edge) (le : value ≤ tail a)
    (below : value ≤ limit) :
    Within reset weight limit value (path.flatMap body) := by
  induction path generalizing a value with
  | nil => exact within_nil.mpr below
  | cons b path ih =>
    obtain ⟨edge, chain⟩ := List.isChain_cons_cons.mp chain
    -- The value at the end of `b` is below both the bound of `b` and the limit.
    obtain ⟨within, ends⟩ := step a b edge value le
    rw [List.flatMap_cons, within_append]
    exact ⟨within, ih chain ends (within (body b) List.prefix_rfl)⟩

theorem within_path {body : β → List α} (tail : β → Nat) {Edge : β → β → Prop} {path : List β}
    (first : ∀ b ∈ path.head?,
      Within reset weight limit 0 (body b) ∧ meter reset weight 0 (body b) ≤ tail b)
    (step : ∀ a b, Edge a b → ∀ value ≤ tail a,
      Within reset weight limit value (body b) ∧ meter reset weight value (body b) ≤ tail b)
    (chain : path.IsChain Edge) : Within reset weight limit 0 (path.flatMap body) := by
  cases path with
  | nil => exact within_nil.mpr (Nat.zero_le limit)
  | cons b path =>
    obtain ⟨within, ends⟩ := first b rfl
    rw [List.flatMap_cons, within_append]
    exact ⟨within, within_steps step chain ends (within (body b) List.prefix_rfl)⟩

theorem sum_map_toNat (test : α → Bool) (trace : List α) :
    (trace.map fun item => (test item).toNat).sum = trace.countP test := by
  induction trace with
  | nil => rfl
  | cons item trace ih =>
    rw [List.map_cons, List.sum_cons, ih, List.countP_cons]
    cases test item <;> simp [Nat.add_comm]

end Meter

end Base
