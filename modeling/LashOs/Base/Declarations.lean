import Mathlib.Data.List.Forall2
import Mathlib.Data.List.Nodup
import Mathlib.Logic.Function.Basic

/-!
# Blocks of declarations

A straight-line block declares variables one after the other. Each declaration computes its value in
the scope of the ones before it, and the first one that fails ends the block.

A block that declares some of its variables in a first pass, so that the others can refer to them,
computes what the declarations mean in their given order.
-/
namespace Base

variable {ι ν α ε : Type} [DecidableEq ν]

section Block

variable (name : ι → ν) (value : ι → (ν → Option α) → Except ε α)

def declareAll : (ν → Option α) → List ι → Except ε (ν → Option α)
  | scope, [] => .ok scope
  | scope, i :: rest =>
    match value i scope with
    | .error e => .error e
    | .ok v => declareAll (Function.update scope (name i) (some v)) rest

theorem declareAll_append (scope : ν → Option α) (first second : List ι) :
    declareAll name value scope (first ++ second) =
      (declareAll name value scope first).bind fun scope => declareAll name value scope second := by
  induction first generalizing scope with
  | nil => rfl
  | cons i rest ih =>
    rw [List.cons_append, declareAll, declareAll]
    cases value i scope with
    | error e => rfl
    | ok v => exact ih _

theorem declareAll_map {κ : Type} (item : κ → ι) (scope : ν → Option α) (items : List κ) :
    declareAll name value scope (items.map item) =
      declareAll (fun i => name (item i)) (fun i => value (item i)) scope items := by
  induction items generalizing scope with
  | nil => rfl
  | cons i rest ih =>
    rw [List.map_cons, declareAll, declareAll]
    cases value (item i) scope with
    | error e => rfl
    | ok v => exact ih _

end Block

/-! ### Evaluation without a scope -/

/-- The values in their order, or the first failure. -/
def evaluateAll (meaning : ι → Except ε α) : List ι → Except ε (List α)
  | [] => .ok []
  | i :: rest =>
    match meaning i with
    | .error e => .error e
    | .ok v => (evaluateAll meaning rest).map (v :: ·)

variable {meaning : ι → Except ε α}

theorem evaluateAll_cons_ok {i : ι} {rest : List ι} {v : α} (ok : meaning i = .ok v) :
    evaluateAll meaning (i :: rest) = (evaluateAll meaning rest).map (v :: ·) := by
  simp [evaluateAll, ok]

theorem evaluateAll_cons_error {i : ι} {rest : List ι} {e : ε} (fails : meaning i = .error e) :
    evaluateAll meaning (i :: rest) = .error e := by
  simp [evaluateAll, fails]

theorem evaluateAll_map {κ : Type} (item : κ → ι) (items : List κ) :
    evaluateAll meaning (items.map item) = evaluateAll (fun i => meaning (item i)) items := by
  induction items with
  | nil => rfl
  | cons i rest ih =>
    rw [List.map_cons, evaluateAll, evaluateAll, ih]

variable {items : List ι}

theorem evaluateAll_congr {κ : Type} {meaning' : κ → Except ε α} {items' : List κ}
    (same : items.map meaning = items'.map meaning') :
    evaluateAll meaning items = evaluateAll meaning' items' := by
  have left : evaluateAll id (items.map meaning) = evaluateAll meaning items :=
    evaluateAll_map meaning items
  rw [← left, same]
  exact evaluateAll_map meaning' items'

/-- Every value of a successful evaluation, at its place. -/
theorem evaluateAll_ok {values : List α} (ok : evaluateAll meaning items = .ok values) :
    List.Forall₂ (fun i v => meaning i = .ok v) items values := by
  induction items generalizing values with
  | nil =>
    cases ok
    exact .nil
  | cons i rest ih =>
    cases here : meaning i with
    | error e => simp [evaluateAll_cons_error here] at ok
    | ok v =>
      rw [evaluateAll_cons_ok here] at ok
      cases later : evaluateAll meaning rest with
      | error e => simp [later, Except.map] at ok
      | ok vs =>
        rw [later] at ok
        cases ok
        exact .cons here (ih later)

/-- A function that finds every value maps the items to the values. -/
theorem map_eq_of_evaluated {values : List α} {f : ι → Option α}
    (evaluated : List.Forall₂ (fun i v => meaning i = .ok v) items values)
    (finds : ∀ i ∈ items, ∀ v, meaning i = .ok v → f i = some v) :
    items.map f = values.map some := by
  induction evaluated with
  | nil => rfl
  | @cons i v items values here later ih =>
    rw [List.map_cons, List.map_cons, finds i List.mem_cons_self v here,
      ih fun j member => finds j (List.mem_cons_of_mem i member)]

theorem exists_ok_of_evaluated {values : List α}
    (evaluated : List.Forall₂ (fun i v => meaning i = .ok v) items values) :
    ∀ i ∈ items, ∃ v, meaning i = .ok v := by
  induction evaluated with
  | nil => simp
  | cons here later ih =>
    rintro j (_ | ⟨_, member⟩)
    · exact ⟨_, here⟩
    · exact ih j member

/-- An item that does not fail makes no difference to the failure of the others. -/
theorem evaluateAll_filter_error {chosen : ι → Bool}
    (never : ∀ i ∈ items, chosen i = false → ∃ v, meaning i = .ok v) (e : ε) :
    evaluateAll meaning (items.filter chosen) = .error e ↔ evaluateAll meaning items = .error e := by
  have failed (v : α) (result : Except ε (List α)) : result.map (v :: ·) = .error e ↔ result = .error e := by
    cases result <;> simp [Except.map]
  induction items with
  | nil => rfl
  | cons i rest ih =>
    have ih := ih fun j member => never j (List.mem_cons_of_mem i member)
    cases here : chosen i with
    | true =>
      rw [List.filter_cons_of_pos here]
      cases value : meaning i with
      | error e' => rw [evaluateAll_cons_error value, evaluateAll_cons_error value]
      | ok v =>
        rw [evaluateAll_cons_ok value, evaluateAll_cons_ok value, failed, failed]
        exact ih
    | false =>
      obtain ⟨v, value⟩ := never i List.mem_cons_self here
      rw [List.filter_cons_of_neg (by simp [here]), evaluateAll_cons_ok value, failed]
      exact ih

/-! ### One pass -/

section Pass

variable {name : ι → ν} {value : ι → (ν → Option α) → Except ε α} (Good : (ν → Option α) → Prop)
  {items : List ι}

/-- As long as the scope stays good, every declaration has its meaning and fails as it says. -/
theorem declareAll_error
    (keeps : ∀ scope, Good scope → ∀ i ∈ items, ∀ v, Good (Function.update scope (name i) (some v)))
    (means : ∀ scope, Good scope → ∀ i ∈ items, value i scope = meaning i)
    {scope : ν → Option α} (good : Good scope) {e : ε} (fails : evaluateAll meaning items = .error e) :
    declareAll name value scope items = .error e := by
  induction items generalizing scope with
  | nil => cases fails
  | cons i rest ih =>
    rw [declareAll, means scope good i List.mem_cons_self]
    cases here : meaning i with
    | error e' =>
      rw [evaluateAll_cons_error here] at fails
      cases fails
      rfl
    | ok v =>
      rw [evaluateAll_cons_ok here] at fails
      refine ih (fun scope good j member => keeps scope good j (List.mem_cons_of_mem i member))
        (fun scope good j member => means scope good j (List.mem_cons_of_mem i member))
        (keeps scope good i List.mem_cons_self v) ?_
      cases later : evaluateAll meaning rest with
      | error e' =>
        rw [later] at fails
        cases fails
        rfl
      | ok vs => simp [later, Except.map] at fails

/-- A pass that succeeds binds every name to the value of its declaration and no other name. -/
theorem declareAll_ok
    (keeps : ∀ scope, Good scope → ∀ i ∈ items, ∀ v, Good (Function.update scope (name i) (some v)))
    (means : ∀ scope, Good scope → ∀ i ∈ items, value i scope = meaning i)
    (distinct : (items.map name).Nodup) {scope : ν → Option α} (good : Good scope)
    (ok : ∀ i ∈ items, ∃ v, meaning i = .ok v) :
    ∃ scope', declareAll name value scope items = .ok scope' ∧ Good scope' ∧
      (∀ i ∈ items, ∀ v, meaning i = .ok v → scope' (name i) = some v) ∧
      ∀ n ∉ items.map name, scope' n = scope n := by
  induction items generalizing scope with
  | nil => exact ⟨scope, rfl, good, by simp, fun _ _ => rfl⟩
  | cons i rest ih =>
    obtain ⟨v, here⟩ := ok i List.mem_cons_self
    rw [List.map_cons, List.nodup_cons] at distinct
    obtain ⟨scope', declared, good', bound, kept⟩ := ih
      (fun scope good j member => keeps scope good j (List.mem_cons_of_mem i member))
      (fun scope good j member => means scope good j (List.mem_cons_of_mem i member)) distinct.2
      (keeps scope good i List.mem_cons_self v)
      (fun j member => ok j (List.mem_cons_of_mem i member))
    refine ⟨scope', ?_, good', fun j member w value => ?_, fun n fresh => ?_⟩
    · rw [declareAll, means scope good i List.mem_cons_self, here]
      exact declared
    · rcases List.mem_cons.mp member with rfl | later
      · -- The name of the first declaration is not declared again.
        rw [here] at value
        cases value
        rw [kept _ distinct.1, Function.update_self]
      · exact bound j later w value
    · rw [List.map_cons, List.mem_cons, not_or] at fresh
      rw [kept n fresh.2, Function.update_of_ne fresh.1]

end Pass

/-! ### Two passes -/

/-- A block that declares the names that `first` chooses before the others. The chosen ones do not
fail, and the others refer to no names but theirs. The names then stand for what the declarations
mean, and the block fails as the first of them does that fails. -/
theorem declareAll_two_passes {name : ι → ν} {value : ι → (ν → Option α) → Except ε α}
    {first : ι → Bool} (distinct : (items.map name).Nodup) (chosen : ∀ i ∈ items, first i = true →
      (∀ scope, value i scope = meaning i) ∧ ∃ v, meaning i = .ok v)
    (others : ∀ scope : ν → Option α,
      (∀ i ∈ items, first i = true → ∀ v, meaning i = .ok v → scope (name i) = some v) →
      ∀ i ∈ items, first i = false → value i scope = meaning i) (scope : ν → Option α) :
    (declareAll name value scope (items.filter first ++ items.filter (!first ·))).map
        (fun scope => items.map fun i => scope (name i)) =
      (evaluateAll meaning items).map (List.map some) := by
  have distinctIn (q : ι → Bool) : ((items.filter q).map name).Nodup :=
    distinct.sublist (List.filter_sublist.map name)
  have early : ∀ i ∈ items.filter first,
      (∀ scope, value i scope = meaning i) ∧ ∃ v, meaning i = .ok v :=
    fun i member => chosen i (List.mem_filter.mp member).1 (List.mem_filter.mp member).2
  obtain ⟨scalars, declared, bound⟩ : ∃ scalars,
      declareAll name value scope (items.filter first) = .ok scalars ∧
      ∀ i ∈ items.filter first, ∀ v, meaning i = .ok v → scalars (name i) = some v := by
    obtain ⟨scalars, declared, -, bound, -⟩ := declareAll_ok (fun _ => True)
      (fun _ _ _ _ _ => trivial) (fun scope _ i member => (early i member).1 scope)
      (distinctIn first) trivial fun i member => (early i member).2
    exact ⟨scalars, declared, bound⟩
  -- The second pass leaves the names of the first one alone.
  let Good (scope : ν → Option α) : Prop :=
    ∀ i ∈ items, first i = true → ∀ v, meaning i = .ok v → scope (name i) = some v
  have good : Good scalars := fun i member one => bound i (List.mem_filter.mpr ⟨member, one⟩)
  have keeps : ∀ scope, Good scope → ∀ i ∈ items.filter (!first ·), ∀ v,
      Good (Function.update scope (name i) (some v)) := by
    intro scope good i member v j other one w value
    obtain ⟨inside, late⟩ := List.mem_filter.mp member
    have apart : name j ≠ name i := by
      intro same
      have : j = i := List.inj_on_of_nodup_map distinct other inside same
      simp [← this, one] at late
    rw [Function.update_of_ne apart]
    exact good j other one w value
  have means : ∀ scope, Good scope → ∀ i ∈ items.filter (!first ·), value i scope = meaning i := by
    intro scope good i member
    obtain ⟨inside, late⟩ := List.mem_filter.mp member
    exact others scope good i inside (by simpa using late)
  have never : ∀ i ∈ items, (!first i) = false → ∃ v, meaning i = .ok v :=
    fun i member one => (chosen i member (by simpa using one)).2
  rw [declareAll_append, declared]
  show (declareAll name value scalars (items.filter (!first ·))).map _ = _
  cases all : evaluateAll meaning items with
  | error e =>
    rw [declareAll_error Good keeps means good ((evaluateAll_filter_error never e).mpr all)]
    rfl
  | ok values =>
    have pointwise := evaluateAll_ok all
    obtain ⟨final, declared, good, bound, -⟩ := declareAll_ok Good keeps means (distinctIn _) good
      fun i member => exists_ok_of_evaluated pointwise i (List.mem_filter.mp member).1
    rw [declared]
    show Except.ok (items.map fun i => final (name i)) = Except.ok (values.map some)
    congr 1
    have every : ∀ i ∈ items, ∀ v, meaning i = .ok v → final (name i) = some v := by
      intro i member v value
      cases one : first i with
      | true => exact good i member one v value
      | false => exact bound i (List.mem_filter.mpr ⟨member, by simp [one]⟩) v value
    exact map_eq_of_evaluated pointwise every

end Base
