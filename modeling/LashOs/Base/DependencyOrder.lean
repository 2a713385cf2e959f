import Mathlib.Data.Fintype.Card
import Mathlib.Data.List.Nodup
import Mathlib.Data.Set.Finite.Basic
import Mathlib.Logic.Relation
import Mathlib.Order.WellFounded

/-!
# Dependencies first

A recursive visit puts a node behind everything that it depends on. It keeps no record of what it is
visiting, so that it does not return on a cycle; what it returns is therefore ordered.
-/
namespace Base

/-- Why a visit fails: a node that is not known, or a recursion that is too deep. -/
inductive VisitError (α : Type) where
  | unknown (a : α)
  | depth
  deriving DecidableEq, Repr

variable {α : Type}

section Visit

variable [DecidableEq α] (next : α → Option (List α))

/-- The visit of a node, with the order so far. -/
def visit : Nat → List α → α → Except (VisitError α) (List α)
  | 0, _, _ => .error .depth
  | fuel + 1, ordered, a =>
    if a ∈ ordered then .ok ordered
    else
      match next a with
      | none => .error (.unknown a)
      | some dependencies => (dependencies.foldlM (visit fuel) ordered).map (· ++ [a])

end Visit

def DependsOn (next : α → Option (List α)) (a b : α) : Prop := ∃ ds, next a = some ds ∧ b ∈ ds

/-- Every node stands once, behind what it depends on. -/
structure DependenciesFirst (next : α → Option (List α)) (ordered : List α) : Prop where
  once : ordered.Nodup
  first : ∀ before a behind, ordered = before ++ a :: behind →
    ∃ ds, next a = some ds ∧ ∀ d ∈ ds, d ∈ before

namespace DependenciesFirst

variable {next : α → Option (List α)} {ordered : List α}

theorem nil : DependenciesFirst next [] := ⟨List.nodup_nil, by simp⟩

/-- A node whose dependencies are there can follow. -/
theorem concat (order : DependenciesFirst next ordered) {a : α} {ds : List α} (new : a ∉ ordered)
    (known : next a = some ds) (there : ∀ d ∈ ds, d ∈ ordered) :
    DependenciesFirst next (ordered ++ [a]) where
  once := by
    rw [List.nodup_append]
    refine ⟨order.once, List.nodup_singleton a, ?_⟩
    rintro b member c last rfl
    exact new (List.mem_singleton.mp last ▸ member)
  first before b behind split := by
    rcases List.append_eq_append_iff.mp split with ⟨more, here, tail⟩ | ⟨more, here, tail⟩
    · -- The node is the last one.
      cases more with
      | nil =>
        simp only [List.nil_append, List.cons.injEq] at tail
        rw [here, List.append_nil, ← tail.1]
        exact ⟨ds, known, there⟩
      | cons c more => simp at tail
    · cases more with
      | nil =>
        simp only [List.nil_append, List.cons.injEq] at tail
        rw [List.append_nil] at here
        rw [← here, tail.1]
        exact ⟨ds, known, there⟩
      | cons c more =>
        obtain ⟨rfl, -⟩ : b = c ∧ _ := by simpa using tail
        exact order.first before b more here

/-- What is reached from an ordered node is ordered as well. -/
theorem mem_of_reached (order : DependenciesFirst next ordered) {a b : α} (member : a ∈ ordered)
    (reached : Relation.ReflTransGen (DependsOn next) a b) : b ∈ ordered := by
  induction reached with
  | refl => exact member
  | tail _ step ih =>
    obtain ⟨ds, known, dependency⟩ := step
    obtain ⟨before, behind, split⟩ := List.append_of_mem ih
    obtain ⟨ds', known', first⟩ := order.first before _ behind split
    rw [known] at known'
    cases known'
    rw [split]
    exact List.mem_append_left _ (first _ dependency)

end DependenciesFirst

variable {next : α → Option (List α)}

/-- A node from which no cycle and no infinite chain can be reached. -/
def Grounded (next : α → Option (List α)) (a : α) : Prop := Acc (fun b a => DependsOn next a b) a

/-- What a visit that returns has done. -/
structure Visited (next : α → Option (List α)) (ordered : List α) (roots : α → Prop)
    (out : List α) : Prop where
  kept : ordered <+: out
  order : DependenciesFirst next out
  there : ∀ a, roots a → a ∈ out
  grounded : ∀ a ∈ out, Grounded next a
  sound : ∀ b ∈ out, b ∈ ordered ∨ ∃ a, roots a ∧ Relation.ReflTransGen (DependsOn next) a b

/-- A node on a cycle is not grounded. -/
theorem Grounded.not_cycle {a : α} (grounded : Grounded next a) :
    ¬ Relation.TransGen (DependsOn next) a a := by
  induction grounded with
  | intro a _ ih =>
    intro cycle
    -- The cycle can be entered at the first dependency as well.
    obtain ⟨b, first, rest⟩ := Relation.TransGen.head'_iff.mp cycle
    exact ih b first (Relation.TransGen.tail' rest first)

/-- No cycle can be reached from the node. -/
def NoCycle (next : α → Option (List α)) (a : α) : Prop :=
  ∀ b, Relation.ReflTransGen (DependsOn next) a b → ¬ Relation.TransGen (DependsOn next) b b

/-- Among finitely many nodes there is no infinite chain without a cycle. -/
theorem NoCycle.grounded {a : α} (acyclic : NoCycle next a) (nodes : List α)
    (inside : ∀ b, Relation.ReflTransGen (DependsOn next) a b → b ∈ nodes) : Grounded next a := by
  let Reached := { b // Relation.ReflTransGen (DependsOn next) a b }
  let below (x y : Reached) : Prop := Relation.TransGen (DependsOn next) y.1 x.1
  have : Finite Reached :=
    (nodes.finite_toSet.subset fun b reached => inside b reached).to_subtype
  have : IsTrans Reached below := ⟨fun _ _ _ first second => second.trans first⟩
  have : Std.Irrefl below := ⟨fun x => acyclic x.1 x.2⟩
  have wellFounded := Finite.wellFounded_of_trans_of_irrefl below
  -- A dependency of a node that is reached is reached as well.
  have each (x : Reached) : Grounded next x.1 := by
    induction x using wellFounded.induction with
    | _ x ih =>
      refine Acc.intro x.1 fun b depends => ?_
      exact ih ⟨b, x.2.tail depends⟩ (.single depends)
  exact each ⟨a, .refl⟩

theorem Grounded.noCycle {a : α} (grounded : Grounded next a) : NoCycle next a := by
  intro b reached
  have below : Grounded next b := by
    induction reached with
    | refl => exact grounded
    | tail _ step ih => exact ih.inv step
  exact below.not_cycle

variable [DecidableEq α]

theorem visit_all {fuel : Nat} {ds : List α}
    (one : ∀ ordered a out, visit next fuel ordered a = .ok out → DependenciesFirst next ordered →
      (∀ b ∈ ordered, Grounded next b) → Visited next ordered (· = a) out)
    {ordered out : List α} (done : ds.foldlM (visit next fuel) ordered = .ok out)
    (order : DependenciesFirst next ordered) (grounded : ∀ b ∈ ordered, Grounded next b) :
    Visited next ordered (· ∈ ds) out := by
  induction ds generalizing ordered with
  | nil =>
    cases done
    exact ⟨List.prefix_refl _, order, by simp, grounded, fun b member => .inl member⟩
  | cons d ds ih =>
    rw [List.foldlM_cons] at done
    cases first : visit next fuel ordered d with
    | error e => simp [first, bind, Except.bind] at done
    | ok middle =>
      rw [first] at done
      have here := one ordered d middle first order grounded
      have later := ih done here.order here.grounded
      refine ⟨here.kept.trans later.kept, later.order, ?_, later.grounded, fun b member => ?_⟩
      · rintro a (_ | ⟨_, member⟩)
        · exact later.kept.subset (here.there d rfl)
        · exact later.there a member
      · rcases later.sound b member with old | ⟨a, root, path⟩
        · rcases here.sound b old with old | ⟨a, rfl, path⟩
          · exact .inl old
          · exact .inr ⟨a, List.mem_cons_self, path⟩
        · exact .inr ⟨a, List.mem_cons_of_mem d root, path⟩

/-- A visit that returns has put the node and what it depends on in order. -/
theorem visit_ok {fuel : Nat} {ordered out : List α} {a : α}
    (done : visit next fuel ordered a = .ok out) (order : DependenciesFirst next ordered)
    (grounded : ∀ b ∈ ordered, Grounded next b) : Visited next ordered (· = a) out := by
  induction fuel generalizing ordered out a with
  | zero => cases done
  | succ fuel ih =>
    rw [visit] at done
    split at done
    next member =>
      cases done
      exact ⟨List.prefix_refl _, order, fun b same => same ▸ member, grounded,
        fun b member => .inl member⟩
    next new =>
      split at done
      · cases done
      next ds known =>
        cases inner : ds.foldlM (visit next fuel) ordered with
        | error e => simp [inner, Except.map] at done
        | ok middle =>
          rw [inner] at done
          cases done
          have all := visit_all (fun ordered a out => ih) inner order grounded
          have own : Grounded next a := by
            refine Acc.intro a fun b ⟨ds', known', member⟩ => ?_
            rw [known] at known'
            cases known'
            exact all.grounded b (all.there b member)
          -- Were the node in the order by now, it would depend on itself.
          have absent : a ∉ middle := by
            intro member
            rcases all.sound a member with old | ⟨d, dependency, path⟩
            · exact new old
            · exact own.not_cycle (.head' ⟨ds, known, dependency⟩ path)
          refine ⟨all.kept.trans (List.prefix_append _ _), all.order.concat absent known all.there,
            fun b same => by simp [same], fun b member => ?_, fun b member => ?_⟩
          · rcases List.mem_append.mp member with front | last
            · exact all.grounded b front
            · exact List.mem_singleton.mp last ▸ own
          · rcases List.mem_append.mp member with front | last
            · rcases all.sound b front with old | ⟨d, dependency, path⟩
              · exact .inl old
              · exact .inr ⟨a, rfl, .head ⟨ds, known, dependency⟩ path⟩
            · exact .inr ⟨a, rfl, List.mem_singleton.mp last ▸ .refl⟩

/-- A grounded node whose dependencies are all known is visited, if the recursion may be deep enough. -/
theorem Grounded.visit_returns {a : α} (grounded : Grounded next a)
    (known : ∀ b, Relation.ReflTransGen (DependsOn next) a b → (next b).isSome = true) :
    ∃ depth, ∀ fuel ≥ depth, ∀ ordered, ∃ out, visit next fuel ordered a = .ok out := by
  induction grounded with
  | intro a _ ih =>
    obtain ⟨ds, here⟩ := Option.isSome_iff_exists.mp (known a .refl)
    have each : ∀ d ∈ ds, ∃ depth, ∀ fuel ≥ depth, ∀ ordered, ∃ out,
        visit next fuel ordered d = .ok out := fun d member =>
      ih d ⟨ds, here, member⟩ fun b path => known b (.head ⟨ds, here, member⟩ path)
    -- The dependencies are finitely many, so one depth is enough for all.
    obtain ⟨depth, enough⟩ : ∃ depth, ∀ fuel ≥ depth, ∀ ordered, ∃ out,
        ds.foldlM (visit next fuel) ordered = .ok out := by
      clear here
      induction ds with
      | nil => exact ⟨0, fun fuel _ ordered => ⟨ordered, rfl⟩⟩
      | cons d ds more =>
        obtain ⟨m, first⟩ := each d List.mem_cons_self
        obtain ⟨n, rest⟩ := more fun e member => each e (List.mem_cons_of_mem d member)
        refine ⟨max m n, fun fuel large ordered => ?_⟩
        obtain ⟨middle, done⟩ := first fuel (le_trans (le_max_left m n) large) ordered
        obtain ⟨out, finished⟩ := rest fuel (le_trans (le_max_right m n) large) middle
        refine ⟨out, ?_⟩
        rw [List.foldlM_cons, done]
        exact finished
    refine ⟨depth + 1, fun fuel large ordered => ?_⟩
    obtain ⟨fuel, rfl⟩ := Nat.exists_eq_add_one_of_ne_zero (show fuel ≠ 0 by omega)
    rw [visit, here]
    by_cases member : a ∈ ordered
    · exact ⟨ordered, if_pos member⟩
    · obtain ⟨out, done⟩ := enough fuel (by omega) ordered
      rw [if_neg member]
      exact ⟨out ++ [a], by simp [done, Except.map]⟩

end Base
