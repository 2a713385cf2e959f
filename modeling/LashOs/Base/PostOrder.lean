import Mathlib
import LashOs.Base.Exploration

/-!
# Depth-first postorder

A depth-first traversal of a finite graph with an explicit stack. Each entry of the stack is a
node with those of its children that were not looked at yet. A node is finished when none is
left. Every node that can be reached is finished exactly once.
-/

namespace Base

variable {α : Type}

section Loop

variable [DecidableEq α]

/-- The traversal from a stack on. -/
def postOrderLoop (all : List α) (complete : ∀ a, a ∈ all) (next : α → List α) (visited : List α)
    (stack : List (α × List α)) (finished : List α) : List α :=
  match stack with
  | [] => finished
  | (a, []) :: rest => postOrderLoop all complete next visited rest (finished ++ [a])
  | (a, child :: more) :: rest =>
    if child ∈ visited then postOrderLoop all complete next visited ((a, more) :: rest) finished
    else
      postOrderLoop all complete next (child :: visited)
        ((child, next child) :: (a, more) :: rest) finished
termination_by (remaining all visited, (stack.map fun entry => entry.2.length + 1).sum)
decreasing_by
  · exact Prod.Lex.right _ (by simp)
  · exact Prod.Lex.right _ (by simp)
  next new => exact Prod.Lex.left _ _ (remaining_cons_lt (complete child) new)

/-- The nodes in the order in which they are finished. -/
def postOrder (all : List α) (complete : ∀ a, a ∈ all) (next : α → List α) (entry : α) : List α :=
  postOrderLoop all complete next [entry] [(entry, next entry)] []

end Loop

/-- What holds of the traversal at every point. -/
structure Traverses (next : α → List α) (entry : α) (visited : List α) (stack : List (α × List α))
    (finished : List α) : Prop where
  start : entry ∈ visited
  once : (finished ++ stack.map Prod.fst).Nodup
  seen : ∀ a, a ∈ visited ↔ a ∈ finished ∨ a ∈ stack.map Prod.fst
  sound : ∀ a ∈ visited, Relation.ReflTransGen (fun a b => b ∈ next a) entry a
  closed : ∀ a ∈ finished, ∀ b ∈ next a, b ∈ visited
  left : ∀ node ∈ stack, ∀ b ∈ next node.1, b ∈ visited ∨ b ∈ node.2
  children : ∀ node ∈ stack, ∀ b ∈ node.2, b ∈ next node.1

variable {next : α → List α} {entry : α} {visited finished : List α} {stack : List (α × List α)}

theorem Traverses.init : Traverses next entry [entry] [(entry, next entry)] [] where
  start := List.mem_singleton_self entry
  once := by simp
  seen a := by simp
  sound a member := by
    rw [List.mem_singleton.mp member]
  closed a member := by cases member
  left node member b child := by
    rw [List.mem_singleton.mp member] at child ⊢
    exact Or.inr child
  children node member b child := by
    rw [List.mem_singleton.mp member] at child ⊢
    exact child

/-- A node without children that are left is finished. -/
theorem Traverses.finish {a : α}
    (traverses : Traverses next entry visited ((a, []) :: stack) finished) :
    Traverses next entry visited stack (finished ++ [a]) where
  start := traverses.start
  once := by
    have once := traverses.once
    rw [List.map_cons] at once
    rwa [List.append_assoc]
  seen b := by
    rw [traverses.seen, List.map_cons, List.mem_cons, List.mem_append, List.mem_singleton, or_assoc]
  sound := traverses.sound
  closed b member c child := by
    rcases List.mem_append.mp member with before | last
    · exact traverses.closed b before c child
    · rw [List.mem_singleton.mp last] at child
      exact (traverses.left (a, []) List.mem_cons_self c child).resolve_right (by simp)
  left node member := traverses.left node (List.mem_cons_of_mem _ member)
  children node member := traverses.children node (List.mem_cons_of_mem _ member)

/-- A child that was visited before is passed over. -/
theorem Traverses.pass {a child : α} {more : List α}
    (traverses : Traverses next entry visited ((a, child :: more) :: stack) finished)
    (old : child ∈ visited) : Traverses next entry visited ((a, more) :: stack) finished where
  start := traverses.start
  once := traverses.once
  seen := traverses.seen
  sound := traverses.sound
  closed := traverses.closed
  left node member b edge := by
    rcases List.mem_cons.mp member with rfl | member
    · rcases traverses.left _ List.mem_cons_self b edge with seen | later
      · exact Or.inl seen
      · rcases List.mem_cons.mp later with rfl | later
        · exact Or.inl old
        · exact Or.inr later
    · exact traverses.left node (List.mem_cons_of_mem _ member) b edge
  children node member b later := by
    rcases List.mem_cons.mp member with rfl | member
    · exact traverses.children _ List.mem_cons_self b (List.mem_cons_of_mem child later)
    · exact traverses.children node (List.mem_cons_of_mem _ member) b later

/-- A child that is new is visited and put on the stack with its own children. -/
theorem Traverses.visit {a child : α} {more : List α}
    (traverses : Traverses next entry visited ((a, child :: more) :: stack) finished)
    (new : child ∉ visited) :
    Traverses next entry (child :: visited) ((child, next child) :: (a, more) :: stack)
      finished := by
  have edge : child ∈ next a :=
    traverses.children (a, child :: more) List.mem_cons_self child List.mem_cons_self
  have parent : a ∈ visited := (traverses.seen a).mpr (Or.inr List.mem_cons_self)
  -- What is finished or on the stack was visited, and the child was not.
  have apart : child ∉ finished ++ (a :: stack.map Prod.fst) := fun member =>
    new ((traverses.seen child).mpr (List.mem_append.mp member))
  refine ⟨List.mem_cons_of_mem child traverses.start, ?_, fun b => ?_, fun b member => ?_,
    fun b member c leads => ?_, fun node member b leads => ?_, fun node member b leads => ?_⟩
  · rw [List.map_cons, List.nodup_middle]
    exact List.nodup_cons.mpr ⟨apart, traverses.once⟩
  · have before := traverses.seen b
    simp only [List.map_cons, List.mem_cons] at before ⊢
    rw [before]
    exact or_left_comm
  · rcases List.mem_cons.mp member with rfl | before
    · exact (traverses.sound a parent).tail edge
    · exact traverses.sound b before
  · exact List.mem_cons_of_mem child (traverses.closed b member c leads)
  · rcases List.mem_cons.mp member with rfl | member
    · exact Or.inr leads
    rcases List.mem_cons.mp member with rfl | member
    · rcases traverses.left _ List.mem_cons_self b leads with seen | later
      · exact Or.inl (List.mem_cons_of_mem child seen)
      · rcases List.mem_cons.mp later with rfl | later
        · exact Or.inl List.mem_cons_self
        · exact Or.inr later
    · rcases traverses.left node (List.mem_cons_of_mem _ member) b leads with seen | later
      · exact Or.inl (List.mem_cons_of_mem child seen)
      · exact Or.inr later
  · rcases List.mem_cons.mp member with rfl | member
    · exact leads
    rcases List.mem_cons.mp member with rfl | member
    · exact traverses.children _ List.mem_cons_self b (List.mem_cons_of_mem child leads)
    · exact traverses.children node (List.mem_cons_of_mem _ member) b leads

variable [DecidableEq α] (all : List α) (complete : ∀ a, a ∈ all)

/-- The loop ends with an empty stack. -/
theorem Traverses.postOrderLoop (traverses : Traverses next entry visited stack finished) :
    ∃ visited', Traverses next entry visited' []
      (postOrderLoop all complete next visited stack finished) := by
  fun_induction Base.postOrderLoop all complete next visited stack finished with
  | case1 visited finished => exact ⟨visited, traverses⟩
  | case2 visited finished a rest ih => exact ih traverses.finish
  | case3 visited finished a child more rest old ih => exact ih (traverses.pass old)
  | case4 visited finished a child more rest new ih => exact ih (traverses.visit new)

theorem nodup_postOrder (entry : α) : (postOrder all complete next entry).Nodup := by
  obtain ⟨visited, traverses⟩ :=
    (Traverses.init : Traverses next entry _ _ _).postOrderLoop all complete
  simpa [postOrder] using traverses.once

/-- What is finished is what can be reached. -/
theorem mem_postOrder_iff {entry a : α} : a ∈ postOrder all complete next entry ↔
    Relation.ReflTransGen (fun a b => b ∈ next a) entry a := by
  obtain ⟨visited, traverses⟩ :=
    (Traverses.init : Traverses next entry _ _ _).postOrderLoop all complete
  have same : ∀ b, b ∈ visited ↔ b ∈ postOrder all complete next entry := fun b => by
    rw [traverses.seen]
    simp [postOrder]
  -- The stack is empty in the end: all that was visited is finished, and so are its children.
  refine ⟨fun member => traverses.sound a ((same a).mpr member), fun path => ?_⟩
  induction path with
  | refl => exact (same entry).mp traverses.start
  | tail _ edge ih => exact (same _).mp (traverses.closed _ ih _ edge)

end Base
