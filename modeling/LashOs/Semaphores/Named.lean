import Mathlib.Data.List.FinRange
import Mathlib.Tactic.Ring
import LashOs.Base.Counted
import LashOs.Base.Run
import LashOs.Errno

/-!
# Named semaphores

The table of `named_sem_host.h` over libc's own counts of named semaphores. Handles are
table indices; a semaphore that is open has one slot, whose count is libc's.
-/
namespace LashOs.Semaphores

open Base

/-- `MAX_NAMED_SEMAPHORES` -/
def maxNamedSemaphores : Nat := 64

/-- `UINT_MAX` -/
def uintMax : Nat := 2 ^ 32 - 1

/-- `EOVERFLOW` -/
def eoverflow : Errno := .other 75

abbrev Slot : Type := Fin maxNamedSemaphores

/-- `struct named_semaphores`. The null pointer is 0. -/
structure NamedSemaphores where
  objects : Slot → Nat
  references : Slot → Nat

/-- The process: its table, and what libc has open of the semaphores `κ`. -/
structure State (κ : Type) where
  table : NamedSemaphores
  libc : Counted κ

def State.start {κ : Type} : State κ := ⟨⟨fun _ => 0, fun _ => 0⟩, .empty⟩

/-- What the loop of `open_named_semaphore` finds. -/
inductive Scan where
  | found (i : Slot)
  | unknown (freeSlot : Option Slot)

/-- The loop over the slots that are left; the first unused one is remembered. -/
def scan (t : NamedSemaphores) (object : Nat) : Option Slot → List Slot → Scan
  | freeSlot, [] => .unknown freeSlot
  | freeSlot, i :: rest =>
    if t.references i = 0 then scan t object (freeSlot.or (some i)) rest
    else if t.objects i = object then .found i
    else scan t object freeSlot rest

section Calls

variable {κ : Type}

/-- `open_named_semaphore`. `sem_open` fails, or finds the semaphore `k`; `fresh` is where it
maps one that was not open. The compensating `sem_close` succeeds. -/
def openNamedSemaphore [DecidableEq κ] (s : State κ) (found : Except Errno κ) (fresh : Nat) :
    State κ × Except Errno Nat :=
  match found with
  | .error e => (s, .error e)
  | .ok k =>
    let object := s.libc.opened k fresh
    let libc := s.libc.openOne k fresh
    match scan s.table object none (List.finRange maxNamedSemaphores) with
    | .found i =>
      if s.table.references i = uintMax then
        ({ s with libc := libc.closeOne object }, .error eoverflow)
      else
        (⟨{ s.table with
            references := Function.update s.table.references i (s.table.references i + 1) }, libc⟩,
          .ok (i + 1))
    | .unknown none => ({ s with libc := libc.closeOne object }, .error .EMFILE)
    | .unknown (some i) =>
      (⟨⟨Function.update s.table.objects i object, Function.update s.table.references i 1⟩, libc⟩,
        .ok (i + 1))

/-- `sem_close`, which fails without effect or undoes one open. -/
def semClose (libc : Counted κ) (object : Nat) (fault : Option Errno) :
    Except Errno (Counted κ) :=
  match fault with
  | some e => .error e
  | none => if libc.opens object = 0 then .error .EINVAL else .ok (libc.closeOne object)

/-- The body of `close_named_semaphore` for a slot that is in use. -/
def closeSlot (s : State κ) (i : Slot) (fault : Option Errno) : State κ × Except Errno Nat :=
  match semClose s.libc (s.table.objects i) fault with
  | .error e => (s, .error e)
  | .ok libc =>
    let references := Function.update s.table.references i (s.table.references i - 1)
    (⟨⟨if references i = 0 then Function.update s.table.objects i 0 else s.table.objects,
      references⟩, libc⟩, .ok 0)

def closeNamedSemaphore (s : State κ) (handle : Nat) (fault : Option Errno) :
    State κ × Except Errno Nat :=
  if handle = 0 then (s, .error .EINVAL)
  else if inside : handle - 1 < maxNamedSemaphores then
    if s.table.references ⟨handle - 1, inside⟩ = 0 then (s, .error .EINVAL)
    else closeSlot s ⟨handle - 1, inside⟩ fault
  else (s, .error .EINVAL)

theorem closeNamedSemaphore_slot (s : State κ) (i : Slot) (fault : Option Errno)
    (used : s.table.references i ≠ 0) :
    closeNamedSemaphore s (i + 1) fault = closeSlot s i fault := by
  have inside : i.val + 1 - 1 < maxNamedSemaphores := i.isLt
  rw [closeNamedSemaphore, if_neg (Nat.succ_ne_zero _), dif_pos inside]
  exact if_neg used

theorem closeSlot_ok {s s' : State κ} {i : Slot} {fault : Option Errno} {rc : Nat}
    (ok : closeSlot s i fault = (s', .ok rc)) :
    fault = none ∧ s'.libc = s.libc.closeOne (s.table.objects i) ∧
      s'.table.references = Function.update s.table.references i (s.table.references i - 1) ∧
      s'.table.objects = if s.table.references i - 1 = 0 then
        Function.update s.table.objects i 0 else s.table.objects := by
  unfold closeSlot semClose at ok
  cases fault with
  | some e => cases ok
  | none =>
    dsimp only at ok
    by_cases closed : s.libc.opens (s.table.objects i) = 0
    · rw [if_pos closed] at ok
      cases ok
    · rw [if_neg closed] at ok
      cases ok
      refine ⟨rfl, rfl, rfl, ?_⟩
      dsimp only
      rw [Function.update_self]

/-- The inner loop of `close_named_semaphores`. The call at a slot with `n` references left
has the outcome `fault n`. -/
def drainSlot (fault : Nat → Option Errno) (i : Slot) (s : State κ) : State κ :=
  if _used : s.table.references i = 0 then s
  else
    match _closed : closeNamedSemaphore s (i + 1) (fault (s.table.references i)) with
    | (s', .ok _) => drainSlot fault i s'
    | (s', .error _) => s'
  termination_by s.table.references i
  decreasing_by
    rw [closeNamedSemaphore_slot s i _ _used] at _closed
    rw [(closeSlot_ok _closed).2.2.1, Function.update_self]
    omega

/-- `close_named_semaphores` -/
def closeNamedSemaphores (s : State κ) (fault : Slot → Nat → Option Errno) : State κ :=
  (List.finRange maxNamedSemaphores).foldl (fun s i => drainSlot (fault i) i s) s

/-! ### Runs -/

inductive Call (κ : Type) where
  | opens (found : Except Errno κ) (fresh : Nat)
  | closes (handle : Nat) (fault : Option Errno)
  | closeAll (fault : Slot → Nat → Option Errno)

def State.call [DecidableEq κ] (s : State κ) : Call κ → State κ × Except Errno Nat
  | .opens found fresh => openNamedSemaphore s found fresh
  | .closes handle fault => closeNamedSemaphore s handle fault
  | .closeAll fault => (closeNamedSemaphores s fault, .ok 0)

def step [DecidableEq κ] (s : State κ) (call : Call κ) : State κ := (s.call call).1

/-- `sem_open` gives a semaphore that is not open a pointer that is not in use. -/
def Allowed (s : State κ) : Call κ → Prop
  | .opens (.ok k) fresh => fresh ≠ 0 ∧ s.libc.Fresh k fresh
  | _ => True

end Calls

/-! ### The table mirrors libc -/

/-- Each slot counts what libc counts for its object; used slots hold distinct objects and
unused ones none; and every semaphore that is open has a slot. -/
structure Mirrors {κ : Type} (s : State κ) : Prop where
  libc : s.libc.Valid
  null : s.libc.opens 0 = 0
  count : ∀ i, s.table.references i = s.libc.opens (s.table.objects i)
  unused : ∀ i, s.table.references i = 0 → s.table.objects i = 0
  distinct : ∀ i j, s.table.references i ≠ 0 → s.table.objects i = s.table.objects j → i = j
  small : ∀ i, s.table.references i ≤ uintMax
  complete : ∀ p, 0 < s.libc.opens p → ∃ i, s.table.objects i = p

section Mirrors

variable {κ : Type} {s : State κ}

theorem start_mirrors : Mirrors (State.start : State κ) where
  libc := Counted.empty_valid
  null := rfl
  count _ := rfl
  unused _ _ := rfl
  distinct _ _ used := absurd rfl used
  small _ := Nat.zero_le _
  complete _ open_ := absurd open_ (Nat.lt_irrefl 0)

variable {i : Slot}

theorem Mirrors.object_ne_zero (mirrors : Mirrors s) (used : s.table.references i ≠ 0) :
    s.table.objects i ≠ 0 := by
  intro null
  rw [mirrors.count, null, mirrors.null] at used
  exact used rfl

theorem scan_found {t : NamedSemaphores} {object : Nat} {freeSlot : Option Slot} {slots : List Slot}
    (found : scan t object freeSlot slots = .found i) :
    t.references i ≠ 0 ∧ t.objects i = object := by
  induction slots generalizing freeSlot with
  | nil => cases found
  | cons j rest ih =>
    unfold scan at found
    by_cases free : t.references j = 0
    · rw [if_pos free] at found
      exact ih found
    · rw [if_neg free] at found
      by_cases same : t.objects j = object
      · rw [if_pos same] at found
        cases found
        exact ⟨free, same⟩
      · rw [if_neg same] at found
        exact ih found

/-- Otherwise no slot is in use for the object, and the one it remembers is free. -/
theorem scan_unknown {t : NamedSemaphores} {object : Nat} {freeSlot free : Option Slot}
    {slots : List Slot} (unknown : scan t object freeSlot slots = .unknown free) :
    (∀ i ∈ slots, t.references i ≠ 0 → t.objects i ≠ object) ∧
    ∀ i, free = some i → freeSlot = some i ∨ t.references i = 0 := by
  -- The induction is for every slot remembered so far.
  induction slots generalizing freeSlot with
  | nil =>
    cases unknown
    exact ⟨fun i member => (List.not_mem_nil member).elim, fun i here => .inl here⟩
  | cons j rest ih =>
    unfold scan at unknown
    by_cases unused : t.references j = 0
    · rw [if_pos unused] at unknown
      obtain ⟨absent, chosen⟩ := ih unknown
      refine ⟨fun i member used => ?_, fun i here => ?_⟩
      · rcases List.mem_cons.mp member with rfl | later
        · exact absurd unused used
        · exact absent i later used
      · rcases chosen i here with first | free
        · cases freeSlot with
          | none =>
            cases first
            exact .inr unused
          | some k => exact .inl first
        · exact .inr free
    · rw [if_neg unused] at unknown
      by_cases same : t.objects j = object
      · rw [if_pos same] at unknown
        cases unknown
      · rw [if_neg same] at unknown
        obtain ⟨absent, chosen⟩ := ih unknown
        refine ⟨fun i member used => ?_, chosen⟩
        rcases List.mem_cons.mp member with rfl | later
        · exact same
        · exact absent i later used

/-! ### Opening -/

section Open

variable [DecidableEq κ] {k : κ} {fresh : Nat}

omit [DecidableEq κ] in
theorem Mirrors.opened_ne_zero (mirrors : Mirrors s) (nonnull : fresh ≠ 0) :
    s.libc.opened k fresh ≠ 0 := by
  unfold Counted.opened
  cases here : s.libc.pointer k with
  | none => exact nonnull
  | some p =>
    rintro rfl
    have := (mirrors.libc.counted _).mpr ⟨k, here⟩
    rw [mirrors.null] at this
    omega

theorem open_error (mirrors : Mirrors s) {found : Except Errno κ}
    (allowed : Allowed s (.opens found fresh)) {e : Errno}
    (failed : (openNamedSemaphore s found fresh).2 = .error e) :
    (openNamedSemaphore s found fresh).1 = s := by
  unfold openNamedSemaphore at failed ⊢
  cases found with
  | error e' => rfl
  | ok k =>
    have undone := mirrors.libc.closeOne_openOne allowed.2
    dsimp only at failed ⊢
    split
    · split
      · rw [undone]
      · rename_i i result counted
        rw [result] at failed
        dsimp only at failed
        rw [if_neg counted] at failed
        cases failed
    · rw [undone]
    · rename_i i result
      rw [result] at failed
      cases failed

/-- An open that succeeds counts up at one slot, which holds the object already or was free
while no slot holds it. -/
structure Opened (s s' : State κ) (k : κ) (fresh : Nat) (i : Slot) : Prop where
  libc : s'.libc = s.libc.openOne k fresh
  references : s'.table.references = Function.update s.table.references i (s.table.references i + 1)
  objects : s'.table.objects = Function.update s.table.objects i (s.libc.opened k fresh)
  small : s.table.references i < uintMax
  count : s.table.references i = s.libc.opens (s.libc.opened k fresh)
  same : s.table.references i ≠ 0 → s.table.objects i = s.libc.opened k fresh

theorem open_ok (mirrors : Mirrors s) {s' : State κ} {h : Nat}
    (ok : openNamedSemaphore s (.ok k) fresh = (s', .ok h)) :
    ∃ i : Slot, h = i + 1 ∧ Opened s s' k fresh i := by
  unfold openNamedSemaphore at ok
  dsimp only at ok
  split at ok
  · rename_i i result
    obtain ⟨used, same⟩ := scan_found result
    split at ok
    · cases ok
    · rename_i counted
      cases ok
      have small := mirrors.small i
      refine ⟨i, rfl, rfl, rfl, ?_, by omega, ?_, fun _ => same⟩
      · rw [← same, Function.update_eq_self]
      · rw [mirrors.count, same]
  · cases ok
  · rename_i i result
    cases ok
    obtain ⟨absent, free⟩ := scan_unknown result
    have unused : s.table.references i = 0 := (free i rfl).resolve_left (by simp)
    have closed : s.libc.opens (s.libc.opened k fresh) = 0 := by
      -- A semaphore that is open has a slot, which the scan would have found.
      by_contra open_
      obtain ⟨j, here⟩ := mirrors.complete _ (Nat.pos_of_ne_zero open_)
      refine absent j (List.mem_finRange j) ?_ here
      rw [mirrors.count, here]
      exact open_
    refine ⟨i, rfl, rfl, ?_, rfl, ?_, ?_, fun used => absurd unused used⟩
    · rw [unused]
    · rw [unused]
      decide
    · rw [unused, closed]

theorem Opened.mirrors {s' : State κ} {i : Slot} (opened : Opened s s' k fresh i)
    (mirrors : Mirrors s) (allowed : Allowed s (.opens (.ok k) fresh)) : Mirrors s' := by
  have object := mirrors.opened_ne_zero (k := k) allowed.1
  -- Another slot does not hold the object.
  have other : ∀ j, j ≠ i → s.table.objects j ≠ s.libc.opened k fresh := by
    intro j differ here
    have count := mirrors.count j
    rw [here, ← opened.count] at count
    by_cases used : s.table.references i = 0
    · rw [used] at count
      exact object ((mirrors.unused j count).symm.trans here).symm
    · exact differ (mirrors.distinct i j used ((opened.same used).trans here.symm)).symm
  have slot : ∀ j, s'.table.objects j = s.libc.opened k fresh ↔ j = i := by
    intro j
    rw [opened.objects, Function.update_apply]
    by_cases here : j = i
    · simp [here]
    · simp [here, other j here]
  constructor
  case libc =>
    rw [opened.libc]
    exact mirrors.libc.openOne allowed.2
  case null =>
    rw [opened.libc, Counted.opens_openOne, Function.update_of_ne (Ne.symm object), mirrors.null]
  case count =>
    intro j
    rw [opened.libc, opened.references, opened.objects, Counted.opens_openOne]
    by_cases here : j = i
    · subst here
      rw [Function.update_self, Function.update_self, Function.update_self, opened.count]
    · rw [Function.update_of_ne here, Function.update_of_ne here,
        Function.update_of_ne (other j here), mirrors.count]
  case unused =>
    intro j zero
    rw [opened.references, Function.update_apply] at zero
    split at zero
    · omega
    · rename_i here
      rw [opened.objects, Function.update_of_ne here, mirrors.unused j zero]
  case distinct =>
    intro j l used same
    by_cases here : j = i
    · exact here.trans ((slot l).mp (same.symm.trans ((slot j).mpr here))).symm
    · have there : l ≠ i := fun there => here ((slot j).mp (same.trans ((slot l).mpr there)))
      rw [opened.references, Function.update_of_ne here] at used
      rw [opened.objects, Function.update_of_ne here, Function.update_of_ne there] at same
      exact mirrors.distinct j l used same
  case small =>
    intro j
    rw [opened.references, Function.update_apply]
    have small := opened.small
    split
    · omega
    · exact mirrors.small j
  case complete =>
    intro p open_
    by_cases here : p = s.libc.opened k fresh
    · exact ⟨i, by rw [here]; exact (slot i).mpr rfl⟩
    · rw [opened.libc, Counted.opens_openOne, Function.update_of_ne here] at open_
      obtain ⟨j, holds⟩ := mirrors.complete p open_
      refine ⟨j, ?_⟩
      rw [opened.objects, Function.update_of_ne, holds]
      -- The slot of another object is not the one that counts up.
      rintro rfl
      by_cases used : s.table.references j = 0
      · rw [← holds, mirrors.unused j used, mirrors.null] at open_
        omega
      · exact here (holds.symm.trans (opened.same used))

end Open

/-! ### Closing -/

/-- The second state has undone some opens of the first. -/
structure Shrinks (s s' : State κ) : Prop where
  mirrors : Mirrors s'
  opens : ∀ p, s'.libc.opens p ≤ s.libc.opens p
  pointer : ∀ k, s'.libc.pointer k = none ∨ s'.libc.pointer k = s.libc.pointer k
  objects : ∀ i, s.table.references i ≠ 0 → s'.libc.opens (s.table.objects i) ≠ 0 →
    s'.table.objects i = s.table.objects i

theorem Mirrors.shrinks (mirrors : Mirrors s) : Shrinks s s :=
  ⟨mirrors, fun _ => Nat.le_refl _, fun _ => .inr rfl, fun _ _ _ => rfl⟩

theorem Shrinks.trans {s₁ s₂ s₃ : State κ} (first : Shrinks s₁ s₂) (second : Shrinks s₂ s₃) :
    Shrinks s₁ s₃ where
  mirrors := second.mirrors
  opens p := Nat.le_trans (second.opens p) (first.opens p)
  pointer k := by
    rcases second.pointer k with gone | same
    · exact .inl gone
    · rw [same]
      exact first.pointer k
  objects i used open_ := by
    -- An object that is open in the end was open in between, so its slot was in use there.
    have before := second.opens (s₁.table.objects i)
    have same := first.objects i used (by omega)
    rw [← same]
    refine second.objects i ?_ (by rw [same]; exact open_)
    rw [first.mirrors.count, same]
    omega

/-- A close that succeeds counts down at one slot, which is cleared with its last reference. -/
structure ClosedOne (s s' : State κ) (i : Slot) : Prop where
  libc : s'.libc = s.libc.closeOne (s.table.objects i)
  opens : s'.libc.opens =
    Function.update s.libc.opens (s.table.objects i) (s.table.references i - 1)
  references : s'.table.references = Function.update s.table.references i (s.table.references i - 1)
  differs : ∀ j, j ≠ i → s.table.objects j ≠ s.table.objects i
  other : ∀ j, j ≠ i → s'.table.objects j = s.table.objects j
  kept : s.table.references i - 1 ≠ 0 → s'.table.objects i = s.table.objects i
  cleared : s.table.references i - 1 = 0 → s'.table.objects i = 0

variable {s' : State κ}

theorem closeSlot_closed (mirrors : Mirrors s) (used : s.table.references i ≠ 0)
    {fault : Option Errno} {rc : Nat} (ok : closeSlot s i fault = (s', .ok rc)) :
    ClosedOne s s' i := by
  obtain ⟨-, libc, references, objects⟩ := closeSlot_ok ok
  refine ⟨libc, ?_, references, fun j differ same => ?_, fun j differ => ?_, fun more => ?_,
    fun last => ?_⟩
  · rw [libc, Counted.opens_closeOne, mirrors.count i]
  · exact differ (mirrors.distinct i j used same.symm).symm
  · rw [objects]
    split
    · exact Function.update_of_ne differ _ _
    · rfl
  · rw [objects, if_neg more]
  · rw [objects, if_pos last, Function.update_self]

theorem ClosedOne.mirrors (closed : ClosedOne s s' i) (mirrors : Mirrors s)
    (used : s.table.references i ≠ 0) : Mirrors s' := by
  have object := mirrors.object_ne_zero used
  constructor
  case libc =>
    rw [closed.libc]
    exact mirrors.libc.closeOne _
  case null => rw [closed.opens, Function.update_of_ne (Ne.symm object), mirrors.null]
  case count =>
    intro j
    rw [closed.references, closed.opens]
    by_cases here : j = i
    · subst here
      rw [Function.update_self]
      -- With the last reference the slot points to nothing, of which libc has no open.
      by_cases last : s.table.references j - 1 = 0
      · rw [closed.cleared last, last, Function.update_of_ne (Ne.symm object), mirrors.null]
      · rw [closed.kept last, Function.update_self]
    · rw [Function.update_of_ne here, closed.other j here,
        Function.update_of_ne (closed.differs j here), mirrors.count]
  case unused =>
    intro j zero
    rw [closed.references, Function.update_apply] at zero
    split at zero
    · rename_i here
      rw [here]
      exact closed.cleared zero
    · rename_i here
      rw [closed.other j here, mirrors.unused j zero]
  case distinct =>
    intro j l still same
    rw [closed.references, Function.update_apply] at still
    by_cases here : j = i
    · subst here
      rw [if_pos rfl] at still
      by_contra differ
      rw [closed.kept still, closed.other l (Ne.symm differ)] at same
      exact differ (mirrors.distinct j l used same)
    · rw [if_neg here] at still
      rw [closed.other j here] at same
      by_cases there : l = i
      · subst there
        by_cases last : s.table.references l - 1 = 0
        · rw [closed.cleared last] at same
          exact absurd same (mirrors.object_ne_zero still)
        · rw [closed.kept last] at same
          exact absurd same (closed.differs j here)
      · rw [closed.other l there] at same
        exact mirrors.distinct j l still same
  case small =>
    intro j
    have bound := mirrors.small j
    have changed := mirrors.small i
    rw [closed.references, Function.update_apply]
    split <;> omega
  case complete =>
    intro p open_
    rw [closed.opens, Function.update_apply] at open_
    split at open_
    · rename_i here
      exact ⟨i, by rw [here]; exact closed.kept (by omega)⟩
    · rename_i here
      obtain ⟨j, holds⟩ := mirrors.complete p open_
      refine ⟨j, ?_⟩
      have differ : j ≠ i := by
        rintro rfl
        exact here holds.symm
      rw [closed.other j differ, holds]

theorem closeSlot_shrinks (mirrors : Mirrors s) (used : s.table.references i ≠ 0)
    {fault : Option Errno} {rc : Nat} (ok : closeSlot s i fault = (s', .ok rc)) : Shrinks s s' := by
  have closed := closeSlot_closed mirrors used ok
  refine ⟨closed.mirrors mirrors used, fun p => ?_, fun k => ?_, fun j _ open_ => ?_⟩
  · rw [closed.opens, Function.update_apply]
    split
    · rename_i here
      rw [here, ← mirrors.count i]
      omega
    · exact Nat.le_refl _
  · rw [closed.libc]
    simp only [Counted.closeOne]
    split
    · exact .inl rfl
    · exact .inr rfl
  · by_cases here : j = i
    · subst here
      rw [closed.opens, Function.update_self] at open_
      exact closed.kept open_
    · exact closed.other j here

theorem close_shrinks (mirrors : Mirrors s) (handle : Nat) (fault : Option Errno) :
    Shrinks s (closeNamedSemaphore s handle fault).1 ∧
    ∀ e, (closeNamedSemaphore s handle fault).2 = .error e →
      (closeNamedSemaphore s handle fault).1 = s := by
  unfold closeNamedSemaphore
  split
  · exact ⟨mirrors.shrinks, fun _ _ => rfl⟩
  split
  · rename_i inside
    split
    · exact ⟨mirrors.shrinks, fun _ _ => rfl⟩
    · rename_i used
      cases closed : closeSlot s ⟨handle - 1, inside⟩ fault with
      | mk s' rc =>
        cases rc with
        | ok rc => exact ⟨closeSlot_shrinks mirrors used closed, fun e failed => by cases failed⟩
        | error e =>
          have same : s' = s := by
            unfold closeSlot at closed
            split at closed
            · cases closed
              rfl
            · cases closed
          rw [same]
          exact ⟨mirrors.shrinks, fun _ _ => rfl⟩
  · exact ⟨mirrors.shrinks, fun _ _ => rfl⟩

theorem drainSlot_shrinks (fault : Nat → Option Errno) (i : Slot) (mirrors : Mirrors s) :
    Shrinks s (drainSlot fault i s) := by
  fun_induction drainSlot fault i s with
  | case1 s unused => exact mirrors.shrinks
  | case2 s used s' rc closed ih =>
    have first := (close_shrinks mirrors (i + 1) (fault (s.table.references i))).1
    rw [closed] at first
    exact first.trans (ih first.mirrors)
  -- A failing `sem_close` ends the loop over the slot and changes nothing.
  | case3 s used s' e closed =>
    have first := (close_shrinks mirrors (i + 1) (fault (s.table.references i))).1
    rw [closed] at first
    exact first

theorem drain_shrinks (fault : Slot → Nat → Option Errno) (slots : List Slot)
    (mirrors : Mirrors s) :
    Shrinks s (slots.foldl (fun s i => drainSlot (fault i) i s) s) := by
  induction slots generalizing s with
  | nil => exact mirrors.shrinks
  | cons i rest ih =>
    have first := drainSlot_shrinks (fault i) i mirrors
    exact first.trans (ih first.mirrors)

theorem drainSlot_references (i : Slot) (mirrors : Mirrors s) (j : Slot) :
    (drainSlot (fun _ => none) i s).table.references j =
      if j = i then 0 else s.table.references j := by
  generalize none_ : (fun _ => none : Nat → Option Errno) = fault
  fun_induction drainSlot fault i s with
  | case1 s unused =>
    split
    · rename_i here
      rw [here, unused]
    · rfl
  | case2 s used s' rc closed ih =>
    rw [closeNamedSemaphore_slot s i _ used] at closed
    have first := closeSlot_shrinks mirrors used closed
    rw [ih first.mirrors]
    split
    · rfl
    · rename_i here
      rw [(closeSlot_ok closed).2.2.1, Function.update_of_ne here]
  | case3 s used s' e closed =>
    -- libc has the object open, so that `sem_close` succeeds.
    have open_ : s.libc.opens (s.table.objects i) ≠ 0 := by
      rw [← mirrors.count]
      exact used
    have succeeds : fault (s.table.references i) = none := by rw [← none_]
    rw [closeNamedSemaphore_slot s i _ used, succeeds] at closed
    simp only [closeSlot, semClose, if_neg open_] at closed
    cases closed

theorem drain_references (slots : List Slot) (mirrors : Mirrors s) (j : Slot) :
    (slots.foldl (fun s i => drainSlot (fun _ => none) i s) s).table.references j =
      if j ∈ slots then 0 else s.table.references j := by
  induction slots generalizing s with
  | nil => simp
  | cons i rest ih =>
    rw [List.foldl_cons, ih (drainSlot_shrinks _ i mirrors).mirrors, drainSlot_references i mirrors]
    by_cases later : j ∈ rest
    · simp [later]
    · simp [later]

theorem closeNamedSemaphores_empties (mirrors : Mirrors s) :
    (∀ i, (closeNamedSemaphores s fun _ _ => none).table.references i = 0) ∧
    ∀ p, (closeNamedSemaphores s fun _ _ => none).libc.opens p = 0 := by
  have zero : ∀ i, (closeNamedSemaphores s fun _ _ => none).table.references i = 0 := by
    intro i
    rw [closeNamedSemaphores, drain_references _ mirrors, if_pos (List.mem_finRange i)]
  refine ⟨zero, fun p => ?_⟩
  have after := (drain_shrinks (fun _ _ => none) (List.finRange maxNamedSemaphores) mirrors).mirrors
  -- An object that is still open would have a slot with a reference.
  by_contra open_
  obtain ⟨i, here⟩ := after.complete p (Nat.pos_of_ne_zero open_)
  have count := after.count i
  rw [here] at count
  exact open_ (count.symm.trans (zero i))

/-! ### Runs -/

variable [DecidableEq κ]

theorem step_opens (mirrors : Mirrors s) {found : Except Errno κ} {fresh : Nat}
    (allowed : Allowed s (.opens found fresh)) :
    step s (.opens found fresh) = s ∨
      ∃ k i, found = .ok k ∧ Opened s (step s (.opens found fresh)) k fresh i := by
  cases opened : openNamedSemaphore s found fresh with
  | mk s' result =>
    have stepped : step s (.opens found fresh) = s' := congrArg Prod.fst opened
    rw [stepped]
    cases result with
    | error e =>
      have same := open_error mirrors allowed (congrArg Prod.snd opened)
      rw [opened] at same
      exact .inl same
    | ok h =>
      cases found with
      | error e => cases opened
      | ok k =>
        obtain ⟨i, -, slot⟩ := open_ok mirrors opened
        exact .inr ⟨k, i, rfl, slot⟩

theorem step_mirrors (s : State κ) (call : Call κ) (allowed : Allowed s call)
    (mirrors : Mirrors s) : Mirrors (step s call) := by
  cases call with
  | opens found fresh =>
    rcases step_opens mirrors allowed with same | ⟨k, i, rfl, slot⟩
    · rw [same]
      exact mirrors
    · exact slot.mirrors mirrors allowed
  | closes handle fault => exact (close_shrinks mirrors handle fault).1.mirrors
  | closeAll fault => exact (drain_shrinks fault _ mirrors).mirrors

/-- The slot `i` holds the semaphore `k`, which is open. -/
def Holds (k : κ) (i : Slot) (s : State κ) : Prop :=
  Mirrors s ∧ s.libc.pointer k = some (s.table.objects i)

omit [DecidableEq κ] in
theorem Holds.used {k : κ} (holds : Holds k i s) : s.table.references i ≠ 0 := by
  rw [holds.1.count]
  have := (holds.1.libc.counted _).mpr ⟨k, holds.2⟩
  omega

omit [DecidableEq κ] in
theorem Shrinks.holds {k : κ} (shrinks : Shrinks s s') (holds : Holds k i s)
    (remains : s'.libc.pointer k ≠ none) : Holds k i s' := by
  have pointer := (shrinks.pointer k).resolve_left remains
  have open_ := (shrinks.mirrors.libc.counted (s.table.objects i)).mpr
    ⟨k, pointer.trans holds.2⟩
  refine ⟨shrinks.mirrors, ?_⟩
  rw [pointer, holds.2, shrinks.objects i holds.used (by omega)]

theorem Opened.holds {k k' : κ} {fresh : Nat} {i j : Slot} (opened : Opened s s' k fresh j)
    (allowed : Allowed s (.opens (.ok k) fresh)) (holds : Holds k' i s) : Holds k' i s' := by
  refine ⟨opened.mirrors holds.1 allowed, ?_⟩
  have objects : s'.table.objects i = s.table.objects i := by
    rw [opened.objects, Function.update_apply]
    split
    · rename_i here
      subst here
      exact (opened.same holds.used).symm
    · rfl
  rw [opened.libc, Counted.pointer_openOne, objects, Function.update_apply]
  split
  · rename_i same
    rw [← same, Counted.opened_of_some holds.2]
  · exact holds.2

theorem step_holds {k : κ} (s : State κ) (call : Call κ) (allowed : Allowed s call)
    (remains : (step s call).libc.pointer k ≠ none) (holds : Holds k i s) :
    Holds k i (step s call) := by
  -- No call moves a semaphore that stays open: an open counts up at its slot, a close only takes
  -- references away.
  cases call with
  | opens found fresh =>
    rcases step_opens holds.1 allowed with same | ⟨k', j, rfl, slot⟩
    · rw [same]
      exact holds
    · exact slot.holds allowed holds
  | closes handle fault => exact (close_shrinks holds.1 handle fault).1.holds holds remains
  | closeAll fault => exact (drain_shrinks fault _ holds.1).holds holds remains

theorem run_holds {k : κ} {s : State κ} {calls : List (Call κ)}
    (allowed : Permits step Allowed s calls)
    (remains : Always step (fun s => s.libc.pointer k ≠ none) s calls) (holds : Holds k i s) :
    Holds k i (run step s calls) := by
  induction calls generalizing s with
  | nil => exact holds
  | cons call calls ih =>
    exact ih allowed.2 remains.2 (step_holds s call allowed.1 remains.2.start holds)

theorem handle_unique {k : κ} {fresh fresh' h h' : Nat} {s₁ s₂ : State κ}
    {calls : List (Call κ)} (mirrors : Mirrors s) (first : Allowed s (.opens (.ok k) fresh))
    (opened : openNamedSemaphore s (.ok k) fresh = (s₁, .ok h))
    (allowed : Permits step Allowed s₁ calls)
    (remains : Always step (fun s => s.libc.pointer k ≠ none) s₁ calls)
    (again : openNamedSemaphore (run step s₁ calls) (.ok k) fresh' = (s₂, .ok h')) : h' = h := by
  obtain ⟨i, rfl, slot⟩ := open_ok mirrors opened
  have holds : Holds k i s₁ := by
    refine ⟨slot.mirrors mirrors first, ?_⟩
    rw [slot.libc, slot.objects, Counted.pointer_openOne, Function.update_self,
      Function.update_self]
  -- The second open finds the slot in use, and no other slot holds the object.
  have still := run_holds allowed remains holds
  obtain ⟨j, rfl, slot'⟩ := open_ok still.1 again
  have object : (run step s₁ calls).libc.opened k fresh' = (run step s₁ calls).table.objects i :=
    Counted.opened_of_some still.2
  have used : (run step s₁ calls).table.references j ≠ 0 := by
    rw [slot'.count, object, ← still.1.count]
    exact still.used
  rw [still.1.distinct j i used ((slot'.same used).trans object)]

end Mirrors

/-- In every run the table mirrors libc's counts. A call that returns -1 changes nothing, a
semaphore that stays open keeps its handle, and `close_named_semaphores` leaves no reference
if no `sem_close` fails. -/
theorem semaphores_mirror_libc {κ : Type} [DecidableEq κ] (calls : List (Call κ))
    (allowed : Permits step Allowed State.start calls) :
    let s := run step State.start calls
    Mirrors s ∧
    (∀ call e, Allowed s call → (s.call call).2 = .error e → (s.call call).1 = s) ∧
    (∀ k fresh s₁ h, Allowed s (.opens (.ok k) fresh) →
      openNamedSemaphore s (.ok k) fresh = (s₁, .ok h) →
      ∀ later, Permits step Allowed s₁ later →
        Always step (fun s => s.libc.pointer k ≠ none) s₁ later →
        ∀ fresh' s₂ h', openNamedSemaphore (run step s₁ later) (.ok k) fresh' = (s₂, .ok h') →
          h' = h) ∧
    (∀ i, (closeNamedSemaphores s fun _ _ => none).table.references i = 0) ∧
    ∀ p, (closeNamedSemaphores s fun _ _ => none).libc.opens p = 0 := by
  intro s
  have mirrors : Mirrors s :=
    (allowed.always step_mirrors start_mirrors).final
  refine ⟨mirrors, ?_, ?_, closeNamedSemaphores_empties mirrors⟩
  · intro call e permitted failed
    cases call with
    | opens found fresh => exact open_error mirrors permitted failed
    | closes handle fault => exact (close_shrinks mirrors handle fault).2 e failed
    | closeAll fault => cases failed
  · intro k fresh s₁ h permitted opened later laterAllowed remains fresh' s₂ h' again
    exact handle_unique mirrors permitted opened laterAllowed remains again

/-- One semaphore opened twice and closed once, and another that does not exist. -/
def threeCalls : List (Call Nat) :=
  [.opens (.ok 7) 100, .opens (.error .EEXIST) 101, .opens (.ok 7) 101, .closes 1 none]

theorem threeCalls_mirror :
    Permits step Allowed State.start threeCalls ∧
    Mirrors (run step (State.start : State Nat) threeCalls) ∧
    ∃ i, (run step (State.start : State Nat) threeCalls).table.references i = 1 := by
  have allowed : Permits step Allowed (State.start : State Nat) threeCalls := by
    refine ⟨⟨by decide, fun _ => rfl⟩, trivial, ⟨by decide, fun _ => rfl⟩, trivial, trivial⟩
  exact ⟨allowed, (semaphores_mirror_libc threeCalls allowed).1, by decide +kernel⟩

end LashOs.Semaphores
