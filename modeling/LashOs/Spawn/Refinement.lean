import LashOs.Base.Run
import LashOs.Spawn.Process

/-!
# The spawned program has what the actions say

Whatever the order of the two processes: the parent's table comes back as it was, the parent
learns what happened to the child, and the program is executed with the descriptors that the
actions give it as a program on the parent's table.
-/
namespace LashOs.Spawn

open Base
open Descriptors (Descriptor maxFds)

/-! ### The parent's table -/

/-- The new numbers were free in the parent's table. -/
structure Forked.Free (k : Forked) (v : View) : Prop where
  report : v k.report = none
  readNumber : v k.readNumber = none
  differ : k.report ≠ k.readNumber

def withPipe (k : Forked) (v : View) : View := fun n =>
  if n = k.report then some ⟨k.writeEnd, true⟩
  else if n = k.readNumber then some ⟨k.readEnd, false⟩ else v n

def withRead (k : Forked) (v : View) : View := fun n =>
  if n = k.readNumber then some ⟨k.readEnd, false⟩ else v n

/-- What the parent has open besides its own table, at each point. -/
def parentView (k : Forked) (v : View) : ParentAt → View
  | .closing => withPipe k v
  | .reading => withRead k v
  | .closingRead _ => withRead k v
  | .waiting _ => v
  | .returned _ => v

variable {k : Forked} {v : View}

theorem Forked.Free.close_report (free : k.Free v) {fds : Fds Descriptor}
    (entry : fds.entry = withPipe k v) : (fds.close k.report).entry = withRead k v := by
  funext n
  rw [Fds.entry_close, entry]
  by_cases here : n = k.report
  · subst here
    simp [withRead, free.differ, free.report]
  · simp [withPipe, withRead, here]

theorem Forked.Free.close_readNumber (free : k.Free v) {fds : Fds Descriptor}
    (entry : fds.entry = withRead k v) : (fds.close k.readNumber).entry = v := by
  funext n
  rw [Fds.entry_close, entry]
  by_cases here : n = k.readNumber
  · subst here
    simp [free.readNumber]
  · simp [withRead, here]

@[simp] theorem childStep_parentAt (r : Request) (k : Forked) (s : System) :
    (childStep r k s).parentAt = s.parentAt := by
  unfold childStep
  repeat' split
  all_goals rfl

@[simp] theorem childStep_parent (r : Request) (k : Forked) (s : System) :
    (childStep r k s).parent = s.parent := by
  unfold childStep
  repeat' split
  all_goals rfl

@[simp] theorem childStep_result (r : Request) (k : Forked) (s : System) :
    (childStep r k s).result = s.result := by
  unfold childStep
  repeat' split
  all_goals rfl

theorem parentStep_view (free : k.Free v) {s : System}
    (entry : s.parent.entry = parentView k v s.parentAt) :
    (parentStep k s).parent.entry = parentView k v (parentStep k s).parentAt := by
  unfold parentStep
  cases at_ : s.parentAt with
  | closing =>
    rw [at_] at entry
    exact free.close_report entry
  | reading =>
    rw [at_] at entry
    dsimp only
    split
    · rw [at_]
      exact entry
    · exact entry
  | closingRead n =>
    rw [at_] at entry
    cases n <;> exact free.close_readNumber entry
  | waiting e =>
    rw [at_] at entry
    dsimp only
    split
    · exact entry
    · exact entry
    · rw [at_]
      exact entry
  | returned e =>
    dsimp only
    rw [at_] at entry ⊢
    exact entry

theorem step_view (r : Request) (free : k.Free v) (s : System) (turn : Turn)
    (entry : s.parent.entry = parentView k v s.parentAt) :
    (step r k s turn).parent.entry = parentView k v (step r k s turn).parentAt := by
  cases turn with
  | child =>
    simp only [step, childStep_parent, childStep_parentAt]
    exact entry
  | parent => exact parentStep_view free entry
  | interrupted => exact entry
  | readFails e =>
    simp only [step]
    split
    · rename_i reading
      split
      · exact entry
      · rw [reading] at entry
        exact entry
    · exact entry

/-! ### The child -/

def Forked.Alien (k : Forked) (file : Nat) : Prop := file = k.readEnd ∨ file = k.writeEnd

/-- The actions leave the report descriptor alone, and their files are opened without
`O_CLOEXEC`. -/
def Admissible (report : Nat) (actions : List SpawnAction) : Prop :=
  ∀ a ∈ actions, ¬ a.Names report ∧ (a.type = .openFile → a.flags.cloexec = false)

def ChildAt.written : ChildAt → Bool
  | .exiting | .exited | .reaped => true
  | _ => false

section Child

variable (r : Request) (k : Forked) (v : View)

/-- What the child has open and what is left for it to do lead to the outcome of the call. -/
def ChildInv (childAt : ChildAt) (child : Fds Descriptor) : Prop :=
  match childAt with
  | .closing => child.entry = withPipe k v
  | .attributes rest => ∃ w, Tracks k.report k.writeEnd k.Alien child w ∧
      r.configures k.report rest w = r.outcome k.report v
  | .actions position rest => ∃ w, Tracks k.report k.writeEnd k.Alien child w ∧
      Admissible k.report rest ∧ r.executes k.report position rest w = r.outcome k.report v
  | .execve => ∃ w position, Tracks k.report k.writeEnd k.Alien child w ∧
      r.executes k.report position [] w = r.outcome k.report v
  | .failed e => child.entry k.report = some ⟨k.writeEnd, true⟩ ∧
      r.outcome k.report v = .error e
  | .executed => r.outcome k.report v = .ok child.entry ∧
      ∀ n d, child.entry n = some d → ¬ k.Alien d.file
  | .exiting => True
  | .exited => ∀ n, child.entry n = none
  | .reaped => ∀ n, child.entry n = none

/-- The kernel's new files are not among the old ones. -/
structure Request.Fresh (r : Request) (k : Forked) (v : View) : Prop where
  parent : ∀ n d, v n = some d → ¬ k.Alien d.file
  found : ∀ position file, r.found position = .ok file → ¬ k.Alien file
  differ : k.readEnd ≠ k.writeEnd

variable {r : Request} {k : Forked} {v : View} {s : System}

theorem tracks_close (free : k.Free v) (fresh : r.Fresh k v)
    (small : ∀ n, maxFds ≤ n → v n = none) {child : Fds Descriptor}
    (entry : child.entry = withPipe k v) :
    Tracks k.report k.writeEnd k.Alien (child.close k.readNumber) v where
  entry n := by
    rw [Fds.entry_close, entry]
    by_cases here : n = k.readNumber
    · subst here
      simp [free.differ.symm, free.readNumber]
    · simp [withPipe, here]
  unused := free.report
  small := small
  foreign := fresh.parent

theorem Tracks.keep {report writeEnd : Nat} {alien : Nat → Prop} {child : Fds Descriptor}
    {w : View} (tracks : Tracks report writeEnd alien child w) :
    (child.keep fun d => !d.cloexec).entry = inherited w := by
  funext n
  have here : (child.keep fun d => !d.cloexec).entry n =
      (child.entry n).filter fun d => !d.cloexec := rfl
  rw [here, tracks.entry, inherited]
  by_cases same : n = report
  · -- The report descriptor is closed by `execve`, and the program has nothing there.
    rw [if_pos same, same, tracks.unused]
    rfl
  · rw [if_neg same]

theorem inherited_some {w : View} {n : Nat} {d : Descriptor} (here : inherited w n = some d) :
    w n = some d := (Option.filter_eq_some_iff.mp here).1

theorem childStep_inv (free : k.Free v) (fresh : r.Fresh k v)
    (small : ∀ n, maxFds ≤ n → v n = none) (admissible : Admissible k.report r.actions)
    (inv : ChildInv r k v s.childAt s.child) :
    ChildInv r k v (childStep r k s).childAt (childStep r k s).child := by
  -- With each call the view that the table tracks moves on, and what is left has the same outcome.
  unfold childStep
  cases at_ : s.childAt with
  | closing =>
    rw [at_] at inv
    exact ⟨v, tracks_close free fresh small inv, rfl⟩
  | attributes rest =>
    rw [at_] at inv
    obtain ⟨w, tracks, leads⟩ := inv
    cases rest with
    | nil => exact ⟨w, tracks, admissible, leads⟩
    | cons step rest =>
      dsimp only
      cases outcome : r.attributeFails step with
      | none =>
        refine ⟨w, tracks, ?_⟩
        rw [← leads]
        simp only [Request.configures, List.findSome?_cons, outcome]
      | some e =>
        refine ⟨by simp [tracks.entry], ?_⟩
        rw [← leads]
        simp only [Request.configures, List.findSome?_cons, outcome]
  | actions position rest =>
    rw [at_] at inv
    obtain ⟨w, tracks, rest_admissible, leads⟩ := inv
    cases rest with
    | nil => exact ⟨w, position, tracks, leads⟩
    | cons a rest =>
      obtain ⟨unnamed, plain⟩ := rest_admissible a (by simp)
      -- An action that does not name the report descriptor does what it means.
      have agrees : Agrees k.report k.writeEnd k.Alien w
          (a.perform r.limit k.report (r.found position) s.child)
          (a.apply r.limit k.report (r.found position) w) :=
        tracks.perform unnamed plain (fresh.found position)
      cases applied : a.apply r.limit k.report (r.found position) w with
      | ok w' =>
        rw [applied] at agrees
        obtain ⟨done, tracks'⟩ := agrees
        dsimp only
        split
        · rename_i fds performed
          rw [performed] at tracks'
          refine ⟨w', tracks', fun b member => rest_admissible b (by simp [member]), ?_⟩
          rw [← leads, r.executes_cons_ok applied]
        · rename_i performed
          rw [performed] at done
          cases done
      | error e =>
        rw [applied] at agrees
        obtain ⟨done, tracks'⟩ := agrees
        dsimp only
        split
        · rename_i performed
          rw [performed] at done
          cases done
        · rename_i fds e' performed
          rw [performed] at done tracks'
          cases done
          refine ⟨(tracks'.entry k.report).trans (if_pos rfl), ?_⟩
          rw [← leads, r.executes_cons_error applied]
  | execve =>
    rw [at_] at inv
    obtain ⟨w, position, tracks, leads⟩ := inv
    dsimp only
    cases outcome : r.execve with
    | none =>
      refine ⟨?_, fun n d here => ?_⟩
      · rw [← leads]
        simp only [Request.executes, Request.program, outcome]
        rw [tracks.keep]
      · rw [show _ = inherited w from tracks.keep] at here
        exact tracks.foreign n d (inherited_some here)
    | some e =>
      refine ⟨by simp [tracks.entry], ?_⟩
      rw [← leads]
      simp only [Request.executes, Request.program, outcome]
  | failed e =>
    dsimp only
    split <;> trivial
  | exiting =>
    dsimp only
    split <;> exact fun n => rfl
  | executed =>
    dsimp only
    rw [at_] at inv ⊢
    exact inv
  | exited =>
    dsimp only
    rw [at_] at inv ⊢
    exact inv
  | reaped =>
    dsimp only
    rw [at_] at inv ⊢
    exact inv

theorem childStep_buffer (inv : ChildInv r k v s.childAt s.child) :
    (∃ e, r.outcome k.report v = .error e ∧ s.childAt = .failed e ∧
      (childStep r k s).childAt = .exiting ∧ (childStep r k s).buffer = s.buffer ++ [e]) ∨
    (childStep r k s).childAt.written = s.childAt.written ∧
      (childStep r k s).buffer = s.buffer ∧
      (s.childAt = .executed ∨ s.childAt = .reaped → (childStep r k s).childAt = s.childAt) := by
  unfold childStep
  cases at_ : s.childAt with
  | failed e =>
    rw [at_] at inv
    have connected : (s.child.entry k.report).map Descriptor.file = some k.writeEnd := by
      rw [inv.1]
      rfl
    refine .inl ⟨e, inv.2, rfl, ?_, ?_⟩
    · simp only [connected, if_true]
    · simp only [connected, if_true]
  | exiting =>
    right
    dsimp only
    cases r.ignored <;> simp [ChildAt.written]
  | attributes rest =>
    right
    cases rest with
    | nil => simp [ChildAt.written]
    | cons step rest => dsimp only; split <;> simp [ChildAt.written]
  | actions position rest =>
    right
    cases rest with
    | nil => simp [ChildAt.written]
    | cons a rest => dsimp only; split <;> simp [ChildAt.written]
  | execve =>
    right
    dsimp only
    split <;> simp [ChildAt.written]
  | closing => simp [ChildAt.written]
  | executed => simp [at_]
  | exited => simp [at_]
  | reaped => simp [at_]

end Child

/-! ### What the parent learns -/

section Invariant

variable (r : Request) (k : Forked) (v : View)

/-- The pipe holds the error exactly if the child has written it. -/
def Delivers (childAt : ChildAt) (buffer : List Errno) : Prop :=
  if childAt.written then ∃ e, r.outcome k.report v = .error e ∧ buffer = [e] else buffer = []

/-- What the parent knows of the child at each point. -/
def Knows (s : System) : Prop :=
  match s.parentAt with
  | .closing => s.result = none ∧ Delivers r k v s.childAt s.buffer
  | .reading => s.result = none ∧ Delivers r k v s.childAt s.buffer
  | .closingRead (.reported e) =>
    s.result = none ∧ r.outcome k.report v = .error e ∧ s.childAt.written = true
  | .closingRead .eof => s.result = none ∧ s.childAt = .executed
  | .closingRead (.failed _) => False
  | .waiting e => s.result = none ∧ r.outcome k.report v = .error e ∧ s.childAt.written = true
  | .returned (some e) =>
    s.result = none ∧ r.outcome k.report v = .error e ∧ s.childAt = .reaped
  | .returned none => s.result = some k.pid ∧ s.childAt = .executed

structure Inv (s : System) : Prop where
  parent : s.parent.entry = parentView k v s.parentAt
  child : ChildInv r k v s.childAt s.child
  knows : Knows r k v s

variable {r : Request} {k : Forked} {v : View} {s : System}

theorem Delivers.childStep (delivers : Delivers r k v s.childAt s.buffer)
    (inv : ChildInv r k v s.childAt s.child) :
    Delivers r k v (childStep r k s).childAt (childStep r k s).buffer := by
  rcases childStep_buffer inv with ⟨e, outcome, before, after, buffer⟩ | ⟨same, buffer, -⟩
  · rw [before] at delivers
    have empty : s.buffer = [] := delivers
    rw [after, buffer, empty]
    exact ⟨e, outcome, rfl⟩
  · unfold Delivers at *
    rw [same, buffer]
    exact delivers

theorem childStep_written (inv : ChildInv r k v s.childAt s.child)
    (written : s.childAt.written = true) : (childStep r k s).childAt.written = true := by
  rcases childStep_buffer inv with ⟨e, -, before, -, -⟩ | ⟨same, -, -⟩
  · rw [before] at written
    cases written
  · rw [same, written]

theorem childStep_final (inv : ChildInv r k v s.childAt s.child)
    (final : s.childAt = .executed ∨ s.childAt = .reaped) :
    (childStep r k s).childAt = s.childAt := by
  rcases childStep_buffer inv with ⟨e, -, before, -, -⟩ | ⟨-, -, stays⟩
  · rw [before] at final
    simp at final
  · exact stays final

theorem Knows.childStep (knows : Knows r k v s) (inv : ChildInv r k v s.childAt s.child) :
    Knows r k v (childStep r k s) := by
  unfold Knows at *
  rw [childStep_parentAt, childStep_result]
  cases at_ : s.parentAt with
  | closing =>
    rw [at_] at knows
    exact ⟨knows.1, knows.2.childStep inv⟩
  | reading =>
    rw [at_] at knows
    exact ⟨knows.1, knows.2.childStep inv⟩
  | closingRead n =>
    rw [at_] at knows
    cases n with
    | reported e => exact ⟨knows.1, knows.2.1, childStep_written inv knows.2.2⟩
    | eof => exact ⟨knows.1, (childStep_final inv (.inl knows.2)).trans knows.2⟩
    | failed e => exact knows
  | waiting e =>
    rw [at_] at knows
    exact ⟨knows.1, knows.2.1, childStep_written inv knows.2.2⟩
  | returned error =>
    rw [at_] at knows
    cases error with
    | none => exact ⟨knows.1, (childStep_final inv (.inl knows.2)).trans knows.2⟩
    | some e => exact ⟨knows.1, knows.2.1, (childStep_final inv (.inr knows.2.2)).trans knows.2.2⟩

/-- While the parent reads, nobody but the child has the write end, and the child only until
it executes the program or exits. -/
theorem writers_eq_false (fresh : r.Fresh k v) (inv : Inv r k v s)
    (reading : s.parentAt = .reading)
    (done : s.childAt = .executed ∨ s.childAt = .exited ∨ s.childAt = .reaped) :
    writers k s = false := by
  have child := inv.child
  have parent : s.parent.entry = withRead k v := by
    rw [inv.parent, reading]
    rfl
  rw [writers, Bool.or_eq_false_iff]
  constructor
  · rw [Fds.holds_eq_false]
    intro n d here
    rw [parent, withRead] at here
    rw [decide_eq_false_iff_not]
    split at here
    · cases here
      exact fresh.differ
    · exact fun same => fresh.parent n d here (.inr same)
  · rw [Fds.holds_eq_false]
    intro n d here
    rw [decide_eq_false_iff_not]
    rcases done with executed | exited | reaped
    · rw [executed] at child
      exact fun same => child.2 n d here (.inr same)
    · rw [exited] at child
      rw [child n] at here
      cases here
    · rw [reaped] at child
      rw [child n] at here
      cases here

theorem writers_eq_true (inv : ChildInv r k v s.childAt s.child)
    (silent : s.childAt.written = false) (running : s.childAt ≠ .executed) :
    writers k s = true := by
  have entry : s.child.entry k.report = some ⟨k.writeEnd, true⟩ := by
    cases at_ : s.childAt with
    | closing =>
      rw [at_] at inv
      have table : s.child.entry = withPipe k v := inv
      rw [table, withPipe, if_pos rfl]
    | attributes rest =>
      rw [at_] at inv
      obtain ⟨w, tracks, -⟩ := inv
      exact (tracks.entry k.report).trans (if_pos rfl)
    | actions position rest =>
      rw [at_] at inv
      obtain ⟨w, tracks, -⟩ := inv
      exact (tracks.entry k.report).trans (if_pos rfl)
    | execve =>
      rw [at_] at inv
      obtain ⟨w, position, tracks, -⟩ := inv
      exact (tracks.entry k.report).trans (if_pos rfl)
    | failed e =>
      rw [at_] at inv
      exact inv.1
    | executed => exact absurd at_ running
    | exiting => rw [at_] at silent; cases silent
    | exited => rw [at_] at silent; cases silent
    | reaped => rw [at_] at silent; cases silent
  rw [writers, Bool.or_eq_true]
  right
  by_contra none_
  have := Fds.holds_eq_false.mp (Bool.eq_false_iff.mpr none_) k.report _ entry
  simp at this

theorem read_connected (inv : Inv r k v s) (reading : s.parentAt = .reading) :
    (s.parent.entry k.readNumber).map Descriptor.file = some k.readEnd := by
  rw [inv.parent, reading]
  simp [parentView, withRead]

theorem read_cons (inv : Inv r k v s) (reading : s.parentAt = .reading) {e : Errno}
    {rest : List Errno} (buffer : s.buffer = e :: rest) :
    read k s = some (.reported e, rest) := by
  rw [read, if_pos (read_connected inv reading), buffer]

theorem read_nil (inv : Inv r k v s) (reading : s.parentAt = .reading) (buffer : s.buffer = []) :
    read k s = if writers k s then none else some (.eof, []) := by
  rw [read, if_pos (read_connected inv reading), buffer]

theorem parentStep_reading (inv : Inv r k v s) (reading : s.parentAt = .reading) :
    Knows r k v (parentStep k s) := by
  have knows := inv.knows
  unfold Knows at knows
  rw [reading] at knows
  obtain ⟨unwritten, delivers⟩ := knows
  unfold parentStep
  rw [reading]
  dsimp only
  cases buffer : s.buffer with
  | cons e rest =>
    rw [read_cons inv reading buffer]
    rw [Delivers, buffer] at delivers
    split at delivers
    · rename_i written
      obtain ⟨e', outcome, same⟩ := delivers
      cases same
      exact ⟨unwritten, outcome, written⟩
    · cases delivers
  | nil =>
    rw [read_nil inv reading buffer]
    rw [Delivers, buffer] at delivers
    split at delivers
    · obtain ⟨e, -, same⟩ := delivers
      cases same
    · rename_i silent
      have quiet := Bool.eq_false_iff.mpr silent
      by_cases executed : s.childAt = .executed
      · cases writers k s with
        | true =>
          simp only [if_true, Knows, reading]
          refine ⟨unwritten, ?_⟩
          rw [Delivers, if_neg silent]
          exact buffer
        | false => exact ⟨unwritten, executed⟩
      · rw [writers_eq_true inv.child quiet executed]
        simp only [if_true, Knows, reading]
        refine ⟨unwritten, ?_⟩
        rw [Delivers, if_neg silent]
        exact buffer

theorem parentStep_knows (inv : Inv r k v s) : Knows r k v (parentStep k s) := by
  cases at_ : s.parentAt with
  | reading => exact parentStep_reading inv at_
  | closing =>
    have knows := inv.knows
    unfold Knows at knows
    unfold parentStep
    rw [at_] at knows ⊢
    exact knows
  | closingRead n =>
    have knows := inv.knows
    unfold Knows at knows
    unfold parentStep
    rw [at_] at knows ⊢
    cases n with
    | reported e => exact knows
    | eof => exact ⟨rfl, knows.2⟩
    | failed e => exact knows.elim
  | waiting e =>
    have knows := inv.knows
    have unchanged := inv.knows
    unfold Knows at knows
    unfold parentStep
    rw [at_] at knows ⊢
    dsimp only
    split
    · exact ⟨knows.1, knows.2.1, rfl⟩
    · rename_i reaped
      exact ⟨knows.1, knows.2.1, reaped⟩
    · exact unchanged
  | returned error =>
    have knows := inv.knows
    unfold parentStep
    rw [at_]
    exact knows

theorem parentStep_child (k : Forked) (s : System) :
    (parentStep k s).child = s.child ∧
      ((parentStep k s).childAt = s.childAt ∨
        s.childAt = .exited ∧ (parentStep k s).childAt = .reaped) := by
  unfold parentStep
  repeat' split
  all_goals first | exact ⟨rfl, .inl rfl⟩ | exact ⟨rfl, .inr ⟨‹_›, rfl⟩⟩

theorem parentStep_inv (free : k.Free v) (inv : Inv r k v s) : Inv r k v (parentStep k s) where
  parent := parentStep_view free inv.parent
  child := by
    obtain ⟨same, at_ | ⟨before, after⟩⟩ := parentStep_child k s
    · rw [same, at_]
      exact inv.child
    · have child := inv.child
      rw [before] at child
      rw [same, after]
      exact child
  knows := parentStep_knows inv

/-- The assumptions on a call: its descriptors are new, its files too, the parent's numbers
are below 256 and the actions are admissible. -/
structure Sound (r : Request) (k : Forked) (v : View) : Prop where
  free : k.Free v
  fresh : r.Fresh k v
  small : ∀ n, maxFds ≤ n → v n = none
  admissible : Admissible k.report r.actions

/-- A read fails only because a signal interrupted it. -/
def Turn.Interrupts : Turn → Prop
  | .readFails e => e = .EINTR
  | _ => True

theorem step_inv (sound : Sound r k v) (s : System) (turn : Turn) (allowed : turn.Interrupts)
    (inv : Inv r k v s) : Inv r k v (step r k s turn) := by
  have view := step_view r sound.free s turn inv.parent
  cases turn with
  | child =>
    exact ⟨view, childStep_inv sound.free sound.fresh sound.small sound.admissible inv.child,
      inv.knows.childStep inv.child⟩
  | parent => exact parentStep_inv sound.free inv
  | interrupted => exact inv
  | readFails e =>
    have same : step r k s (.readFails e) = s := by
      simp only [step, show e = .EINTR from allowed, if_true]
      split <;> rfl
    rw [same]
    exact inv

/-! ### The call returns -/

def childLeft (r : Request) : ChildAt → Nat
  | .closing => r.steps.length + r.actions.length + 6
  | .attributes rest => rest.length + r.actions.length + 5
  | .actions _ rest => rest.length + 4
  | .execve => 3
  | .failed _ => 2
  | .exiting => 1
  | .executed | .exited | .reaped => 0

/-- The turns that the parent has left, those in which it blocks not counted. -/
def parentLeft : ParentAt → Nat
  | .closing => 4
  | .reading => 3
  | .closingRead _ => 2
  | .waiting _ => 1
  | .returned _ => 0

def left (r : Request) (s : System) : Nat := childLeft r s.childAt + parentLeft s.parentAt

def ParentAt.isReturned : ParentAt → Prop
  | .returned _ => True
  | _ => False

theorem childStep_left (r : Request) (k : Forked) (s : System) :
    childStep r k s = s ∧ childLeft r s.childAt = 0 ∨
      childLeft r (childStep r k s).childAt < childLeft r s.childAt := by
  unfold childStep
  cases at_ : s.childAt with
  | closing => exact .inr (by simp [childLeft])
  | attributes rest =>
    right
    cases rest with
    | nil => simp [childLeft]
    | cons step rest => dsimp only; split <;> simp [childLeft]
  | actions position rest =>
    right
    cases rest with
    | nil => simp [childLeft]
    | cons a rest => dsimp only; split <;> simp [childLeft]
  | execve =>
    right
    dsimp only
    split <;> simp [childLeft]
  | failed e =>
    right
    dsimp only
    split <;> simp [childLeft]
  | exiting =>
    right
    dsimp only
    split <;> simp [childLeft]
  | executed => exact .inl ⟨rfl, rfl⟩
  | exited => exact .inl ⟨rfl, rfl⟩
  | reaped => exact .inl ⟨rfl, rfl⟩

theorem childLeft_eq_zero {at_ : ChildAt} (done : childLeft r at_ = 0) :
    at_ = .executed ∨ at_ = .exited ∨ at_ = .reaped := by
  cases at_ <;> simp_all [childLeft]

theorem parentStep_childLeft (r : Request) (k : Forked) (s : System) :
    childLeft r (parentStep k s).childAt = childLeft r s.childAt := by
  obtain ⟨-, same | ⟨before, after⟩⟩ := parentStep_child k s
  · rw [same]
  · rw [before, after]
    rfl

theorem parentStep_left_le (k : Forked) (s : System) :
    parentLeft (parentStep k s).parentAt ≤ parentLeft s.parentAt := by
  unfold parentStep
  cases at_ : s.parentAt with
  | reading =>
    dsimp only
    split <;> simp [parentLeft, at_]
  | waiting e =>
    dsimp only
    split <;> simp [parentLeft, at_]
  | closingRead n => cases n <;> simp [parentLeft]
  | closing => simp [parentLeft]
  | returned error => simp [at_]

theorem parentStep_left_lt (fresh : r.Fresh k v) (inv : Inv r k v s)
    (done : childLeft r s.childAt = 0) (running : ¬ s.parentAt.isReturned) :
    parentLeft (parentStep k s).parentAt < parentLeft s.parentAt := by
  have stopped := childLeft_eq_zero done
  have knows := inv.knows
  unfold Knows at knows
  cases at_ : s.parentAt with
  | reading =>
    unfold parentStep
    rw [at_]
    dsimp only
    cases buffer : s.buffer with
    | cons e rest => simp [read_cons inv at_ buffer, parentLeft]
    | nil => simp [read_nil inv at_ buffer, writers_eq_false fresh inv at_ stopped, parentLeft]
  | waiting e =>
    rw [at_] at knows
    unfold parentStep
    rw [at_]
    rcases stopped with executed | exited | reaped
    · rw [executed] at knows
      cases knows.2.2
    · simp [exited, parentLeft]
    · simp [reaped, parentLeft]
  | closingRead n =>
    unfold parentStep
    rw [at_]
    cases n <;> simp [parentLeft]
  | closing =>
    unfold parentStep
    rw [at_]
    simp [parentLeft]
  | returned error =>
    rw [at_] at running
    exact absurd trivial running

def round : List Turn := [.child, .parent]

theorem round_interrupts (turn : Turn) (member : turn ∈ round) : turn.Interrupts := by
  rcases List.mem_pair.mp member with rfl | rfl <;> trivial

theorem run_inv (sound : Sound r k v) (inv : Inv r k v s) (turns : List Turn)
    (allowed : ∀ turn ∈ turns, turn.Interrupts) : Inv r k v (run (step r k) s turns) :=
  run_invariant (step r k) Turn.Interrupts (Inv r k v) (step_inv sound) turns allowed s inv

theorem round_lower (sound : Sound r k v) (inv : Inv r k v s) :
    s.parentAt.isReturned ∨ Inv r k v (run (step r k) s round) ∧
      left r (run (step r k) s round) < left r s := by
  by_cases returned : s.parentAt.isReturned
  · exact .inl returned
  refine .inr ⟨run_inv sound inv round round_interrupts, ?_⟩
  have unfolded : run (step r k) s round = parentStep k (childStep r k s) := rfl
  rw [unfolded, left, left, parentStep_childLeft]
  rcases childStep_left r k s with ⟨same, done⟩ | less
  · have lower := parentStep_left_lt sound.fresh inv done returned
    rw [same]
    omega
  · have kept := parentStep_left_le k (childStep r k s)
    rw [childStep_parentAt] at kept
    omega

theorem exists_returned (sound : Sound r k v) (inv : Inv r k v s) :
    ∃ count, (run (step r k) s (List.replicate count round).flatten).parentAt.isReturned := by
  obtain ⟨count, -, returned⟩ := exists_run_of_decreasing (run (step r k)) round (Inv r k v)
    (fun s => s.parentAt.isReturned) (left r) (fun s inv => round_lower sound inv) s inv
  exact ⟨count, by rw [run_flatten]; exact returned⟩

end Invariant

/-! ### The whole call -/

theorem pipe_ok {limit readEnd writeEnd first second : Nat} {fds piped : Fds Descriptor}
    (ok : pipe limit fds readEnd writeEnd = .ok (first, second, piped)) :
    fds.entry first = none ∧ fds.entry second = none ∧ first ≠ second ∧
    ∀ n, piped.entry n = if n = second then some ⟨writeEnd, false⟩
      else if n = first then some ⟨readEnd, false⟩ else fds.entry n := by
  unfold pipe at ok
  dsimp only at ok
  by_cases room : fds.lowest 0 < limit ∧
      (fds.put (fds.lowest 0) ⟨readEnd, false⟩).lowest 0 < limit
  · rw [if_pos room] at ok
    cases ok
    have one := Fds.isOpen_eq_false.mp (fds.lowest_free 0)
    have two := Fds.isOpen_eq_false.mp
      ((fds.put (fds.lowest 0) ⟨readEnd, false⟩).lowest_free 0)
    rw [Fds.entry_put] at two
    split at two
    · cases two
    · rename_i differ
      exact ⟨one, two, Ne.symm differ, fun n => by simp only [Fds.entry_put]⟩
  · rw [if_neg room] at ok
    cases ok

theorem dupfdCloexec_ok {limit n minimum m : Nat} {fds new : Fds Descriptor} {d : Descriptor}
    {fault : Option Errno} (here : fds.entry n = some d)
    (ok : dupfdCloexec limit fds n minimum fault = .ok (m, new)) :
    fds.entry m = none ∧ new = fds.put m ⟨d.file, true⟩ := by
  simp only [dupfdCloexec, here] at ok
  split at ok
  · cases ok
  · split at ok
    · cases ok
    · by_cases room : fds.lowest minimum < limit
      · rw [if_pos room] at ok
        cases ok
        exact ⟨Fds.isOpen_eq_false.mp (fds.lowest_free minimum), rfl⟩
      · rw [if_neg room] at ok
        cases ok

structure Started (k : Forked) (v : View) (s : System) : Prop where
  free : k.Free v
  parentAt : s.parentAt = .closing
  childAt : s.childAt = .closing
  parent : s.parent.entry = withPipe k v
  child : s.child.entry = withPipe k v
  buffer : s.buffer = []
  result : s.result = none

/-- An early return takes back what was opened; otherwise both processes have the report
descriptor and the read end besides the parent's table. -/
def Prepared.Good (v : View) : Prepared → Prop
  | .returned _ fds => fds.entry = v
  | .forked k s => Started k v s

theorem prepare_good (r : Request) (parent : Fds Descriptor) :
    (prepare r parent).Good parent.entry := by
  unfold prepare
  split
  · rfl
  rename_i readEnd writeEnd _
  split
  · rfl
  rename_i first second piped pipe_eq
  obtain ⟨firstFree, secondFree, differ, entry⟩ := pipe_ok pipe_eq
  have written : piped.entry second = some ⟨_, false⟩ := (entry second).trans (if_pos rfl)
  split
  · funext n
    simp only [Fds.entry_close, entry]
    by_cases one : n = first
    · simp [one, firstFree]
    · by_cases two : n = second
      · simp [two, differ.symm, secondFree]
      · simp [one, two]
  rename_i report duplicated dup_eq
  obtain ⟨reportFree, rfl⟩ := dupfdCloexec_ok written dup_eq
  rw [entry] at reportFree
  split at reportFree
  · cases reportFree
  rename_i notSecond
  split at reportFree
  · cases reportFree
  rename_i notFirst
  split
  · funext n
    simp only [Fds.entry_close, Fds.entry_put, entry]
    by_cases three : n = report
    · simp [three, reportFree]
    · by_cases one : n = first
      · simp [one, firstFree]
      · by_cases two : n = second
        · simp [two, secondFree]
        · simp [one, two, three]
  · -- The original of the write end is closed, so that only `report` refers to it.
    have table : ((piped.put report ⟨writeEnd, true⟩).close second).entry = fun n =>
        if n = report then some ⟨writeEnd, true⟩
        else if n = first then some ⟨readEnd, false⟩ else parent.entry n := by
      funext n
      simp only [Fds.entry_close, Fds.entry_put, entry]
      by_cases three : n = report
      · simp [three, notSecond]
      · by_cases one : n = first
        · simp [one, differ]
        · by_cases two : n = second
          · simp [two, secondFree, differ.symm, Ne.symm notSecond]
          · simp [one, two]
    exact ⟨⟨reportFree, firstFree, notFirst⟩, rfl, rfl, table, table, rfl, rfl⟩

theorem Started.inv {r : Request} {s : System} (started : Started k v s) : Inv r k v s where
  parent := by rw [started.parent, started.parentAt, parentView]
  child := by
    rw [started.childAt]
    exact started.child
  knows := by
    unfold Knows
    rw [started.parentAt]
    refine ⟨started.result, ?_⟩
    rw [Delivers, started.childAt]
    exact started.buffer

/-- The call has returned what it should: the first error, with the child reaped and
`*result` as it was, or the child's number, with the program running on exactly the
descriptors that the actions give it. -/
def Spawned (r : Request) (k : Forked) (v : View) (s : System) (returned : Option Errno) :
    Prop :=
  match r.outcome k.report v with
  | .error e => returned = some e ∧ s.childAt = .reaped ∧ s.result = none
  | .ok w => returned = none ∧ s.childAt = .executed ∧ s.result = some k.pid ∧
      s.child.entry = w ∧ ∀ n d, w n = some d → ¬ k.Alien d.file

theorem Inv.spawned {r : Request} {s : System} (inv : Inv r k v s) {returned : Option Errno}
    (at_ : s.parentAt = .returned returned) : Spawned r k v s returned := by
  have knows := inv.knows
  have child := inv.child
  unfold Knows at knows
  rw [at_] at knows
  unfold Spawned
  cases returned with
  | none =>
    obtain ⟨result, executed⟩ := knows
    rw [executed] at child
    rw [child.1]
    exact ⟨rfl, executed, result, rfl, child.2⟩
  | some e =>
    obtain ⟨result, outcome, reaped⟩ := knows
    rw [outcome]
    exact ⟨rfl, reaped, result⟩

/-- `posix_spawn` applies its actions as a program on the parent's table and leaves that
table alone, in whatever order the two processes run. -/
theorem posixSpawn_applies_actions (r : Request) (parent : Fds Descriptor)
    (small : ∀ n, maxFds ≤ n → parent.entry n = none) :
    match prepare r parent with
    | .returned _ fds => fds.entry = parent.entry
    | .forked k s =>
      (∀ turns, (run (step r k) s turns).parentAt.isReturned →
        (run (step r k) s turns).parent.entry = parent.entry) ∧
      (r.Fresh k parent.entry → Admissible k.report r.actions →
        ∀ turns, (∀ turn ∈ turns, turn.Interrupts) →
          (∃ count, (run (step r k) s
            (turns ++ (List.replicate count round).flatten)).parentAt.isReturned) ∧
          ∀ returned, (run (step r k) s turns).parentAt = .returned returned →
            Spawned r k parent.entry (run (step r k) s turns) returned) := by
  have good := prepare_good r parent
  cases prepared : prepare r parent with
  | returned e fds =>
    rw [prepared] at good
    exact good
  | forked k s =>
    rw [prepared] at good
    have started : Started k parent.entry s := good
    refine ⟨fun turns returned => ?_, fun fresh admissible turns allowed => ?_⟩
    · have view := run_invariant (step r k) (fun _ => True)
        (fun s => s.parent.entry = parentView k parent.entry s.parentAt)
        (fun s turn _ entry => step_view r started.free s turn entry) turns (by simp) s
        (started.inv (r := r)).parent
      cases at_ : (run (step r k) s turns).parentAt with
      | returned error =>
        rw [at_] at view
        exact view
      | closing => rw [at_] at returned; cases returned
      | reading => rw [at_] at returned; cases returned
      | closingRead n => rw [at_] at returned; cases returned
      | waiting e => rw [at_] at returned; cases returned
    · have sound : Sound r k parent.entry := ⟨started.free, fresh, small, admissible⟩
      have inv := run_inv sound started.inv turns allowed
      refine ⟨?_, fun returned at_ => inv.spawned at_⟩
      obtain ⟨count, returned⟩ := exists_returned sound inv
      exact ⟨count, by rw [run_append]; exact returned⟩

/-- A parent with its standard descriptors and one more that an executed program does not get. -/
def shell : Fds Descriptor :=
  (((Fds.empty.put 0 ⟨0, false⟩).put 1 ⟨1, false⟩).put 2 ⟨2, false⟩).put 5 ⟨5, true⟩

theorem two_lt_maxFds : 2 < maxFds := by decide

theorem five_lt_maxFds : 5 < maxFds := by decide

/-- Its input from a file, its errors to number 5, and nothing else above 2. -/
def redirection : List SpawnAction :=
  [⟨.openFile, 0, 0, noFlags, 0, [47], zero_lt_maxFds, zero_lt_maxFds⟩,
   ⟨.dup2, 5, 2, noFlags, 0, [], five_lt_maxFds, two_lt_maxFds⟩,
   ⟨.closefrom, 5, 0, noFlags, 0, [], five_lt_maxFds, zero_lt_maxFds⟩]

def redirected : Request :=
  ⟨256, none, redirection, .ok (100, 101), none, .ok 7, fun _ => none, fun _ => .ok 50, none,
    false⟩

theorem shell_lowest : shell.lowest 0 = 3 ∧ (shell.put 3 ⟨100, false⟩).lowest 0 = 4 ∧
    ((shell.put 3 ⟨100, false⟩).put 4 ⟨101, false⟩).lowest 128 = 128 := by
  decide +kernel

/-- The numbers of this call, and its table after the fork. -/
def redirectedFork : Forked := ⟨3, 128, 100, 101, 7⟩

def redirectedTable : Fds Descriptor :=
  (((shell.put 3 ⟨100, false⟩).put 4 ⟨101, false⟩).put 128 ⟨101, true⟩).close 4

theorem redirected_forked : prepare redirected shell = .forked redirectedFork
    ⟨.closing, redirectedTable, .closing, redirectedTable, [], none⟩ := by
  obtain ⟨first, second, third⟩ := shell_lowest
  simp [prepare, redirected, pipe, first, second, dupfdCloexec, third, Fds.allocate,
    redirectedFork, redirectedTable]

theorem redirected_fresh : redirected.Fresh redirectedFork shell.entry where
  parent n d here := by
    simp only [shell, Fds.entry_put] at here
    unfold Forked.Alien
    repeat' split at here
    all_goals first | (cases here; decide) | cases here
  found _ file found := by
    cases found
    unfold Forked.Alien
    decide
  differ := by decide

theorem redirection_admissible : Admissible 128 redirection := by
  simp [Admissible, redirection, SpawnAction.Names, noFlags]

/-- The program gets the file, its output and the redirected errors. -/
theorem redirected_spawned : (∀ n, maxFds ≤ n → shell.entry n = none) ∧
    ∃ s turns, prepare redirected shell = .forked redirectedFork s ∧
      (run (step redirected redirectedFork) s turns).parentAt = .returned none ∧
      Spawned redirected redirectedFork shell.entry
        (run (step redirected redirectedFork) s turns) none := by
  have small : ∀ n, maxFds ≤ n → shell.entry n = none := by
    intro n above
    exact shell.closed n (Nat.le_trans (by decide) above)
  have spawn := posixSpawn_applies_actions redirected shell small
  rw [redirected_forked] at spawn
  have returned : (run (step redirected redirectedFork)
      ⟨.closing, redirectedTable, .closing, redirectedTable, [], none⟩
      (List.replicate 7 .child ++ List.replicate 3 .parent)).parentAt = .returned none := by
    decide +kernel
  refine ⟨small, _, _, redirected_forked, returned, ?_⟩
  refine (spawn.2 redirected_fresh redirection_admissible _ ?_).2 none returned
  intro turn member
  rcases List.mem_append.mp member with child | parent
  · rw [List.eq_of_mem_replicate child]
    trivial
  · rw [List.eq_of_mem_replicate parent]
    trivial

end LashOs.Spawn
