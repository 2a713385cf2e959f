import LashOs.Descriptors.Invariant

/-!
# Record locks of a refused allocation

When the table has no place for a new descriptor, `adopt_descriptor` closes it again. A
process loses all its record locks on a file when it closes any descriptor of it.
-/
namespace LashOs.Descriptors

open Base

variable {h h' : BridgeHost}

/-- The allocating requests: `BR_OPEN`, `PX_OPENAT`, and `BF_DUPFD` or `BF_DUPFD_CLOEXEC`. -/
inductive Allocation where
  | open_ (path : Except Errno Unit) (native : Except Errno Descriptor)
  | openat (a : UInt64) (path : Except Errno Unit) (native : Except Errno Descriptor)
  | dupfd (a n : UInt64) (cloexec : Bool) (error : Option Errno)

def Allocation.request : Allocation → Request
  | .open_ path native => .open_ path native
  | .openat a path native => .openat a path native
  | .dupfd a n cloexec error => .dupfd a n cloexec error

/-- The file that the native call of the request opens, if it is reached and succeeds. -/
def Allocation.opens (h : BridgeHost) : Allocation → Option Nat
  | .open_ path native =>
    match path, native with
    | .ok (), .ok d => some d.file
    | _, _ => none
  | .openat a path native =>
    match path, (if toInt a = -2 then .ok 0 else h.fd (toInt a)), native with
    | .ok (), .ok _, .ok d => some d.file
    | _, _, _ => none
  | .dupfd a n cloexec error =>
    match h.fd (toInt a) with
    | .error _ => none
    | .ok actual =>
      if maxFds ≤ n.toNat then none
      else
        match h.duplicate actual cloexec error with
        | .ok d => some d.file
        | .error _ => none

/-- What becomes of a descriptor that was opened: adopted, with the locks as they were, or
closed again together with the locks on its file. -/
theorem save_locks (h : BridgeHost) (minimum : Nat) (d : Descriptor)
    (saved : BridgeHost × Except Errno Nat)
    (same : saved = adoptDescriptor { h with native := (h.native.allocate minimum d).2 }
      (.ok (h.native.allocate minimum d).1) minimum) :
    (∃ n, saved.2 = .ok n ∧ saved.1.locks = h.locks) ∨
    (saved.2 = .error .EMFILE ∧ saved.1.locks = h.locks.filter (· ≠ d.file)) := by
  subst same
  have closed : ({ h with native := (h.native.allocate minimum d).2 }.closeNative
      (h.native.allocate minimum d).1).locks = h.locks.filter (· ≠ d.file) := by
    simp [BridgeHost.closeNative, BridgeHost.locksWithout, Fds.allocate, Fds.put]
  unfold adoptDescriptor
  dsimp only
  split
  · split
    · exact .inl ⟨_, rfl, rfl⟩
    · exact .inr ⟨rfl, closed⟩
  · exact .inr ⟨rfl, closed⟩

def LocksAfter (h : BridgeHost) (opens : Option Nat) (outcome : Outcome) : Prop :=
  ∀ h' result, outcome = some (h', result) →
    match opens with
    | none => h'.locks = h.locks
    | some file =>
      (∃ n, result = .ok n ∧ h'.locks = h.locks) ∨
      (result = .error .EMFILE ∧ h'.locks = h.locks.filter (· ≠ file))

theorem LocksAfter.unchanged (h : BridgeHost) (result : Except Errno Int) :
    LocksAfter h none (some (h, result)) := by
  rintro h' result ⟨⟩
  rfl

theorem LocksAfter.saved (h : BridgeHost) (minimum : Nat) (d : Descriptor) :
    LocksAfter h (some d.file)
      (some ((adoptDescriptor { h with native := (h.native.allocate minimum d).2 }
        (.ok (h.native.allocate minimum d).1) minimum).1,
        (adoptDescriptor { h with native := (h.native.allocate minimum d).2 }
          (.ok (h.native.allocate minimum d).1) minimum).2.map Int.ofNat)) := by
  rintro h' result ⟨⟩
  rcases save_locks h minimum d _ rfl with ⟨n, adopted, kept⟩ | ⟨refused, dropped⟩
  · exact .inl ⟨n, by rw [adopted]; rfl, kept⟩
  · exact .inr ⟨by rw [refused]; rfl, dropped⟩

theorem createDescriptor_locks (h : BridgeHost) (native : Except Errno Descriptor) :
    LocksAfter h (match native with | .ok d => some d.file | .error _ => none)
      (createDescriptor h (.ok ()) native) := by
  cases native with
  | error e => exact .unchanged h _
  | ok d => exact .saved h 0 d

theorem allocation_locks (h : BridgeHost) (request : Allocation) :
    LocksAfter h (request.opens h) (service h request.request) := by
  cases request with
  | open_ path native =>
    cases path with
    | error e => exact .unchanged h _
    | ok _ =>
      have created := createDescriptor_locks h native
      cases native with
      | error e => exact created
      | ok d => exact created
  | openat a path native =>
    simp only [Allocation.request, service, pxOpenat, Allocation.opens]
    cases path with
    | error e => exact .unchanged h _
    | ok _ =>
      cases (if toInt a = -2 then Except.ok 0 else h.fd (toInt a)) with
      | error e => exact .unchanged h _
      | ok directory =>
        have created := createDescriptor_locks h native
        cases native with
        | error e => exact created
        | ok d => exact created
  | dupfd a n cloexec error =>
    simp only [Allocation.request, service, bfDupfd, Allocation.opens]
    cases h.fd (toInt a) with
    | error e => exact .unchanged h _
    | ok actual =>
      dsimp only
      split
      · exact .unchanged h _
      · cases h.duplicate actual cloexec error with
        | error e => exact .unchanged h _
        | ok d => exact .saved h (toInt n).toNat d

/-- A request that is refused with `EMFILE` leaves the record locks as they were exactly if
its native call did not open a file on which there is one. -/
theorem refused_allocation_keeps_locks_iff (h h' : BridgeHost) (request : Allocation)
    (refused : service h request.request = some (h', .error .EMFILE)) :
    (∀ file, file ∈ h'.locks ↔ file ∈ h.locks) ↔
      ¬ ∃ file, request.opens h = some file ∧ file ∈ h.locks := by
  have after := allocation_locks h request h' _ refused
  cases opened : request.opens h with
  | none =>
    rw [opened] at after
    simp only at after
    simp [after]
  | some file =>
    rw [opened] at after
    rcases after with ⟨_, impossible, _⟩ | ⟨_, dropped⟩
    · cases impossible
    · rw [dropped]
      constructor
      · rintro same ⟨_, ⟨⟩, locked⟩
        simpa using (same file).mpr locked
      · intro unlocked other
        have differs : other ∈ h.locks → other ≠ file := by
          rintro locked rfl
          exact unlocked ⟨_, rfl, locked⟩
        simpa using differs

/-- A process whose table is full, with a lock on the file of descriptor 7. -/
def fullHost : BridgeHost where
  fds i := (i.val : Int)
  dirs _ := none
  dirFds _ := 0
  native :=
    { entry := fun n => if n < 256 then some ⟨n, false⟩ else none
      bound := 256
      closed := fun _ above => if_neg (Nat.not_lt.mpr above) }
  locks := [7]

theorem fullHost_agrees : Agrees fullHost [] where
  slot i := by
    have small : i.val < 256 := i.isLt
    simp [fullHost, Fds.isOpen, small]
  waiting := by simp
  distinct := by simp
  dirs := by simp [fullHost]

def seen (outcome : Outcome) : Option (Except Errno Int × List Nat) :=
  outcome.map fun (h, result) => (result, h.locks)

theorem eq_of_seen {outcome : Outcome} {result : Except Errno Int} {locks : List Nat}
    (same : seen outcome = some (result, locks)) :
    ∃ h', outcome = some (h', result) ∧ h'.locks = locks := by
  obtain ⟨⟨h', found⟩, shape, pair⟩ := Option.map_eq_some_iff.mp same
  cases pair
  exact ⟨h', shape, rfl⟩

/-- A duplicate of another descriptor is refused too, and the lock stays. -/
theorem refused_duplicate_keeps_lock :
    ∃ h', service fullHost (Allocation.dupfd 8 0 false none).request = some (h', .error .EMFILE) ∧
      ∀ file, file ∈ h'.locks ↔ file ∈ fullHost.locks := by
  obtain ⟨h', refused, -⟩ := eq_of_seen (by decide +kernel :
    seen (service fullHost (Allocation.dupfd 8 0 false none).request) =
      some (.error .EMFILE, [7]))
  refine ⟨h', refused, (refused_allocation_keeps_locks_iff fullHost h' _ refused).mpr ?_⟩
  decide +kernel

/-- The guest asks for a duplicate of a descriptor, is refused, and has lost its lock. -/
theorem refused_duplicate_drops_lock :
    Agrees fullHost [] ∧
    ∃ h', service fullHost (Allocation.dupfd 7 0 false none).request = some (h', .error .EMFILE) ∧
      7 ∈ fullHost.locks ∧ 7 ∉ h'.locks := by
  obtain ⟨h', refused, locks⟩ := eq_of_seen (by decide +kernel :
    seen (service fullHost (Allocation.dupfd 7 0 false none).request) = some (.error .EMFILE, []))
  exact ⟨fullHost_agrees, h', refused, by decide, by simp [locks]⟩

end LashOs.Descriptors
