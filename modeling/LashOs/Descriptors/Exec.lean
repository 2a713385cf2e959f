import LashOs.Descriptors.Invariant
import LashOs.Guest.Memory

/-!
# Replacing the program

`service_exec` of `exec_host.h` reads the path and the two lists of strings from guest
memory, marks the private descriptors close-on-exec and calls `execve`. If that fails the
guest goes on with the descriptors and the record locks it had.
-/
namespace LashOs.Descriptors

open Base Guest

/-! ### The arguments -/

/-- The loop of `exec_strings` over the items that are left. -/
def execItems (g : Memory) (pointer : UInt64) :
    Nat → UInt64 → List (List UInt8) → Except Errno (List (List UInt8))
  | 0, _, _ => .error .E2BIG
  | left + 1, i, result =>
    match g.memory (pointer + i * 8) 8 with
    | .error e => .error e
    | .ok () =>
      let item := g.load (pointer + i * 8) 8
      if item = 0 then .ok result
      -- Here no error number is set; `service_exec` reports `EIO` then.
      else if g.available item = 0 then .error .ioError
      else
        match g.terminated item (min (g.available item).toNat 131072) with
        | none => .error .E2BIG
        | some text => execItems g pointer left (i + 1) (result ++ [text])

/-- `exec_strings`, given whether its allocation succeeds. -/
def execStrings (g : Memory) (pointer : UInt64) (allocated : Bool) :
    Except Errno (List (List UInt8)) :=
  if allocated then execItems g pointer 4096 0 [] else .error .ENOMEM

/-- What the guest asks for, and how the allocations and the native calls end. -/
structure ExecRequest where
  path : UInt64
  arguments : UInt64
  environment : UInt64
  argumentsAllocated : Bool
  environmentAllocated : Bool
  closeRange : Option Errno
  execve : Option Errno

/-- The path and the strings, as `service_exec` reads them. -/
def ExecRequest.read (r : ExecRequest) (g : Memory) :
    Except Errno (List UInt8 × List (List UInt8) × List (List UInt8)) :=
  match g.string r.path with
  | .error e => .error e
  | .ok path =>
    match execStrings g r.arguments r.argumentsAllocated with
    | .error e => .error e
    | .ok arguments =>
      match execStrings g r.environment r.environmentAllocated with
      | .error e => .error e
      | .ok environment => .ok (path, arguments, environment)

/-- `BR_EXEC` -/
def brExec (h : BridgeHost) (g : Memory) (r : ExecRequest) : BridgeHost × ExecEnd :=
  serviceExec h ((r.read g).map fun _ => ()) r.closeRange r.execve

/-! ### The native calls one by one -/

/-- A native call of `service_exec` and how it ends. -/
inductive ExecCall where
  | closeRange (error : Option Errno)
  | execve (error : Option Errno)

/-- The process after a call. A successful `execve` does not come back. -/
def ExecCall.apply (h : BridgeHost) : ExecCall → BridgeHost
  | .closeRange none => { h with native := markPrivate h.native }
  | .closeRange (some _) => h
  | .execve _ => h

/-- The calls that `service_exec` makes, in their order. -/
def execCalls (h : BridgeHost) (g : Memory) (r : ExecRequest) : List ExecCall :=
  match r.read g with
  | .error _ => []
  | .ok _ =>
    if ∃ i, 0 ≤ h.fds i ∧ h.fds i ≠ (i.val : Int) then []
    else
      match r.closeRange with
      | some e => [.closeRange (some e)]
      | none => [.closeRange none, .execve r.execve]

theorem brExec_calls (h : BridgeHost) (g : Memory) (r : ExecRequest) :
    (brExec h g r).1 = run ExecCall.apply h (execCalls h g r) := by
  unfold brExec serviceExec execCalls
  cases r.read g with
  | error e => rfl
  | ok strings =>
    simp only [Except.map]
    split
    · rfl
    · cases r.closeRange with
      | some e => rfl
      | none => cases r.execve <;> rfl

/-- What the guest can see of its descriptors and locks is the same. Of the private ones
only the close-on-exec flags may differ. -/
structure SameForGuest (h h' : BridgeHost) : Prop where
  files : ∀ n, (h'.native.entry n).map Descriptor.file = (h.native.entry n).map Descriptor.file
  guest : ∀ n < maxFds, h'.native.entry n = h.native.entry n
  table : h'.fds = h.fds
  locks : h'.locks = h.locks

theorem apply_sameForGuest {h h' : BridgeHost} (same : SameForGuest h h') (call : ExecCall) :
    SameForGuest h (call.apply h') := by
  cases call with
  | closeRange error =>
    cases error with
    | some e => exact same
    | none =>
      refine ⟨fun n => ?_, fun n below => ?_, same.table, same.locks⟩
      · rw [← same.files n]
        simp only [ExecCall.apply, markPrivate]
        split
        · simp [Function.comp_def]
        · rfl
      · simp only [ExecCall.apply, markPrivate, if_neg (Nat.not_le.mpr below), same.guest n below]
  | execve error => exact same

theorem calls_sameForGuest (h : BridgeHost) (calls : List ExecCall) :
    SameForGuest h (run ExecCall.apply h calls) :=
  run_invariant ExecCall.apply (fun _ => True) (SameForGuest h)
    (fun _ call _ same => apply_sameForGuest same call) calls (fun _ _ => trivial) h
    ⟨fun _ => rfl, fun _ _ => rfl, rfl, rfl⟩

/-- What is left when the program is replaced: the descriptors that are not close-on-exec. -/
def afterExec (native : Fds Descriptor) (n : Nat) : Option Descriptor :=
  (native.entry n).filter fun d => !d.cloexec

theorem serviceExec_replaced {h : BridgeHost} {arguments : Except Errno Unit}
    {closeRange execve : Option Errno} {native : Fds Descriptor}
    (replaced : (serviceExec h arguments closeRange execve).2 = .replaced native) :
    native = markPrivate h.native := by
  unfold serviceExec at replaced
  cases arguments with
  | error e => cases replaced
  | ok _ =>
    dsimp only at replaced
    split at replaced
    · cases replaced
    · cases closeRange with
      | some e => cases replaced
      | none =>
        cases execve with
        | some e => cases replaced
        | none =>
          cases replaced
          rfl

/-- `exec` shows exactly the guest's descriptors to the new program. If it fails, then
before, between and after its native calls the guest's descriptors and locks are as they
were, and none was opened or closed. -/
theorem exec_exposes_exactly_guest (h : BridgeHost) (agrees : Agrees h []) (g : Memory)
    (r : ExecRequest) :
    (∀ native, (brExec h g r).2 = .replaced native → ∀ n,
      afterExec native n =
        if ∃ i : Fin maxFds, i.val = n ∧ h.fds i = (n : Int) then afterExec h.native n else none) ∧
    ((∀ native, (brExec h g r).2 ≠ .replaced native) → ∀ calls, calls <+: execCalls h g r →
      (∀ n, ((run ExecCall.apply h calls).native.entry n).map Descriptor.file =
        (h.native.entry n).map Descriptor.file) ∧
      (∀ n < 256, (run ExecCall.apply h calls).native.entry n = h.native.entry n) ∧
      (run ExecCall.apply h calls).locks = h.locks) := by
  constructor
  · intro native replaced n
    rw [serviceExec_replaced replaced]
    by_cases below : n < maxFds
    · have slot := agrees.slot ⟨n, below⟩
      have unmarked : afterExec (markPrivate h.native) n = afterExec h.native n := by
        simp only [afterExec, markPrivate, if_neg (Nat.not_le.mpr below)]
      rw [unmarked]
      by_cases opened : h.native.isOpen n = true
      · rw [if_pos ⟨by simpa using opened, by simp⟩] at slot
        rw [if_pos ⟨⟨n, below⟩, rfl, slot⟩]
      · have closed := Fds.isOpen_eq_false.mp (by simpa using opened)
        simp [afterExec, closed]
    · rw [if_neg (by rintro ⟨i, rfl, _⟩; exact below i.isLt)]
      -- A private descriptor was marked, so it does not survive.
      cases there : h.native.entry n with
      | none => simp [afterExec, markPrivate, there, Nat.le_of_not_lt below]
      | some d => simp [afterExec, markPrivate, there, Nat.le_of_not_lt below]
  · intro _ calls _
    have same := calls_sameForGuest h calls
    exact ⟨same.files, same.guest, same.locks⟩

/-- A process with the three standard streams, a private descriptor and a locked file. -/
def lockedHost : BridgeHost where
  fds i := if i.val < 3 then (i.val : Int) else -1
  dirs _ := none
  dirFds _ := 0
  native := stdio.put 300 ⟨9, false⟩
  locks := [1]

def blankMemory : Memory where
  start := 0
  total := 8192
  image := 0
  imageSize := 0
  byte _ := 0
  fits := by decide
  imageFits := Guest.noImage_fits
  guardFits := Guest.zero_guardFits

def blankExec : ExecRequest := ⟨4096, 4096, 4096, true, true, none, none⟩

theorem lockedHost_agrees : Agrees lockedHost [] where
  slot i := by
    have apart : i.val ≠ 300 := by
      have := i.isLt
      unfold maxFds at this
      omega
    by_cases small : i.val < 3
    · simp [lockedHost, stdio, Fds.isOpen, Fds.put, apart, small]
    · simp [lockedHost, stdio, Fds.isOpen, Fds.put, apart, small]
  waiting := by simp
  distinct := by simp
  dirs := by simp [lockedHost]

theorem blankExec_read : blankExec.read blankMemory = .ok ([], [], []) := by
  decide +kernel

/-- The private descriptor does not reach the new program. -/
theorem lockedHost_exec :
    ∃ native, (brExec lockedHost blankMemory blankExec).2 = .replaced native ∧
      afterExec native 300 = none ∧ afterExec native 2 = some ⟨2, false⟩ := by
  have placed : ¬∃ i, 0 ≤ lockedHost.fds i ∧ lockedHost.fds i ≠ (i.val : Int) := by
    rintro ⟨i, used, wrong⟩
    exact wrong (lockedHost_agrees.slot_open i (by omega)).1
  have replaced : (brExec lockedHost blankMemory blankExec).2 =
      .replaced (markPrivate lockedHost.native) := by
    simp only [brExec, blankExec_read, Except.map, serviceExec, if_neg placed]
    rfl
  have exposes :=
    (exec_exposes_exactly_guest lockedHost lockedHost_agrees blankMemory blankExec).1 _ replaced
  refine ⟨_, replaced, ?_, ?_⟩
  · rw [exposes 300, if_neg]
    rintro ⟨i, at_, -⟩
    have := i.isLt
    unfold maxFds at this
    omega
  · rw [exposes 2, if_pos ⟨⟨2, by decide⟩, rfl, rfl⟩]
    rfl

end LashOs.Descriptors
