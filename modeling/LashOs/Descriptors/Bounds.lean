import LashOs.Descriptors.Invariant

/-!
# Indices that come from the mailbox

The arguments of a request are 64-bit words that the guest chooses freely. Some requests
narrow them to `int` before they are checked, others use them at full width. Here every
request of `service` that indexes one of the loader's tables is followed with its accesses;
none stands for an access outside of a table.
-/
namespace LashOs.Descriptors

open Base

/-! ### Requests that only read the tables -/

def fetch {α : Type} {size : Nat} (table : Fin size → α) (index : Nat) : Option α :=
  if inside : index < size then some (table ⟨index, inside⟩) else none

def store {α : Type} {size : Nat} (table : Fin size → α) (index : Nat) (value : α) :
    Option (Fin size → α) :=
  if inside : index < size then some (Function.update table ⟨index, inside⟩ value) else none

/-- The loader with `installed_signal_flags`. -/
structure Loaded where
  host : BridgeHost
  installedSignalFlags : Fin 65 → Nat

inductive Pointer where
  | null | unmapped | mapped
  deriving DecidableEq, Repr

/-- `fd`, with its accesses. -/
def fetchFd (h : BridgeHost) (guest : Int) : Option (Except Errno Nat) :=
  if guest < 0 ∨ (maxFds : Int) ≤ guest then some (.error .EBADF)
  else do
    let real ← fetch h.fds guest.toNat
    return if real < 0 then .error .EBADF else .ok real.toNat

/-- `BR_DIRFD` -/
def brDirfd (h : BridgeHost) (a : UInt64) : Option (Except Errno Int) :=
  if maxDirs ≤ a.toNat then some (.error .EBADF)
  else do
    match ← fetch h.dirs a.toNat with
    | none => return .error .EBADF
    | some _ => return .ok (← fetch h.dirFds a.toNat)

/-- `BR_READDIR`, given whether `b` is mapped and whether there is another entry. -/
def brReaddir (h : BridgeHost) (a : UInt64) (mapped another : Bool) : Option (Except Errno Int) :=
  if maxDirs ≤ a.toNat then some (.error .EBADF)
  else do
    match ← fetch h.dirs a.toNat with
    | none => return .error .EBADF
    | some _ =>
      if mapped = false then return .error .EFAULT
      else
        let _stream ← fetch h.dirs a.toNat
        return .ok (if another then 1 else 0)

/-- `bridge_signal_number` -/
def bridgeSignalNumber (value : UInt64) : Int := if value.toNat ≤ 64 then toInt value else -1

/-- `BR_SIGACTION`; `flags` are the new flags, `recorded` says that the old native handler
was the loader's. -/
def brSigaction (l : Loaded) (a : UInt64) (b n : Pointer) (flags : Nat) (recorded : Bool)
    (error : Option Errno) : Option (Loaded × Except Errno Int) :=
  let number := bridgeSignalNumber a
  if number ≤ 0 ∨ b = .unmapped ∨ n = .unmapped then some (l, .error .EINVAL)
  else
    match error with
    | some e => some (l, .error e)
    | none => do
      if n = .mapped ∧ recorded = true then
        let _old ← fetch l.installedSignalFlags number.toNat
      if b = .mapped then
        let installedSignalFlags ← store l.installedSignalFlags number.toNat flags
        return ({ l with installedSignalFlags }, .ok 0)
      else return (l, .ok 0)

/-- The table of `BR_GETRLIMIT` and `BR_SETRLIMIT`: the resources in the guest's order. -/
def limits : Fin 9 → Nat := ![0, 1, 2, 3, 4, 7, 9, 6, 8]

/-- `BR_GETRLIMIT` and `BR_SETRLIMIT`, given whether `b` is mapped and how the call ends. -/
def brRlimit (a : UInt64) (mapped : Bool) (error : Option Errno) : Option (Except Errno Int) :=
  if mapped = false then some (.error .EFAULT)
  else if 9 ≤ a.toNat then some (.error .EINVAL)
  else do
    let _resource ← fetch limits a.toNat
    return reported error

/-- One item of `poll_descriptors`: the native descriptor, or -1. -/
def pollItem (h : BridgeHost) (fd : Int) : Option Int :=
  if fd < 0 then some (-1)
  else if (maxFds : Int) ≤ fd then some (-1)
  else do
    let real ← fetch h.fds fd.toNat
    return if real < 0 then -1 else real

/-- `BR_POLL` on the descriptors that stand in guest memory. -/
def brPoll (h : BridgeHost) (b : UInt64) (mapped : Bool) (items : List Int) :
    Option (Except Errno (List Int)) :=
  if maxFds < b.toNat then some (.error .EINVAL)
  else if mapped = false then some (.error .EFAULT)
  else (items.mapM (pollItem h)).map .ok

/-- The loop of `service_exec` that looks for a descriptor that is not in its place. -/
def scanFds (h : BridgeHost) : Option Bool :=
  (List.range maxFds).allM fun i => do
    let real ← fetch h.fds i
    return decide (real < 0 ∨ real = (i : Int))

/-! ### Any request -/

/-- The requests of `service` that index a table. -/
inductive Indexing where
  -- Those that create, replace or remove descriptors.
  | table (r : Request)
  -- Those that only translate the descriptor in their first argument: `BR_READ`,
  -- `BR_WRITE`, `BR_LSEEK`, `BR_FSTAT`, `BR_IOCTL`, the other commands of `BR_FCNTL` and so on.
  | translate (a : UInt64)
  | dirfd (a : UInt64)
  | readdir (a : UInt64) (mapped another : Bool)
  | sigaction (a : UInt64) (b n : Pointer) (flags : Nat) (recorded : Bool) (error : Option Errno)
  | rlimit (a : UInt64) (mapped : Bool) (error : Option Errno)
  | poll (b : UInt64) (mapped : Bool) (items : List Int)
  -- `BR_EXEC`, given whether its strings can be read.
  | exec (readable : Bool)

/-- Whether the request is served with all its accesses inside of the tables. -/
def Indexing.serve (l : Loaded) : Indexing → Option Unit
  | .table r => (service l.host r).map fun _ => ()
  | .translate a => (fetchFd l.host (toInt a)).map fun _ => ()
  | .dirfd a => (brDirfd l.host a).map fun _ => ()
  | .readdir a mapped another => (brReaddir l.host a mapped another).map fun _ => ()
  | .sigaction a b n flags recorded error =>
    (brSigaction l a b n flags recorded error).map fun _ => ()
  | .rlimit a mapped error => (brRlimit a mapped error).map fun _ => ()
  | .poll b mapped items => (brPoll l.host b mapped items).map fun _ => ()
  | .exec readable => if readable then (scanFds l.host).map fun _ => () else some ()

/-! ### Accesses inside of the tables -/

variable {h : BridgeHost} {l : Loaded}

theorem fetch_of_lt {α : Type} {size index : Nat} (table : Fin size → α) (inside : index < size) :
    fetch table index = some (table ⟨index, inside⟩) := dif_pos inside

theorem fetchFd_eq (h : BridgeHost) (guest : Int) : fetchFd h guest = some (h.fd guest) := by
  unfold fetchFd BridgeHost.fd
  by_cases inside : 0 ≤ guest ∧ guest.toNat < maxFds
  · rw [if_neg (by omega), fetch_of_lt _ inside.2, dif_pos inside]
    rfl
  · rw [if_pos (by omega), dif_neg inside]

theorem brDirfd_inside (h : BridgeHost) (a : UInt64) : (brDirfd h a).isSome = true := by
  unfold brDirfd
  split
  · rfl
  next inside =>
    simp only [fetch_of_lt _ (Nat.lt_of_not_le inside)]
    cases h.dirs ⟨a.toNat, Nat.lt_of_not_le inside⟩ <;> rfl

theorem brReaddir_inside (h : BridgeHost) (a : UInt64) (mapped another : Bool) :
    (brReaddir h a mapped another).isSome = true := by
  unfold brReaddir
  split
  · rfl
  next inside =>
    simp only [fetch_of_lt _ (Nat.lt_of_not_le inside)]
    cases h.dirs ⟨a.toNat, Nat.lt_of_not_le inside⟩ <;> cases mapped <;> rfl

theorem bridgeSignalNumber_lt (value : UInt64) : (bridgeSignalNumber value).toNat < 65 := by
  unfold bridgeSignalNumber toInt
  split
  · split <;> omega
  · decide

theorem brSigaction_inside (l : Loaded) (a : UInt64) (b n : Pointer) (flags : Nat)
    (recorded : Bool) (error : Option Errno) :
    (brSigaction l a b n flags recorded error).isSome = true := by
  have inside := bridgeSignalNumber_lt a
  unfold brSigaction
  dsimp only
  split
  · rfl
  · cases error with
    | some e => rfl
    | none =>
      simp only [fetch_of_lt _ inside, store, dif_pos inside]
      by_cases reads : n = .mapped ∧ recorded = true <;> by_cases writes : b = .mapped <;>
        simp [reads, writes]

theorem brRlimit_inside (a : UInt64) (mapped : Bool) (error : Option Errno) :
    (brRlimit a mapped error).isSome = true := by
  unfold brRlimit
  split
  · rfl
  · split
    · rfl
    next inside =>
      simp only [fetch_of_lt _ (Nat.lt_of_not_le inside)]
      rfl

theorem pollItem_inside (h : BridgeHost) (fd : Int) : ∃ real, pollItem h fd = some real := by
  unfold pollItem
  split
  · exact ⟨_, rfl⟩
  · split
    · exact ⟨_, rfl⟩
    · rw [fetch_of_lt _ (by omega)]
      exact ⟨_, rfl⟩

theorem brPoll_inside (h : BridgeHost) (b : UInt64) (mapped : Bool) (items : List Int) :
    (brPoll h b mapped items).isSome = true := by
  have all : (items.mapM (pollItem h)).isSome = true := by
    induction items with
    | nil => rfl
    | cons fd rest ih =>
      obtain ⟨real, first⟩ := pollItem_inside h fd
      obtain ⟨reals, later⟩ := Option.isSome_iff_exists.mp ih
      simp [List.mapM_cons, first, later]
  unfold brPoll
  split
  · rfl
  · split
    · rfl
    · simpa using all

theorem scanFds_inside (h : BridgeHost) : (scanFds h).isSome = true := by
  -- Every index that is left is below the size of the table.
  have every : ∀ indices : List Nat, (∀ i ∈ indices, i < maxFds) →
      (indices.allM fun i => do
        let real ← fetch h.fds i
        return decide (real < 0 ∨ real = (i : Int)) : Option Bool).isSome = true := by
    intro indices inside
    induction indices with
    | nil => rfl
    | cons i rest ih =>
      have later := ih fun j member => inside j (by simp [member])
      simp only [List.allM, fetch_of_lt _ (inside i (by simp)), Option.bind_eq_bind,
        Option.bind_some, Option.pure_def]
      split
      · exact later
      · rfl
  exact every _ fun i member => List.mem_range.mp member

theorem brClose_outside {a : UInt64} {actual : Nat} (error : Option Errno)
    (found : h.fd (toInt a) = .ok actual) (wide : maxFds ≤ a.toNat) : brClose h a error = none := by
  unfold brClose
  rw [found]
  simp [BridgeHost.setSlot, Nat.not_lt.mpr wide]

/-- In a state in which the table agrees, only a wide close leaves a table. -/
theorem serve_eq_none_iff (agrees : Agrees l.host []) (request : Indexing) :
    request.serve l = none ↔ ∃ r, request = .table r ∧ r.WideClose l.host := by
  cases request with
  | table r =>
    simp only [Indexing.serve, Option.map_eq_none_iff, Indexing.table.injEq, exists_eq_left']
    constructor
    · intro outside
      by_contra narrow
      obtain ⟨_, _, served, _⟩ := service_keeps agrees r narrow
      rw [outside] at served
      cases served
    · rintro ⟨a, error, actual, rfl, found, wide⟩
      exact brClose_outside error found wide
  | translate a => simp [Indexing.serve, fetchFd_eq]
  | dirfd a =>
    have inside := brDirfd_inside l.host a
    simp [Indexing.serve, ← Option.not_isSome_iff_eq_none, inside]
  | readdir a mapped another =>
    have inside := brReaddir_inside l.host a mapped another
    simp [Indexing.serve, ← Option.not_isSome_iff_eq_none, inside]
  | sigaction a b n flags recorded error =>
    have inside := brSigaction_inside l a b n flags recorded error
    simp [Indexing.serve, ← Option.not_isSome_iff_eq_none, inside]
  | rlimit a mapped error =>
    have inside := brRlimit_inside a mapped error
    simp [Indexing.serve, ← Option.not_isSome_iff_eq_none, inside]
  | poll b mapped items =>
    have inside := brPoll_inside l.host b mapped items
    simp [Indexing.serve, ← Option.not_isSome_iff_eq_none, inside]
  | exec readable =>
    have inside := scanFds_inside l.host
    cases readable <;> simp [Indexing.serve, ← Option.not_isSome_iff_eq_none, inside]

theorem step_agrees {h' : BridgeHost} (agrees : Agrees h []) (e : Event)
    (stepped : step h e = some h') : Agrees h' [] := by
  obtain ⟨after, same, kept⟩ := step_keeps agrees e (by
    rintro r rfl ⟨a, error, actual, rfl, found, wide⟩
    simp [step, service, brClose_outside error found wide] at stepped)
  rw [stepped] at same
  cases same
  exact kept

theorem run_agrees {h' : BridgeHost} (agrees : Agrees h []) (events : List Event)
    (ran : runPartial step h events = some h') : Agrees h' [] := by
  induction events generalizing h with
  | nil =>
    cases ran
    exact agrees
  | cons e events ih =>
    rw [runPartial, List.foldlM_cons] at ran
    obtain ⟨next, stepped, rest⟩ := Option.bind_eq_some_iff.mp ran
    exact ih (step_agrees agrees e stepped) rest

/-- In every state that the loader reaches, with any arguments, exactly one request can
leave a table: a close whose argument names an open descriptor only by its low half. -/
theorem index_outside_iff_wide_close (before native : Fds Descriptor)
    (fault : Fin maxFds → Option Fault) (locks : List Nat) (first : BridgeHost)
    (started : start before fault native locks = some first)
    (loaded : ∀ n < maxFds, native.isOpen n = before.isOpen n) (events : List Event) (l : Loaded)
    (ran : runPartial step first events = some l.host) (request : Indexing) :
    request.serve l = none ↔
      ∃ a error actual, request = .table (.close a error) ∧ l.host.fd (toInt a) = .ok actual ∧
        256 ≤ a.toNat := by
  have agrees := run_agrees (start_agrees started loaded) events ran
  rw [serve_eq_none_iff agrees]
  constructor
  · rintro ⟨r, rfl, a, error, actual, rfl, found, wide⟩
    exact ⟨a, error, actual, rfl, found, wide⟩
  · rintro ⟨a, error, actual, rfl, found, wide⟩
    exact ⟨_, rfl, a, error, actual, rfl, found, wide⟩

/-- The loader right after its start with the standard streams serves a request. -/
def servesAtStart (request : Indexing) : Option Bool :=
  (start stdio (fun _ => none) stdio []).map fun h => (request.serve ⟨h, fun _ => 0⟩).isSome

theorem exists_of_servesAtStart {request : Indexing} {serves : Bool}
    (same : servesAtStart request = some serves) :
    ∃ h, start stdio (fun _ => none) stdio [] = some h ∧
      (request.serve ⟨h, fun _ => 0⟩).isSome = serves :=
  Option.map_eq_some_iff.mp same

/-- Closing descriptor 1 by its own number stays inside. -/
theorem narrow_close_inside :
    ∃ h, start stdio (fun _ => none) stdio [] = some h ∧
      (Indexing.table (.close 1 none)).serve ⟨h, fun _ => 0⟩ ≠ none := by
  obtain ⟨h, started, -⟩ := exists_of_servesAtStart
    (by decide +kernel : servesAtStart (.table (.close 1 none)) = some true)
  refine ⟨h, started, fun outside => ?_⟩
  obtain ⟨a, _, _, same, _, wide⟩ := (index_outside_iff_wide_close stdio stdio (fun _ => none) [] h
    started (fun _ _ => rfl) [] ⟨h, fun _ => 0⟩ rfl _).mp outside
  cases same
  exact absurd wide (by decide)

/-- Closing it by the number plus 2 to the 32 writes far behind the table. -/
theorem wide_close_outside :
    ∃ h, start stdio (fun _ => none) stdio [] = some h ∧
      (Indexing.table (.close 4294967297 none)).serve ⟨h, fun _ => 0⟩ = none := by
  obtain ⟨h, started, outside⟩ := exists_of_servesAtStart
    (by decide +kernel : servesAtStart (.table (.close 4294967297 none)) = some false)
  exact ⟨h, started, by simpa using outside⟩

end LashOs.Descriptors
