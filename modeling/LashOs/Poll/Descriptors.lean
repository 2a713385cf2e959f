import LashOs.Descriptors.Table
import LashOs.Signals.Machine

/-!
# `poll_descriptors`

The host polls native descriptors on behalf of the guest. Entries that are not open in the
guest's table are masked out of the native call and merged back afterwards. Signals that
arrive in between are the subject of `LashOs.Signals.Wakeup`; here a queue that is not empty
is part of the environment.
-/
namespace LashOs.Poll

open Signals
open Descriptors (maxFds)

abbrev Events : Type := BitVec 16

def pollIn : Events := 0x1
def pollPri : Events := 0x2
def pollOut : Events := 0x4
def pollErr : Events := 0x8
def pollHup : Events := 0x10
def pollNval : Events := 0x20

/-- `struct pollfd` -/
structure Pollfd where
  fd : Int
  events : Events
  revents : Events
  deriving DecidableEq, Repr

/-- `struct timespec` -/
structure Timespec where
  sec : Int
  nsec : Int
  deriving DecidableEq, Repr

/-- An entry whose `revents` is not zero counts. -/
def Pollfd.ready (entry : Pollfd) : Bool := entry.revents != 0

/-- The native `ppoll`: negative descriptors are ignored. -/
def nativePpoll (items : List Pollfd) (answer : Nat → Events) : List Pollfd :=
  items.mapIdx fun i item => { item with revents := if item.fd < 0 then 0 else answer i }

def openAt (descriptors : Fin maxFds → Int) (fd : Int) : Option Int :=
  if fd < 0 then none
  else if inside : fd.toNat < maxFds then
    let real := descriptors ⟨fd.toNat, inside⟩
    if real < 0 then none else some real
  else none

/-- One iteration of the first loop: `in[i]`, `items[i]` and whether `invalid` grows. -/
structure Prepared where
  entry : Pollfd
  item : Pollfd
  invalid : Bool

def prepare (descriptors : Fin maxFds → Int) (entry : Pollfd) : Prepared :=
  let cleared := { entry with revents := 0 }
  if entry.fd < 0 then ⟨cleared, { cleared with fd := -1 }, false⟩
  else
    match openAt descriptors entry.fd with
    | none => ⟨{ entry with revents := pollNval }, { cleared with fd := -1 }, true⟩
    | some real => ⟨cleared, { cleared with fd := real }, false⟩

/-- One iteration of the last loop. -/
def merge (entry item : Pollfd) : Pollfd := { entry with revents := entry.revents ||| item.revents }

/-- The environment of one call: whether `sigprocmask` fails when everything is blocked or
restored, the previous mask, the signals that have been published and what `ppoll` does. -/
structure Environment where
  blockFails : Option Errno
  previous : SigSet
  published : SigSet
  native : Except Errno (Nat → Events)
  restoreFails : Option Errno

/-- `entries` is the guest's array after the call, `waited` the native call if it was made. -/
structure Polled where
  entries : List Pollfd
  waited : Option (List Pollfd × Option Timespec)
  result : Except Errno Nat

/-- `c->pending_signals & ~pack_signal_mask(&desired)` -/
def interrupted (published desired : SigSet) : Bool :=
  (List.finRange 64).any fun n => published n && !packSignalMask desired n

def pollDescriptors (descriptors : Fin maxFds → Int) (entries : List Pollfd)
    (timeout : Option Timespec) (mask : Option SigSet) (env : Environment) : Polled :=
  if entries.length > maxFds then ⟨entries, none, .error .EINVAL⟩
  else
    let prepared := entries.map (prepare descriptors)
    let cleared := prepared.map Prepared.entry
    let items := prepared.map Prepared.item
    let invalid := prepared.countP Prepared.invalid
    let timeout := if invalid ≠ 0 then some ⟨0, 0⟩ else timeout
    match env.blockFails with
    | some error => ⟨cleared, none, .error error⟩
    | none =>
      let desired := (mask.map unpackSignalMask).getD env.previous
      let queued := interrupted env.published desired
      let waited := if queued then none else some (items, timeout)
      match env.restoreFails with
      | some error => ⟨cleared, waited, .error error⟩
      | none =>
        match if queued then .error .EINTR else env.native with
        | .error error => ⟨cleared, waited, .error error⟩
        | .ok answer =>
          let items := nativePpoll items answer
          ⟨List.zipWith merge cleared items, waited, .ok (items.countP Pollfd.ready + invalid)⟩

/-! ### One entry -/

variable {descriptors : Fin maxFds → Int} {answer : Nat → Events}

/-- What an entry is for: nothing, an error, or a native descriptor. -/
def expected (descriptors : Fin maxFds → Int) (entry : Pollfd) (native : Events) : Events :=
  if entry.fd < 0 then 0
  else if (openAt descriptors entry.fd).isSome then native else pollNval

theorem openAt_nonneg {fd real : Int} (found : openAt descriptors fd = some real) :
    0 ≤ fd ∧ 0 ≤ real := by
  unfold openAt at found
  split at found
  · cases found
  · split at found
    · simp only [Option.ite_none_left_eq_some, Option.some.injEq] at found
      omega
    · cases found

theorem prepare_merge (entry : Pollfd) (native : Events) :
    merge (prepare descriptors entry).entry
        { (prepare descriptors entry).item with
          revents := if (prepare descriptors entry).item.fd < 0 then 0 else native } =
      { entry with revents := expected descriptors entry native } := by
  unfold prepare
  simp only
  split
  next negative => simp [merge, expected, negative]
  next position =>
    split
    next closed => simp [merge, expected, position, closed]
    next real found =>
      have nonneg := Int.not_lt.mpr (openAt_nonneg found).2
      simp [merge, expected, position, found, nonneg]

theorem prepare_count (descriptors : Fin maxFds → Int) (entry : Pollfd) (native : Events) :
    (({ entry with revents := expected descriptors entry native } : Pollfd).ready).toNat =
      (({ (prepare descriptors entry).item with
          revents := if (prepare descriptors entry).item.fd < 0 then 0 else native } :
            Pollfd).ready).toNat + (prepare descriptors entry).invalid.toNat := by
  unfold prepare
  simp only
  split
  next negative => simp [expected, negative, Pollfd.ready]
  next position =>
    split
    next closed => simp [expected, position, closed, Pollfd.ready, pollNval]
    next real found =>
      have nonneg := Int.not_lt.mpr (openAt_nonneg found).2
      simp [expected, position, found, nonneg, Pollfd.ready]

/-! ### The array -/

theorem merged_entries (entries : List Pollfd) (answer : Nat → Events) :
    List.zipWith merge ((entries.map (prepare descriptors)).map Prepared.entry)
        (nativePpoll ((entries.map (prepare descriptors)).map Prepared.item) answer) =
      entries.mapIdx fun i entry =>
        { entry with revents := expected descriptors entry (answer i) } := by
  unfold nativePpoll
  induction entries generalizing answer with
  | nil => rfl
  | cons entry rest ih =>
    simp only [List.map_cons, List.mapIdx_cons, List.zipWith_cons_cons, prepare_merge]
    rw [ih fun i => answer (i + 1)]

theorem merged_count (entries : List Pollfd) (answer : Nat → Events) :
    (entries.mapIdx fun i entry =>
        ({ entry with revents := expected descriptors entry (answer i) } : Pollfd)).countP
          Pollfd.ready =
      (nativePpoll ((entries.map (prepare descriptors)).map Prepared.item) answer).countP
          Pollfd.ready + (entries.map (prepare descriptors)).countP Prepared.invalid := by
  unfold nativePpoll
  induction entries generalizing answer with
  | nil => rfl
  | cons entry rest ih =>
    have first := prepare_count descriptors entry (answer 0)
    have later := ih fun i => answer (i + 1)
    have one : ∀ b : Bool, (if b = true then 1 else 0) = b.toNat := by decide
    simp only [List.map_cons, List.mapIdx_cons, List.countP_cons, one] at first ⊢
    omega

theorem prepare_invalid (entry : Pollfd) : (prepare descriptors entry).invalid = true ↔
    0 ≤ entry.fd ∧ openAt descriptors entry.fd = none := by
  unfold prepare
  simp only
  split
  next negative => simp [Int.not_le.mpr negative]
  next position =>
    split
    next closed => simp [closed, Int.not_lt.mp position]
    next real found => simp [found]

/-- Inversion of a call that succeeds: the native call was made and answered. -/
theorem pollDescriptors_ok {entries : List Pollfd} {timeout : Option Timespec}
    {mask : Option SigSet} {env : Environment} {r : Nat}
    (returned : (pollDescriptors descriptors entries timeout mask env).result = .ok r) :
    ∃ answer wait, env.native = .ok answer ∧
      wait = (if (entries.map (prepare descriptors)).countP Prepared.invalid ≠ 0 then some ⟨0, 0⟩
        else timeout) ∧
      pollDescriptors descriptors entries timeout mask env =
        ⟨entries.mapIdx fun i entry =>
            { entry with revents := expected descriptors entry (answer i) },
          some ((entries.map (prepare descriptors)).map Prepared.item, wait), .ok r⟩ ∧
      r = (entries.mapIdx fun i entry =>
        ({ entry with revents := expected descriptors entry (answer i) } : Pollfd)).countP
          Pollfd.ready := by
  unfold pollDescriptors at returned ⊢
  simp only at returned ⊢
  split at returned
  · cases returned
  next small =>
  rw [if_neg small]
  split at returned
  · cases returned
  next blocked =>
  split at returned
  · cases returned
  next restored =>
  cases queued : interrupted env.published ((mask.map unpackSignalMask).getD env.previous) with
  | true => simp [queued] at returned
  | false =>
    simp only [queued, Bool.false_eq_true, if_false] at returned ⊢
    split at returned
    · cases returned
    next answer native =>
      cases returned
      refine ⟨answer, _, native, rfl, ?_, (merged_count entries answer).symm⟩
      simp only [merged_entries]

/-- A call that succeeds has polled, for each open entry, its native descriptor. Negative
entries report nothing, entries that are not open `POLLNVAL` without waiting, and the result
is the number of entries that report something. -/
theorem poll_refines_native (descriptors : Fin maxFds → Int) (entries : List Pollfd)
    (timeout : Option Timespec) (mask : Option SigSet) (env : Environment) (r : Nat)
    (returned : (pollDescriptors descriptors entries timeout mask env).result = .ok r) :
    ∃ out answer items wait,
      pollDescriptors descriptors entries timeout mask env = ⟨out, some (items, wait), .ok r⟩ ∧
      env.native = .ok answer ∧ out.length = entries.length ∧ items.length = entries.length ∧
      (∀ (i : Nat) (entry : Pollfd), entries[i]? = some entry →
        ∃ after item, out[i]? = some after ∧ items[i]? = some item ∧
          after.fd = entry.fd ∧ after.events = entry.events ∧
          (entry.fd < 0 → after.revents = 0) ∧
          (0 ≤ entry.fd → openAt descriptors entry.fd = none → after.revents = pollNval) ∧
          ∀ real, openAt descriptors entry.fd = some real →
            item.fd = real ∧ item.events = entry.events ∧ after.revents = answer i) ∧
      r = out.countP (fun entry => entry.revents != 0) ∧
      ((∃ entry ∈ entries, 0 ≤ entry.fd ∧ openAt descriptors entry.fd = none) →
        wait = some ⟨0, 0⟩) := by
  obtain ⟨answer, wait, native, chosen, ran, count⟩ := pollDescriptors_ok returned
  refine ⟨_, answer, _, wait, ran, native, by simp, by simp, ?_, count, ?_⟩
  · intro i entry found
    refine ⟨{ entry with revents := expected descriptors entry (answer i) },
      (prepare descriptors entry).item, by simp [found], by simp [found], rfl, rfl, ?_, ?_, ?_⟩
    · intro negative
      simp [expected, negative]
    · intro position closed
      simp [expected, Int.not_lt.mpr position, closed]
    · intro real found
      have position : ¬ entry.fd < 0 := Int.not_lt.mpr (openAt_nonneg found).1
      simp [expected, prepare, position, found]
  · rintro ⟨entry, member, closed⟩
    have positive : 0 < (entries.map (prepare descriptors)).countP Prepared.invalid :=
      List.countP_pos_iff.mpr
        ⟨_, List.mem_map_of_mem member, (prepare_invalid entry).mpr closed⟩
    rw [chosen, if_pos (by omega)]

def twoOpen : Fin maxFds → Int :=
  fun n => if n.val = 11 then 30 else if n.val = 12 then 31 else -1

/-- An idle and a ready descriptor among invalid ones, with stale events. -/
def staleEntries : List Pollfd :=
  [⟨10, pollIn, pollHup⟩, ⟨11, pollIn, pollHup⟩, ⟨12, pollIn, pollHup⟩, ⟨256, pollIn, pollHup⟩,
    ⟨-1, pollIn, pollHup⟩]

def inputReady : Environment :=
  ⟨none, fun _ => false, fun _ => false, .ok fun i => if i = 1 then pollIn else 0, none⟩

theorem staleEntries_polled : ∃ out answer items wait,
    pollDescriptors twoOpen staleEntries none none inputReady =
        ⟨out, some (items, wait), .ok 3⟩ ∧
      inputReady.native = .ok answer ∧ wait = some ⟨0, 0⟩ ∧
      3 = out.countP (fun entry => entry.revents != 0) := by
  obtain ⟨out, answer, items, wait, ran, native, -, -, -, count, immediate⟩ :=
    poll_refines_native twoOpen staleEntries none none inputReady 3 (by decide +kernel)
  exact ⟨out, answer, items, wait, ran, native,
    immediate ⟨⟨10, pollIn, pollHup⟩, by decide, by decide, by decide⟩, count⟩

end LashOs.Poll
