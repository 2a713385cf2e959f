import LashOs.Poll.Select

/-!
# The time a call waits

`ppoll` packs seconds and nanoseconds into one signed 64-bit count, with a negative count for
no timeout, and `BR_POLL` takes the count apart again. `poll` goes through `ppoll`.
-/
namespace LashOs.Poll

open Signals
open Descriptors (maxFds)

/-- The count that `ppoll` passes to the bridge. -/
def nanoseconds : Option Timespec → Int
  | some t => (t.sec * 1000000000 + t.nsec).bmod (2 ^ 64)
  | none => -1

/-- The timeout that `BR_POLL` makes of the count. -/
def servedTimeout (ns : Int) : Option Timespec :=
  if ns < 0 then none else some ⟨ns / 1000000000, ns % 1000000000⟩

/-- `BR_POLL` together with the native call that it makes. -/
def served (descriptors : Fin maxFds → Int) (env : Environment) (fds : List Pollfd) (ns : Int)
    (mask : Option SigSet) : Polled :=
  if fds.length > maxFds then ⟨fds, none, .error .EINVAL⟩
  else pollDescriptors descriptors fds (servedTimeout ns) mask env

/-- The guest's `ppoll` together with the native call that the host makes for it. -/
def ppollServed (descriptors : Fin maxFds → Int) (env : Environment) (p : Process)
    (fds : List Pollfd) (timeout : Option Timespec) (mask : Option SigSet) : Polled :=
  if ppollRefuses fds.length (timeout.map fun t => (t.sec, t.nsec)) then
    ⟨fds, none, .error .EINVAL⟩
  else served descriptors env fds (nanoseconds timeout) (p.effective mask)

/-- The timeout that `poll` builds; `milliseconds` is an `int`. -/
def pollTimeout (milliseconds : Int) : Option Timespec :=
  if milliseconds < 0 then none
  else some ⟨milliseconds.tdiv 1000, milliseconds.tmod 1000 * 1000000⟩

def pollServed (descriptors : Fin maxFds → Int) (env : Environment) (p : Process)
    (fds : List Pollfd) (milliseconds : Int) : Polled :=
  ppollServed descriptors env p fds (pollTimeout milliseconds) none

section

variable (descriptors : Fin maxFds → Int) (env : Environment) (p : Process) (fds : List Pollfd)

theorem servePoll_eq (ns : Int) (mask : Option SigSet) :
    servePoll descriptors env fds ns mask =
      ((served descriptors env fds ns mask).entries,
        (served descriptors env fds ns mask).result) := by
  unfold servePoll served servedTimeout
  split <;> rfl

theorem ppoll_servePoll (timeout : Option Timespec) (mask : Option SigSet) :
    ppoll (servePoll descriptors env) p fds timeout mask =
      ((ppollServed descriptors env p fds timeout mask).entries,
        (ppollServed descriptors env p fds timeout mask).result) := by
  unfold ppoll ppollServed
  split
  · rfl
  · rw [← servePoll_eq]
    cases timeout <;> rfl

end

/-! ### The count -/

theorem servedTimeout_of_lt {t : Timespec} (sec : 0 ≤ t.sec) (low : 0 ≤ t.nsec)
    (high : t.nsec < 1000000000) (fits : t.sec * 1000000000 + t.nsec < 2 ^ 63) :
    servedTimeout (nanoseconds (some t)) = some t := by
  have count : (t.sec * 1000000000 + t.nsec).bmod (2 ^ 64) = t.sec * 1000000000 + t.nsec :=
    Int.bmod_eq_of_le (by omega) (by omega)
  rw [nanoseconds, count, servedTimeout, if_neg (by omega)]
  have quotient : (t.sec * 1000000000 + t.nsec) / 1000000000 = t.sec := by omega
  have remainder : (t.sec * 1000000000 + t.nsec) % 1000000000 = t.nsec := by omega
  rw [quotient, remainder]

theorem servedTimeout_lt {ns : Int} {t : Timespec} (small : ns < 2 ^ 63)
    (served : servedTimeout ns = some t) : t.sec * 1000000000 + t.nsec < 2 ^ 63 := by
  unfold servedTimeout at served
  split at served
  · cases served
  · cases served
    have total := Int.mul_ediv_add_emod ns 1000000000
    dsimp only
    omega

theorem nanoseconds_lt (timeout : Option Timespec) : nanoseconds timeout < 2 ^ 63 := by
  cases timeout with
  | none => decide
  | some t =>
    have bound := Int.bmod_lt (x := t.sec * 1000000000 + t.nsec) (m := 2 ^ 64) (by decide)
    simp only [nanoseconds]
    omega

theorem servedTimeout_nanoseconds_iff {timeout : Option Timespec}
    (accepted : ∀ t, timeout = some t → 0 ≤ t.sec ∧ 0 ≤ t.nsec ∧ t.nsec < 1000000000) :
    servedTimeout (nanoseconds timeout) = timeout ↔
      ∀ t, timeout = some t → t.sec * 1000000000 + t.nsec < 2 ^ 63 := by
  cases timeout with
  | none =>
    constructor
    · intro _ t here
      cases here
    · intro _
      rfl
  | some t =>
    obtain ⟨sec, low, high⟩ := accepted t rfl
    constructor
    · intro same t' here
      cases here
      exact servedTimeout_lt (nanoseconds_lt (some t)) same
    · intro fits
      exact servedTimeout_of_lt sec low high (fits t rfl)

theorem ppollRefuses_eq_false {count : Nat} {timeout : Option Timespec}
    (accepted : ppollRefuses count (timeout.map fun t => (t.sec, t.nsec)) = false) :
    count ≤ maxFds ∧
      ∀ t, timeout = some t → 0 ≤ t.sec ∧ 0 ≤ t.nsec ∧ t.nsec < 1000000000 := by
  unfold ppollRefuses at accepted
  rw [Bool.or_eq_false_iff, decide_eq_false_iff_not] at accepted
  obtain ⟨few, refused⟩ := accepted
  refine ⟨Nat.le_of_not_lt few, ?_⟩
  rintro t rfl
  simp only [Option.map_some, Bool.or_eq_false_iff, decide_eq_false_iff_not] at refused
  omega

/-! ### The native call -/

section

variable {descriptors : Fin maxFds → Int} {env : Environment} {p : Process} {fds : List Pollfd}

def Valid (descriptors : Fin maxFds → Int) (entry : Pollfd) : Prop :=
  entry.fd < 0 ∨ (openAt descriptors entry.fd).isSome

theorem prepare_valid {entry : Pollfd} (valid : Valid descriptors entry) :
    (prepare descriptors entry).invalid = false := by
  unfold prepare
  dsimp only
  split
  · rfl
  next known =>
    obtain ⟨real, opened⟩ := Option.isSome_iff_exists.mp (valid.resolve_left known)
    rw [opened]

theorem pollDescriptors_waited (valid : ∀ entry ∈ fds, Valid descriptors entry)
    {timeout : Option Timespec} {mask : Option SigSet} {items : List Pollfd}
    {native : Option Timespec}
    (waited : (pollDescriptors descriptors fds timeout mask env).waited = some (items, native)) :
    native = timeout := by
  have none_invalid : (fds.map (prepare descriptors)).countP Prepared.invalid = 0 := by
    rw [List.countP_eq_zero]
    intro prepared member
    obtain ⟨entry, here, rfl⟩ := List.mem_map.mp member
    rw [prepare_valid (valid entry here)]
    exact Bool.false_ne_true
  unfold pollDescriptors at waited
  split at waited
  · cases waited
  · simp only [none_invalid, ne_eq, not_true_eq_false, if_false] at waited
    split at waited
    · cases waited
    · -- The call is made before the mask is restored, so that the cases below it agree.
      have called : (if interrupted env.published ((mask.map unpackSignalMask).getD env.previous)
          then none else some ((fds.map (prepare descriptors)).map Prepared.item, timeout)) =
          some (items, native) := by
        split at waited
        · exact waited
        · split at waited <;> exact waited
      split at called
      · cases called
      · cases called
        rfl

theorem ppollServed_waited (valid : ∀ entry ∈ fds, Valid descriptors entry)
    {timeout : Option Timespec} {mask : Option SigSet} {items : List Pollfd}
    {native : Option Timespec}
    (accepted : ppollRefuses fds.length (timeout.map fun t => (t.sec, t.nsec)) = false)
    (waited : (ppollServed descriptors env p fds timeout mask).waited = some (items, native)) :
    native = servedTimeout (nanoseconds timeout) := by
  have few := (ppollRefuses_eq_false accepted).1
  rw [ppollServed, accepted, if_neg Bool.false_ne_true, served, if_neg (by omega)] at waited
  exact pollDescriptors_waited valid waited

theorem pollTimeout_accepted {count : Nat} (few : count ≤ maxFds) (milliseconds : Int) :
    ppollRefuses count ((pollTimeout milliseconds).map fun t => (t.sec, t.nsec)) = false := by
  have bound : ¬ 256 < count := Nat.not_lt.mpr few
  by_cases negative : milliseconds < 0
  · rw [pollTimeout, if_pos negative]
    simp [ppollRefuses, bound]
  · have positive := Int.le_of_not_gt negative
    have quotient := Int.tdiv_nonneg positive (by decide : (0 : Int) ≤ 1000)
    have remainder := Int.tmod_nonneg (1000 : Int) positive
    have below := Int.tmod_lt_of_pos milliseconds (by decide : (0 : Int) < 1000)
    rw [pollTimeout, if_neg negative]
    simp only [Option.map_some, ppollRefuses, Bool.or_eq_false_iff, decide_eq_false_iff_not]
    refine ⟨bound, ⟨?_, ?_⟩, ?_⟩ <;> omega

theorem servedTimeout_pollTimeout {milliseconds : Int} (int : milliseconds < 2 ^ 31) :
    (servedTimeout (nanoseconds (pollTimeout milliseconds)) = none ↔ milliseconds < 0) ∧
    ∀ t, servedTimeout (nanoseconds (pollTimeout milliseconds)) = some t →
      t.sec * 1000000000 + t.nsec = milliseconds * 1000000 := by
  by_cases negative : milliseconds < 0
  · have forever : pollTimeout milliseconds = none := if_pos negative
    rw [forever]
    exact ⟨⟨fun _ => negative, fun _ => rfl⟩, fun t here => by cases here⟩
  · have positive := Int.le_of_not_gt negative
    have quotient := Int.tdiv_nonneg positive (by decide : (0 : Int) ≤ 1000)
    have remainder := Int.tmod_nonneg (1000 : Int) positive
    have below := Int.tmod_lt_of_pos milliseconds (by decide : (0 : Int) < 1000)
    have total := Int.mul_tdiv_add_tmod milliseconds 1000
    have whole : servedTimeout (nanoseconds (pollTimeout milliseconds)) =
        some ⟨milliseconds.tdiv 1000, milliseconds.tmod 1000 * 1000000⟩ := by
      rw [pollTimeout, if_neg negative]
      apply servedTimeout_of_lt <;> dsimp only <;> omega
    rw [whole]
    refine ⟨⟨fun here => (Option.some_ne_none _ here).elim, fun h => (negative h).elim⟩, ?_⟩
    intro t here
    cases here
    dsimp only
    omega

end

/-- The native call waits as long as the guest asked exactly if that is below 2^63
nanoseconds; `poll` always does. -/
theorem wait_survives_iff (descriptors : Fin maxFds → Int) (env : Environment) (p : Process)
    (fds : List Pollfd) (valid : ∀ entry ∈ fds, Valid descriptors entry) :
    (∀ timeout mask items native,
      ppollRefuses fds.length (timeout.map fun t => (t.sec, t.nsec)) = false →
      (ppollServed descriptors env p fds timeout mask).waited = some (items, native) →
      (native = timeout ↔ ∀ t, timeout = some t → t.sec * 1000000000 + t.nsec < 2 ^ 63)) ∧
    ∀ milliseconds items native, milliseconds < 2 ^ 31 →
      (pollServed descriptors env p fds milliseconds).waited = some (items, native) →
      (native = none ↔ milliseconds < 0) ∧
      ∀ t, native = some t → t.sec * 1000000000 + t.nsec = milliseconds * 1000000 := by
  constructor
  · intro timeout mask items native accepted waited
    rw [ppollServed_waited valid accepted waited]
    exact servedTimeout_nanoseconds_iff (ppollRefuses_eq_false accepted).2
  · intro milliseconds items native int waited
    have few : fds.length ≤ maxFds := by
      by_contra many
      have refused : ppollRefuses fds.length
          ((pollTimeout milliseconds).map fun t => (t.sec, t.nsec)) = true := by
        have long : 256 < fds.length := Nat.lt_of_not_le many
        simp [ppollRefuses, long]
      rw [pollServed, ppollServed, refused, if_pos rfl] at waited
      cases waited
    rw [ppollServed_waited valid (pollTimeout_accepted few milliseconds) waited]
    exact servedTimeout_pollTimeout int

theorem firstOpen_valid : ∀ entry ∈ [(⟨0, pollIn, 0⟩ : Pollfd)], Valid firstOpen entry := by
  intro entry member
  rw [List.mem_singleton.mp member]
  exact .inr (by decide +kernel)

/-- Five seconds arrive as five seconds. -/
theorem seconds_survive :
    (ppollServed firstOpen (reporting pollIn) Process.fresh [⟨0, pollIn, 0⟩] (some ⟨5, 7⟩)
      none).waited = some ([⟨5, pollIn, 0⟩], some ⟨5, 7⟩) ∧
    ∀ t, some (⟨5, 7⟩ : Timespec) = some t → t.sec * 1000000000 + t.nsec < 2 ^ 63 := by
  have waited : (ppollServed firstOpen (reporting pollIn) Process.fresh [⟨0, pollIn, 0⟩]
      (some ⟨5, 7⟩) none).waited = some ([⟨5, pollIn, 0⟩], some ⟨5, 7⟩) := by decide +kernel
  have survives := (wait_survives_iff firstOpen (reporting pollIn) Process.fresh
    [⟨0, pollIn, 0⟩] firstOpen_valid).1 (some ⟨5, 7⟩) none _ _ (by decide +kernel) waited
  exact ⟨waited, survives.mp rfl⟩

/-- A finite timeout of 2^63 nanoseconds and more reaches the host as none. -/
theorem centuries_wait_forever :
    ppollRefuses 1 (some (9223372037, 0)) = false ∧
    (∀ entry ∈ [(⟨0, pollIn, 0⟩ : Pollfd)], Valid firstOpen entry) ∧
    (ppollServed firstOpen (reporting pollIn) Process.fresh [⟨0, pollIn, 0⟩]
      (some ⟨9223372037, 0⟩) none).waited = some ([⟨5, pollIn, 0⟩], none) :=
  ⟨by decide +kernel, firstOpen_valid, by decide +kernel⟩

end LashOs.Poll
