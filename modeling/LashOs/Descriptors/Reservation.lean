import LashOs.Base.Run
import LashOs.Descriptors.Table

/-!
# Reserved descriptor slots

While the loader opens its own descriptors, `reserve_descriptor_slots` of `fds_host.h` keeps
every vacant number of the guest busy with a placeholder, and `release_descriptor_slots`
closes the placeholders again. Each native call may fail; closing does not.
-/
namespace LashOs.Descriptors

open Base

/-! ### Native calls under a limit -/

/-- `struct rlimit` for `RLIMIT_NOFILE`. -/
structure Limits where
  soft : Nat
  hard : Nat
  ordered : soft ≤ hard

structure Process where
  fds : Fds Descriptor
  limits : Limits

/-- A call that opens the lowest free number at or above `minimum`, below the soft limit. -/
def Process.open_ (p : Process) (minimum : Nat) (file : Descriptor) (fault : Option Errno) :
    Except Errno Nat × Process :=
  match fault with
  | some e => (.error e, p)
  | none =>
    if p.limits.soft ≤ p.fds.lowest minimum then (.error .EMFILE, p)
    else (.ok (p.fds.lowest minimum), { p with fds := (p.fds.allocate minimum file).2 })

def Process.close (p : Process) (n : Nat) : Process := { p with fds := p.fds.close n }

/-- `fcntl(n, F_GETFD)`; an error other than `EBADF` is the surroundings' choice. -/
def Process.getFd (p : Process) (n : Nat) (fault : Option { e : Errno // e ≠ .EBADF }) :
    Except Errno Unit :=
  match fault with
  | some e => .error e.1
  | none => if p.fds.isOpen n then .ok () else .error .EBADF

/-- `fcntl(n, F_DUPFD_CLOEXEC, minimum)` -/
def Process.dupFd (p : Process) (n minimum : Nat) (fault : Option Errno) :
    Except Errno Nat × Process :=
  match p.fds.entry n with
  | none => (.error .EBADF, p)
  | some d =>
    if p.limits.soft ≤ minimum then (.error .EINVAL, p)
    else p.open_ minimum { d with cloexec := true } fault

/-! ### `reserve_descriptor_slots` -/

/-- `struct descriptor_reservation` -/
structure Reservation where
  slots : Fin maxFds → Bool
  raisedLimit : Bool
  limit : Limits

/-- How the native calls of a reservation end, where that is not determined: the file that
`memfd_create` makes, and the calls that fail. -/
structure Surroundings where
  memfd : Nat
  getrlimitFault : Option Errno
  raiseFault : Option Errno
  memfdFault : Option Errno
  getFdFault : Fin maxFds → Option { e : Errno // e ≠ .EBADF }
  dupFdFault : Fin maxFds → Option Errno
  -- `setrlimit` when it lowers the limit again.
  lowerFault : Option Errno

/-- The first loop of `release_descriptor_slots`. -/
def closeSlots (slots : Fin maxFds → Bool) (indices : List (Fin maxFds)) (p : Process) : Process :=
  indices.foldl (fun p i => if slots i then p.close i else p) p

def releaseDescriptorSlots (p : Process) (reserved : Reservation) (lowerFault : Option Errno) :
    Except Errno Unit × Process × Reservation :=
  let p := closeSlots reserved.slots (List.finRange maxFds) p
  let reserved := { reserved with slots := fun _ => false }
  if reserved.raisedLimit then
    match lowerFault with
    | some e => (.error e, p, reserved)
    | none => (.ok (), { p with limits := reserved.limit }, { reserved with raisedLimit := false })
  else (.ok (), p, reserved)

/-- The limits with as much room as the hard limit allows, at most the guest's range. -/
def Limits.expanded (l : Limits) : Limits where
  soft := l.soft + min (l.hard - l.soft) maxFds
  hard := l.hard
  ordered := by
    have := l.ordered
    omega

/-- The loop of `reserve_descriptor_slots` over the numbers of the guest. -/
def fillSlots (s : Surroundings) (placeholder : Nat) :
    List (Fin maxFds) → Process → Reservation → Except Errno Unit × Process × Reservation
  | [], p, reserved => (.ok (), p, reserved)
  | i :: rest, p, reserved =>
    match p.getFd i (s.getFdFault i) with
    | .ok () => fillSlots s placeholder rest p reserved
    | .error e =>
      if e ≠ .EBADF then (.error e, p, reserved)
      else
        match p.dupFd placeholder i (s.dupFdFault i) with
        | (.error e, p) => (.error e, p, reserved)
        | (.ok _, p) =>
          fillSlots s placeholder rest p
            { reserved with slots := Function.update reserved.slots i true }

/-- The label `failed`: `errno` is kept, unless the limit cannot be lowered. -/
def failReservation (s : Surroundings) (e : Errno) (p : Process) (reserved : Reservation) :
    Except Errno Unit × Process × Reservation :=
  match releaseDescriptorSlots p reserved s.lowerFault with
  | (.error lower, rest) => (.error lower, rest)
  | (.ok (), rest) => (.error e, rest)

/-- `reserve_descriptor_slots` behind the change of the limit. -/
def occupySlots (s : Surroundings) (p : Process) (reserved : Reservation) :
    Except Errno Unit × Process × Reservation :=
  match p.open_ 0 ⟨s.memfd, true⟩ s.memfdFault with
  | (.error e, p) => failReservation s e p reserved
  | (.ok placeholder, p) =>
    let reserved := { reserved with
      slots := fun i => decide (i.val = placeholder) || reserved.slots i }
    match fillSlots s placeholder (List.finRange maxFds) p reserved with
    | (.error e, p, reserved) =>
      failReservation s e (if maxFds ≤ placeholder then p.close placeholder else p) reserved
    | (.ok (), p, reserved) =>
      (.ok (), if maxFds ≤ placeholder then p.close placeholder else p, reserved)

def reserveDescriptorSlots (s : Surroundings) (p : Process) :
    Except Errno Unit × Process × Reservation :=
  let reserved : Reservation := ⟨fun _ => false, false, p.limits⟩
  match s.getrlimitFault with
  | some e => (.error e, p, reserved)
  | none =>
    if p.limits.hard - p.limits.soft = 0 then occupySlots s p reserved
    else
      match s.raiseFault with
      | some e => (.error e, p, reserved)
      | none =>
        occupySlots s { p with limits := p.limits.expanded } { reserved with raisedLimit := true }

/-! ### The loader's own descriptors -/

/-- The loader while the slots are reserved; `allocated` is history. -/
structure Loader where
  process : Process
  allocated : List Nat

inductive PrivateCall where
  -- Any call that opens a descriptor, with its minimum.
  | open_ (minimum : Nat) (file : Descriptor) (fault : Option Errno)
  | close (n : Nat)

/-- One call of the loader. Its private descriptors are those that it has opened, and those
above the guest's range; no other one is closed. -/
def privateStep (l : Loader) : PrivateCall → Loader
  | .open_ minimum file fault =>
    match l.process.open_ minimum file fault with
    | (.error _, process) => { l with process }
    | (.ok n, process) => { process, allocated := l.allocated ++ [n] }
  | .close n => if n ∈ l.allocated ∨ maxFds ≤ n then { l with process := l.process.close n } else l

/-! ### Placeholders -/

/-- The process has placeholders in the marked slots, which were vacant before, and is as
before everywhere else. -/
structure Occupied (before p : Process) (file : Descriptor) (slots : Fin maxFds → Bool) : Prop where
  entry : ∀ n, p.fds.entry n =
    if ∃ i : Fin maxFds, i.val = n ∧ slots i = true then some file else before.fds.entry n
  vacant : ∀ i : Fin maxFds, slots i = true → before.fds.entry i = none

variable {before p p' : Process} {file : Descriptor} {slots : Fin maxFds → Bool}
  {s : Surroundings} {placeholder : Nat} {reserved reserved' : Reservation}
  {result : Except Errno Unit}

theorem Occupied.nothing (before : Process) (file : Descriptor) :
    Occupied before before file fun _ => false where
  entry := by simp
  vacant := by simp

theorem closeSlots_entry (slots : Fin maxFds → Bool) (indices : List (Fin maxFds)) (p : Process)
    (n : Nat) :
    (closeSlots slots indices p).fds.entry n =
      if ∃ i ∈ indices, i.val = n ∧ slots i = true then none else p.fds.entry n := by
  induction indices generalizing p with
  | nil => simp [closeSlots]
  | cons i rest ih =>
    have split := ih (if slots i then p.close i else p)
    rw [closeSlots, List.foldl_cons, ← closeSlots, split]
    by_cases later : ∃ j ∈ rest, j.val = n ∧ slots j = true
    · rw [if_pos later, if_pos]
      obtain ⟨j, member, holds⟩ := later
      exact ⟨j, by simp [member], holds⟩
    · rw [if_neg later]
      simp only [List.exists_mem_cons_iff, later, or_false]
      by_cases marked : slots i = true
      · by_cases here : i.val = n
        · simp [marked, here, Process.close, Fds.close]
        · simp [marked, here, Process.close, Fds.close, Ne.symm here]
      · simp [marked]

theorem closeSlots_limits (slots : Fin maxFds → Bool) (indices : List (Fin maxFds)) (p : Process) :
    (closeSlots slots indices p).limits = p.limits := by
  induction indices generalizing p with
  | nil => rfl
  | cons i rest ih =>
    rw [closeSlots, List.foldl_cons, ← closeSlots, ih]
    split <;> rfl

theorem release_spec (p : Process) (reserved : Reservation) :
    ∃ p' reserved', releaseDescriptorSlots p reserved none = (.ok (), p', reserved') ∧
      (∀ n, p'.fds.entry n =
        if ∃ i : Fin maxFds, i.val = n ∧ reserved.slots i = true then none else p.fds.entry n) ∧
      p'.limits = if reserved.raisedLimit then reserved.limit else p.limits := by
  unfold releaseDescriptorSlots
  dsimp only
  split
  next raised =>
    refine ⟨_, _, rfl, fun n => ?_, rfl⟩
    rw [closeSlots_entry]
    simp
  next kept =>
    refine ⟨_, _, rfl, fun n => ?_, closeSlots_limits _ _ p⟩
    rw [closeSlots_entry]
    simp

theorem Occupied.put (occupied : Occupied before p file slots) {i : Fin maxFds}
    (free : p.fds.isOpen i = false) :
    Occupied before { p with fds := p.fds.put i file } file (Function.update slots i true) := by
  have closed := Fds.isOpen_eq_false.mp free
  rw [occupied.entry] at closed
  have unmarked : ¬ ∃ j : Fin maxFds, j.val = i.val ∧ slots j = true := by
    intro marked
    rw [if_pos marked] at closed
    cases closed
  rw [if_neg unmarked] at closed
  constructor
  · intro n
    by_cases here : n = i.val
    · subst here
      simp [Fds.put, Fin.val_inj]
    · have same : (∃ j : Fin maxFds, j.val = n ∧ Function.update slots i true j = true) ↔
          ∃ j : Fin maxFds, j.val = n ∧ slots j = true := by
        refine exists_congr fun j => and_congr_right fun at_ => ?_
        rw [Function.update_of_ne (by rintro rfl; exact here at_.symm)]
      simp [Fds.put, here, occupied.entry n, same]
  · intro j marked
    by_cases here : j = i
    · exact here ▸ closed
    · exact occupied.vacant j (by rwa [Function.update_of_ne here] at marked)

/-! ### The loop -/

theorem Process.open_cases (p : Process) (minimum : Nat) (file : Descriptor) (fault : Option Errno) :
    (∃ e, p.open_ minimum file fault = (.error e, p)) ∨
    p.open_ minimum file fault =
      (.ok (p.fds.lowest minimum), { p with fds := p.fds.put (p.fds.lowest minimum) file }) := by
  unfold Process.open_
  cases fault with
  | some e => exact .inl ⟨e, rfl⟩
  | none =>
    by_cases full : p.limits.soft ≤ p.fds.lowest minimum
    · exact .inl ⟨.EMFILE, by simp [full]⟩
    · exact .inr (by simp [full, Fds.allocate])

theorem Process.dupFd_cases {i : Nat} (there : p.fds.entry placeholder = some file)
    (private_ : file.cloexec = true) (free : p.fds.isOpen i = false) (fault : Option Errno) :
    (∃ e, p.dupFd placeholder i fault = (.error e, p)) ∨
    p.dupFd placeholder i fault = (.ok i, { p with fds := p.fds.put i file }) := by
  have same : { file with cloexec := true } = file := by rw [← private_]
  unfold Process.dupFd
  simp only [there, same]
  split
  · exact .inl ⟨.EINVAL, rfl⟩
  · have number := p.fds.lowest_of_free free
    have opened := p.open_cases i file fault
    rwa [number] at opened

structure Filled (before p p' : Process) (file : Descriptor) (reserved reserved' : Reservation) :
    Prop where
  occupied : Occupied before p' file reserved'.slots
  limits : p'.limits = p.limits
  raised : reserved'.raisedLimit = reserved.raisedLimit
  limit : reserved'.limit = reserved.limit
  stays : ∀ n, p.fds.isOpen n = true → p'.fds.isOpen n = true

theorem fillSlots_filled (private_ : file.cloexec = true) (indices : List (Fin maxFds))
    (occupied : Occupied before p file reserved.slots)
    (there : p.fds.entry placeholder = some file)
    (filled : fillSlots s placeholder indices p reserved = (result, p', reserved')) :
    Filled before p p' file reserved reserved' ∧
      (result = .ok () → ∀ i ∈ indices, p'.fds.isOpen i = true) := by
  induction indices generalizing p reserved with
  | nil =>
    simp only [fillSlots, Prod.mk.injEq] at filled
    obtain ⟨rfl, rfl, rfl⟩ := filled
    exact ⟨⟨occupied, rfl, rfl, rfl, fun _ => id⟩, by simp⟩
  | cons i rest ih =>
    -- A call that fails ends the loop with what it has so far.
    have stopped : (∃ e, (.error e, p, reserved) = (result, p', reserved')) →
        Filled before p p' file reserved reserved' ∧
          (result = .ok () → ∀ j ∈ i :: rest, p'.fds.isOpen j = true) := by
      rintro ⟨e, same⟩
      simp only [Prod.mk.injEq] at same
      obtain ⟨rfl, rfl, rfl⟩ := same
      exact ⟨⟨occupied, rfl, rfl, rfl, fun _ => id⟩, by simp⟩
    unfold fillSlots Process.getFd at filled
    cases fault : s.getFdFault i with
    | some e =>
      simp only [fault, e.2, ne_eq, not_false_eq_true, if_true] at filled
      exact stopped ⟨_, filled⟩
    | none =>
      simp only [fault] at filled
      by_cases opened : p.fds.isOpen i = true
      · simp only [opened, if_true] at filled
        obtain ⟨later, all⟩ := ih occupied there filled
        refine ⟨later, fun worked => ?_⟩
        simp only [List.forall_mem_cons]
        exact ⟨later.stays i opened, all worked⟩
      · have free : p.fds.isOpen i = false := by simpa using opened
        simp only [free, Bool.false_eq_true, if_false, ne_eq, not_true_eq_false] at filled
        rcases Process.dupFd_cases there private_ free (s.dupFdFault i) with ⟨e, refused⟩ | taken
        · rw [refused] at filled
          exact stopped ⟨_, filled⟩
        · rw [taken] at filled
          obtain ⟨later, all⟩ := ih (occupied.put free) (by
            by_cases same : placeholder = i.val <;> simp [Fds.put, same, there]) filled
          refine ⟨⟨later.occupied, later.limits, later.raised, later.limit, ?_⟩, fun worked => ?_⟩
          · intro n before_
            exact later.stays n (by simp [before_])
          · simp only [List.forall_mem_cons]
            exact ⟨later.stays i (by simp), all worked⟩

/-! ### The whole reservation -/

theorem Occupied.drop (above : maxFds ≤ placeholder) (absent : before.fds.entry placeholder = none)
    (occupied : Occupied { before with fds := before.fds.put placeholder file } p file slots) :
    Occupied before (p.close placeholder) file slots := by
  have outside : ∀ i : Fin maxFds, i.val ≠ placeholder := fun i => by omega
  constructor
  · intro n
    by_cases here : n = placeholder
    · subst here
      simp [Process.close, Fds.close, outside, absent]
    · simp [Process.close, Fds.close, here, occupied.entry n, Fds.put]
  · intro i marked
    have vacant := occupied.vacant i marked
    simpa [Fds.put, outside i] using vacant

theorem Occupied.released (occupied : Occupied before p file slots) (n : Nat) :
    (if ∃ i : Fin maxFds, i.val = n ∧ slots i = true then none else p.fds.entry n) =
      before.fds.entry n := by
  by_cases marked : ∃ i : Fin maxFds, i.val = n ∧ slots i = true
  · obtain ⟨i, rfl, holds⟩ := marked
    rw [if_pos ⟨i, rfl, holds⟩, occupied.vacant i holds]
  · rw [if_neg marked, occupied.entry n, if_neg marked]

def Undone (before p : Process) (limits : Limits) : Prop :=
  (∀ n, p.fds.entry n = before.fds.entry n) ∧ p.limits = limits

theorem failReservation_undone (lower : s.lowerFault = none) (e : Errno)
    (occupied : Occupied before p file reserved.slots)
    (failed : failReservation s e p reserved = (result, p', reserved')) :
    result = .error e ∧
      Undone before p' (if reserved.raisedLimit then reserved.limit else p.limits) := by
  obtain ⟨q, _, release, entries, limits⟩ := release_spec p reserved
  rw [failReservation, lower, release] at failed
  simp only [Prod.mk.injEq] at failed
  obtain ⟨rfl, rfl, -⟩ := failed
  exact ⟨rfl, fun n => (entries n).trans (occupied.released n), limits⟩

/-- Every number of the guest is open, and only placeholders were added. -/
structure Reserved (before p : Process) (file : Descriptor) (reserved reserved' : Reservation) :
    Prop where
  occupied : Occupied before p file reserved'.slots
  limits : p.limits = before.limits
  raised : reserved'.raisedLimit = reserved.raisedLimit
  limit : reserved'.limit = reserved.limit
  full : ∀ n < maxFds, p.fds.isOpen n = true

theorem occupySlots_spec (lower : s.lowerFault = none) (none_ : reserved.slots = fun _ => false)
    (done : occupySlots s p reserved = (result, p', reserved')) :
    (result = .ok () ∧ Reserved p p' ⟨s.memfd, true⟩ reserved reserved') ∨
    ((∃ e, result = .error e) ∧
      Undone p p' (if reserved.raisedLimit then reserved.limit else p.limits)) := by
  unfold occupySlots at done
  rcases p.open_cases 0 ⟨s.memfd, true⟩ s.memfdFault with ⟨e, refused⟩ | opened
  · rw [refused] at done
    obtain ⟨failed, undone⟩ := failReservation_undone lower e
      (none_ ▸ Occupied.nothing p ⟨s.memfd, true⟩) done
    exact .inr ⟨⟨e, failed⟩, undone⟩
  rw [opened] at done
  have absent := Fds.isOpen_eq_false.mp (p.fds.lowest_free 0)
  generalize hn : p.fds.lowest 0 = placeholder at done absent
  generalize hf : (⟨s.memfd, true⟩ : Descriptor) = file at done
  have private_ : file.cloexec = true := by rw [← hf]
  simp only [none_, Bool.or_false] at done
  rcases filled : fillSlots s placeholder (List.finRange maxFds)
    { p with fds := p.fds.put placeholder file }
    { reserved with slots := fun i => decide (i.val = placeholder) } with ⟨outcome, q, r⟩
  rw [filled] at done
  -- What the loop leaves, with the placeholder taken away where it is no slot.
  have left : Occupied p (if maxFds ≤ placeholder then q.close placeholder else q) file r.slots ∧
      q.limits = p.limits ∧ r.raisedLimit = reserved.raisedLimit ∧ r.limit = reserved.limit ∧
      (outcome = .ok () → ∀ n < maxFds, q.fds.isOpen n = true) := by
    by_cases above : maxFds ≤ placeholder
    · have unmarked : (fun i : Fin maxFds => decide (i.val = placeholder)) = fun _ => false := by
        funext i
        simp only [decide_eq_false_iff_not]
        omega
      rw [unmarked] at filled
      obtain ⟨held, all⟩ := fillSlots_filled private_ _ (.nothing _ file) (by simp [Fds.put]) filled
      rw [if_pos above]
      exact ⟨held.occupied.drop above absent, held.limits, held.raised, held.limit,
        fun worked n inside => all worked ⟨n, inside⟩ (List.mem_finRange _)⟩
    · have inside : placeholder < maxFds := by omega
      have marked : (fun i : Fin maxFds => decide (i.val = placeholder)) =
          Function.update (fun _ => false) ⟨placeholder, inside⟩ true := by
        funext i
        by_cases here : i = ⟨placeholder, inside⟩
        · simp [here]
        · have differs : i.val ≠ placeholder := fun same => here (Fin.ext same)
          simp [here, differs]
      rw [marked] at filled
      obtain ⟨held, all⟩ := fillSlots_filled private_ _
        ((Occupied.nothing p file).put (i := ⟨placeholder, inside⟩) (hn ▸ p.fds.lowest_free 0))
        (by simp [Fds.put]) filled
      rw [if_neg above]
      exact ⟨held.occupied, held.limits, held.raised, held.limit,
        fun worked n below => all worked ⟨n, below⟩ (List.mem_finRange _)⟩
  obtain ⟨occupied, limits, raised, limit, all⟩ := left
  have sameLimits : (if maxFds ≤ placeholder then q.close placeholder else q).limits = p.limits := by
    split
    · exact limits
    · exact limits
  rcases outcome with e | ⟨⟨⟩⟩
  · obtain ⟨failed, undone⟩ := failReservation_undone lower e occupied done
    rw [raised, limit, sameLimits] at undone
    exact .inr ⟨⟨e, failed⟩, undone⟩
  · simp only [Prod.mk.injEq] at done
    obtain ⟨rfl, rfl, rfl⟩ := done
    refine .inl ⟨rfl, hf ▸ occupied, sameLimits, raised, limit, fun n inside => ?_⟩
    have opened := all rfl n inside
    split
    next above => simp [Process.close, opened, show n ≠ placeholder by omega]
    · exact opened

theorem reserve_spec (lower : s.lowerFault = none)
    (done : reserveDescriptorSlots s p = (result, p', reserved)) :
    (result = .ok () ∧ Occupied p p' ⟨s.memfd, true⟩ reserved.slots ∧
      (∀ n < maxFds, p'.fds.isOpen n = true) ∧
      (if reserved.raisedLimit then reserved.limit else p'.limits) = p.limits) ∨
    ((∃ e, result = .error e) ∧ Undone p p' p.limits) := by
  unfold reserveDescriptorSlots at done
  have untouched : ∀ {e : Errno} {r : Reservation}, (.error e, p, r) = (result, p', reserved) →
      (∃ e, result = .error e) ∧ Undone p p' p.limits := by
    intro e r same
    simp only [Prod.mk.injEq] at same
    obtain ⟨rfl, rfl, -⟩ := same
    exact ⟨⟨e, rfl⟩, fun _ => rfl, rfl⟩
  cases fault : s.getrlimitFault with
  | some e =>
    simp only [fault] at done
    exact .inr (untouched done)
  | none =>
    simp only [fault] at done
    by_cases tight : p.limits.hard - p.limits.soft = 0
    · rw [if_pos tight] at done
      rcases occupySlots_spec lower rfl done with ⟨worked, held⟩ | ⟨failed, undone⟩
      · exact .inl ⟨worked, held.occupied, held.full, by rw [held.raised]; exact held.limits⟩
      · exact .inr ⟨failed, undone⟩
    · rw [if_neg tight] at done
      cases raise : s.raiseFault with
      | some e =>
        simp only [raise] at done
        exact .inr (untouched done)
      | none =>
        simp only [raise] at done
        rcases occupySlots_spec lower rfl done with ⟨worked, held⟩ | ⟨failed, undone⟩
        · refine .inl ⟨worked, ⟨held.occupied.entry, held.occupied.vacant⟩, held.full, ?_⟩
          rw [held.raised]
          exact held.limit
        · exact .inr ⟨failed, undone⟩

structure Outside (held : Process) (l : Loader) : Prop where
  entry : ∀ n < maxFds, l.process.fds.entry n = held.fds.entry n
  limits : l.process.limits = held.limits
  above : ∀ n ∈ l.allocated, maxFds ≤ n

theorem privateStep_outside {held : Process} (full : ∀ n < maxFds, held.fds.isOpen n = true)
    (l : Loader) (call : PrivateCall) (outside : Outside held l) :
    Outside held (privateStep l call) := by
  cases call with
  | open_ minimum file fault =>
    unfold privateStep
    rcases l.process.open_cases minimum file fault with ⟨e, refused⟩ | opened
    · simp only [refused]
      exact ⟨outside.entry, outside.limits, outside.above⟩
    · -- The lowest free number is none of the guest's, because those are all open.
      have high : maxFds ≤ l.process.fds.lowest minimum := by
        by_contra low
        have free := Fds.isOpen_eq_false.mp (l.process.fds.lowest_free minimum)
        rw [outside.entry _ (by omega)] at free
        have taken := full _ (by omega : l.process.fds.lowest minimum < maxFds)
        rw [Fds.isOpen_eq_false.mpr free] at taken
        cases taken
      simp only [opened]
      refine ⟨fun n below => ?_, outside.limits, ?_⟩
      · have differs : n ≠ l.process.fds.lowest minimum := by omega
        simp only [Fds.put, if_neg differs, outside.entry n below]
      · simp only [List.forall_mem_append, List.forall_mem_singleton]
        exact ⟨outside.above, high⟩
  | close n =>
    by_cases mine : n ∈ l.allocated ∨ maxFds ≤ n
    · have high : maxFds ≤ n := mine.elim (outside.above n) id
      simp only [privateStep, if_pos mine]
      refine ⟨fun m below => ?_, outside.limits, outside.above⟩
      have differs : m ≠ n := by omega
      simp only [Process.close, Fds.close, if_neg differs, outside.entry m below]
    · simpa only [privateStep, if_neg mine] using outside

/-- A reservation that succeeds keeps the loader above the guest's range until it is
released, and then nothing is left of it; one that fails leaves nothing either. -/
theorem reservation_isolates_and_undoes (s : Surroundings) (p : Process)
    (lower : s.lowerFault = none) :
    ∃ result held reserved, reserveDescriptorSlots s p = (result, held, reserved) ∧
      (result = .ok () →
        (∀ n < 256, held.fds.isOpen n = true) ∧
        ∀ calls,
          (∀ n ∈ (run privateStep ⟨held, []⟩ calls).allocated, 256 ≤ n) ∧
          ∃ after reserved',
            releaseDescriptorSlots (run privateStep ⟨held, []⟩ calls).process reserved
              s.lowerFault = (.ok (), after, reserved') ∧
            (∀ n < 256, after.fds.entry n = p.fds.entry n) ∧ after.limits = p.limits) ∧
      (result ≠ .ok () →
        (∀ n, held.fds.entry n = p.fds.entry n) ∧ held.limits = p.limits) := by
  rcases done : reserveDescriptorSlots s p with ⟨result, held, reserved⟩
  refine ⟨result, held, reserved, rfl, ?_⟩
  rcases reserve_spec lower done with ⟨worked, occupied, full, limits⟩ | ⟨⟨e, failed⟩, undone⟩
  · refine ⟨fun _ => ⟨full, fun calls => ?_⟩, fun not => absurd worked not⟩
    have outside := run_invariant privateStep (fun _ => True) (Outside held)
      (fun l call _ => privateStep_outside full l call) calls (fun _ _ => trivial) ⟨held, []⟩
      ⟨fun _ _ => rfl, rfl, by simp⟩
    obtain ⟨after, reserved', release, entries, after_⟩ :=
      release_spec (run privateStep ⟨held, []⟩ calls).process reserved
    refine ⟨outside.above, after, reserved', lower ▸ release, fun n below => ?_, ?_⟩
    · rw [entries n, outside.entry n below]
      exact occupied.released n
    · rw [after_, outside.limits]
      exact limits
  · refine ⟨fun worked => ?_, fun _ => undone⟩
    rw [failed] at worked
    cases worked

def quiet : Surroundings := ⟨0, none, none, none, fun _ => none, fun _ => none, none⟩

/-- A process with two vacant numbers, one of them above its limit. -/
def crowded : Process where
  fds :=
    { entry := fun n => if n ≠ 5 ∧ n ≠ 250 ∧ n < 256 then some ⟨1, false⟩ else none
      bound := 256
      closed := fun n above => if_neg (by omega) }
  limits := ⟨200, 300, by decide⟩

/-- A reservation that succeeds after the limit was raised. -/
theorem crowded_isolated :
    (reserveDescriptorSlots quiet crowded).1 = .ok () ∧
    ∃ result held reserved, reserveDescriptorSlots quiet crowded = (result, held, reserved) ∧
      (result = .ok () →
        (∀ n < 256, held.fds.isOpen n = true) ∧
        ∀ calls,
          (∀ n ∈ (run privateStep ⟨held, []⟩ calls).allocated, 256 ≤ n) ∧
          ∃ after reserved',
            releaseDescriptorSlots (run privateStep ⟨held, []⟩ calls).process reserved
              quiet.lowerFault = (.ok (), after, reserved') ∧
            (∀ n < 256, after.fds.entry n = crowded.fds.entry n) ∧ after.limits = crowded.limits) ∧
      (result ≠ .ok () →
        (∀ n, held.fds.entry n = crowded.fds.entry n) ∧ held.limits = crowded.limits) :=
  ⟨by decide +kernel, reservation_isolates_and_undoes quiet crowded rfl⟩

end LashOs.Descriptors
