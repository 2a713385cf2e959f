import LashOs.Poll.Descriptors
import LashOs.Signals.Guest

/-!
# `pselect` and `select`

The guest builds `select` from `ppoll`, which it forwards over the bridge. Three descriptor
sets become one array of entries, and what the entries report becomes sets again.

The sets are different objects, as the prototypes say with `restrict`.
-/
namespace LashOs.Poll

open Signals
open Descriptors (maxFds)

/-- `FD_SETSIZE` of the guest, which is one bit for each descriptor of the loader. -/
def fdSetSize : Nat := 256

/-- `fd_set` -/
abbrev FdSet : Type := Finset (Fin fdSetSize)

/-- `FD_ISSET` -/
def FdSet.isset (set : FdSet) (fd : Nat) : Bool :=
  if inside : fd < fdSetSize then decide (⟨fd, inside⟩ ∈ set) else false

/-- `FD_SET` -/
def FdSet.set (set : FdSet) (fd : Int) : FdSet :=
  if inside : 0 ≤ fd ∧ fd.toNat < fdSetSize then insert ⟨fd.toNat, inside.2⟩ set else set

/-- The arguments `r`, `w` and `e`, which may be null. -/
structure Sets where
  read : Option FdSet
  write : Option FdSet
  except : Option FdSet
  deriving DecidableEq

/-- A call to the host: the array, the timeout in nanoseconds and the mask. -/
abbrev Bridge : Type := List Pollfd → Int → Option SigSet → List Pollfd × Except Errno Nat

/-- `ppoll` of a guest process. The product is computed in an `int64_t`. -/
def ppoll (bridge : Bridge) (p : Process) (fds : List Pollfd) (timeout : Option Timespec)
    (mask : Option SigSet) : List Pollfd × Except Errno Nat :=
  if ppollRefuses fds.length (timeout.map fun t => (t.sec, t.nsec)) then (fds, .error .EINVAL)
  else
    let ns := match timeout with
      | some t => (t.sec * 1000000000 + t.nsec).bmod (2 ^ 64)
      | none => -1
    bridge fds ns (p.effective mask)

/-- The entry that the first loop makes for descriptor `i`. -/
def entryOf (sets : Sets) (i : Nat) : Option Pollfd :=
  let events := (if sets.read.any (·.isset i) then pollIn else 0) |||
    (if sets.write.any (·.isset i) then pollOut else 0) |||
    (if sets.except.any (·.isset i) then pollPri else 0)
  if events ≠ 0 then some ⟨i, events, 0⟩ else none

def request (sets : Sets) (n : Nat) : List Pollfd := (List.range n).filterMap (entryOf sets)

/-- `FD_ZERO` on the sets that are there. -/
def Sets.zeroed (sets : Sets) : Sets :=
  ⟨sets.read.map fun _ => ∅, sets.write.map fun _ => ∅, sets.except.map fun _ => ∅⟩

/-- Whether an entry is reported in the read set, if there is one. -/
def Pollfd.reads (item : Pollfd) : Bool :=
  item.events &&& pollIn != 0 && item.revents &&& (pollIn ||| pollHup ||| pollErr) != 0

def Pollfd.writes (item : Pollfd) : Bool :=
  item.events &&& pollOut != 0 && item.revents &&& (pollOut ||| pollErr) != 0

def Pollfd.excepts (item : Pollfd) : Bool := item.revents &&& pollPri != 0

def Pollfd.invalid (item : Pollfd) : Bool := item.revents &&& pollNval != 0

/-- `FD_SET(fds[i].fd, set); rc++` under the conditions that there is a set and a report. -/
def mark (set : Option FdSet) (reported : Bool) (fd : Int) (rc : Nat) : Option FdSet × Nat :=
  match set, reported with
  | some set, true => (some (set.set fd), rc + 1)
  | set, _ => (set, rc)

/-- The last loop. -/
def rebuild : List Pollfd → Sets → Nat → Sets × Except Errno Nat
  | [], sets, rc => (sets, .ok rc)
  | item :: rest, sets, rc =>
    if item.invalid then (sets, .error .EBADF)
    else
      let (read, rc) := mark sets.read item.reads item.fd rc
      let (write, rc) := mark sets.write item.writes item.fd rc
      let (except, rc) := mark sets.except item.excepts item.fd rc
      rebuild rest ⟨read, write, except⟩ rc

def pselect (bridge : Bridge) (p : Process) (n : Int) (sets : Sets)
    (timeout : Option Timespec) (mask : Option SigSet) : Sets × Except Errno Nat :=
  if n < 0 ∨ n > 256 ∨ n > fdSetSize then (sets, .error .EINVAL)
  else
    match ppoll bridge p (request sets n.toNat) timeout mask with
    | (_, .error error) => (sets, .error error)
    | (fds, .ok _) => rebuild fds sets.zeroed 0

/-- `struct timeval` -/
structure Timeval where
  sec : Int
  usec : Int
  deriving DecidableEq, Repr

def select (bridge : Bridge) (p : Process) (n : Int) (sets : Sets)
    (timeout : Option Timeval) : Sets × Except Errno Nat :=
  pselect bridge p n sets
    (timeout.map fun t => ⟨t.sec, (t.usec * 1000).bmod (2 ^ 64)⟩) none

/-- `BR_POLL` of `service` on the descriptors of a guest. -/
def servePoll (descriptors : Fin maxFds → Int) (env : Environment) : Bridge :=
  fun fds ns mask =>
    if fds.length > maxFds then (fds, .error .EINVAL)
    else
      let timeout : Option Timespec :=
        if ns < 0 then none else some ⟨ns / 1000000000, ns % 1000000000⟩
      let polled := pollDescriptors descriptors fds timeout mask env
      (polled.entries, polled.result)

/-! ### Sets -/

theorem FdSet.mem_set (set : FdSet) (fd : Int) (d : Fin fdSetSize) :
    d ∈ set.set fd ↔ (d.val : Int) = fd ∨ d ∈ set := by
  unfold FdSet.set
  split
  next inside =>
    have same : d.val = fd.toNat ↔ (d.val : Int) = fd := by omega
    rw [Finset.mem_insert, Fin.ext_iff, same]
  next outside =>
    have bound := d.isLt
    constructor
    · exact .inr
    · rintro (same | member)
      · omega
      · exact member

theorem FdSet.isset_val (set : FdSet) (d : Fin fdSetSize) : set.isset d.val = decide (d ∈ set) := by
  simp [FdSet.isset, d.isLt]

def collect (reported : Pollfd → Bool) (items : List Pollfd) (set : FdSet) : FdSet :=
  items.foldl (fun set item => if reported item then set.set item.fd else set) set

theorem mem_collect (reported : Pollfd → Bool) (items : List Pollfd) (set : FdSet)
    (d : Fin fdSetSize) : d ∈ collect reported items set ↔
      d ∈ set ∨ ∃ item ∈ items, reported item = true ∧ item.fd = (d.val : Int) := by
  unfold collect
  induction items generalizing set with
  | nil => simp
  | cons item rest ih =>
    rw [List.foldl_cons, ih]
    cases seen : reported item with
    | false => simp [seen]
    | true =>
      simp only [if_true, FdSet.mem_set, List.mem_cons, exists_eq_or_imp, seen, true_and]
      rw [eq_comm (a := item.fd)]
      tauto

/-- Entries with different descriptors add as many bits as they report. -/
theorem card_collect (reported : Pollfd → Bool) (items : List Pollfd) (set : FdSet)
    (inside : ∀ item ∈ items, 0 ≤ item.fd ∧ item.fd < fdSetSize)
    (distinct : items.Pairwise fun a b => a.fd ≠ b.fd)
    (fresh : ∀ item ∈ items, ∀ d ∈ set, (d.val : Int) ≠ item.fd) :
    (collect reported items set).card = set.card + items.countP reported := by
  unfold collect
  induction items generalizing set with
  | nil => simp
  | cons item rest ih =>
    obtain ⟨different, others⟩ := List.pairwise_cons.mp distinct
    have later := fun set => ih set (fun i member => inside i (by simp [member])) others
    rw [List.foldl_cons, List.countP_cons]
    cases seen : reported item with
    | false =>
      simp only [Bool.false_eq_true, if_false]
      rw [later set fun i member => fresh i (by simp [member])]
      rfl
    | true =>
      simp only [if_true]
      have here := inside item (by simp)
      have absent : ⟨item.fd.toNat, by omega⟩ ∉ set := by
        intro member
        have apart := fresh item (by simp) _ member
        simp only at apart
        omega
      rw [later (set.set item.fd)]
      · unfold FdSet.set
        rw [dif_pos ⟨here.1, by omega⟩, Finset.card_insert_of_notMem absent]
        omega
      · intro i member d added
        rcases (FdSet.mem_set set item.fd d).mp added with same | old
        · rw [same]
          exact different i member
        · exact fresh i (by simp [member]) d old

/-! ### The last loop -/

/-- What the loop has made of the sets and the count after some entries. -/
def collected (items : List Pollfd) (sets : Sets) : Sets :=
  ⟨sets.read.map (collect Pollfd.reads items), sets.write.map (collect Pollfd.writes items),
    sets.except.map (collect Pollfd.excepts items)⟩

def marks (set : Option FdSet) (reported : Pollfd → Bool) (items : List Pollfd) : Nat :=
  if set.isSome then items.countP reported else 0

theorem mark_eq (set : Option FdSet) (reported : Pollfd → Bool) (item : Pollfd) (rc : Nat) :
    mark set (reported item) item.fd rc =
      (set.map fun set => if reported item then set.set item.fd else set,
        rc + marks set reported [item]) := by
  cases set <;> cases seen : reported item <;> simp [mark, marks, seen]

theorem marks_cons (set : Option FdSet) (reported : Pollfd → Bool) (item : Pollfd)
    (rest : List Pollfd) :
    marks set reported (item :: rest) = marks set reported [item] + marks set reported rest := by
  cases set <;> simp [marks, List.countP_cons, Nat.add_comm]

theorem marks_map (set : Option FdSet) (f : FdSet → FdSet) (reported : Pollfd → Bool)
    (items : List Pollfd) : marks (set.map f) reported items = marks set reported items := by
  cases set <;> rfl

theorem rebuild_append (items rest : List Pollfd) (sets : Sets) (rc : Nat)
    (valid : ∀ item ∈ items, item.invalid = false) :
    rebuild (items ++ rest) sets rc = rebuild rest (collected items sets)
      (rc + (marks sets.read Pollfd.reads items + marks sets.write Pollfd.writes items +
        marks sets.except Pollfd.excepts items)) := by
  induction items generalizing sets rc with
  | nil =>
    have nothing : ∀ reported, collect reported [] = id := fun _ => rfl
    simp [collected, nothing, marks]
  | cons item items ih =>
    have here := valid item (by simp)
    rw [List.cons_append, rebuild, here]
    simp only [Bool.false_eq_true, if_false, mark_eq]
    rw [ih _ _ fun i member => valid i (by simp [member])]
    simp only [marks_map, marks_cons _ _ item items]
    congr 1
    · simp only [collected, Option.map_map]
      rfl
    · omega

theorem rebuild_cases (items : List Pollfd) (sets : Sets) (rc : Nat) :
    (∀ item ∈ items, item.invalid = false) ∧
      rebuild items sets rc = (collected items sets,
        .ok (rc + (marks sets.read Pollfd.reads items + marks sets.write Pollfd.writes items +
          marks sets.except Pollfd.excepts items))) ∨
    ∃ before bad after, items = before ++ bad :: after ∧ bad.invalid = true ∧
      rebuild items sets rc = (collected before sets, .error .EBADF) := by
  cases found : items.find? Pollfd.invalid with
  | none =>
    have valid : ∀ item ∈ items, item.invalid = false := by
      simpa using List.find?_eq_none.mp found
    have all := rebuild_append items [] sets rc valid
    rw [List.append_nil] at all
    exact .inl ⟨valid, all⟩
  | some bad =>
    obtain ⟨invalid, before, after, rfl, passed⟩ := List.find?_eq_some_iff_append.mp found
    refine .inr ⟨before, bad, after, rfl, invalid, ?_⟩
    rw [rebuild_append before _ sets rc (by simpa using passed), rebuild, if_pos invalid]

/-! ### The request -/

variable {sets sets' : Sets} {n : Nat}

/-- The events of an entry say which sets it is in. -/
structure Requested (sets : Sets) (n : Nat) (item : Pollfd) : Prop where
  inside : 0 ≤ item.fd ∧ item.fd < n
  read : item.events &&& pollIn ≠ 0 ↔ sets.read.any (·.isset item.fd.toNat) = true
  write : item.events &&& pollOut ≠ 0 ↔ sets.write.any (·.isset item.fd.toNat) = true
  except : item.events &&& pollPri ≠ 0 ↔ sets.except.any (·.isset item.fd.toNat) = true
  asked : sets.read.any (·.isset item.fd.toNat) || sets.write.any (·.isset item.fd.toNat) ||
    sets.except.any (·.isset item.fd.toNat)
  limited : item.events &&& ~~~(pollIn ||| pollOut ||| pollPri) = 0

theorem entryOf_requested {i : Nat} (inside : i < n) {item : Pollfd}
    (made : entryOf sets i = some item) : Requested sets n item := by
  unfold entryOf at made
  simp only [Option.ite_none_right_eq_some, Option.some.injEq] at made
  obtain ⟨nonzero, rfl⟩ := made
  have fd : ((i : Int)).toNat = i := rfl
  refine ⟨by simp only; omega, ?_, ?_, ?_, ?_, ?_⟩ <;>
    revert nonzero <;> simp only [fd] <;>
    cases sets.read.any (·.isset i) <;> cases sets.write.any (·.isset i) <;>
      cases sets.except.any (·.isset i) <;> decide

theorem mem_request {item : Pollfd} (member : item ∈ request sets n) : Requested sets n item := by
  obtain ⟨i, inside, made⟩ := List.mem_filterMap.mp member
  exact entryOf_requested (List.mem_range.mp inside) made

theorem request_distinct (sets : Sets) (n : Nat) :
    (request sets n).Pairwise fun a b => a.fd ≠ b.fd := by
  refine List.pairwise_filterMap.mpr (List.pairwise_lt_range.imp ?_)
  intro i j before a first b second
  unfold entryOf at first second
  simp only [Option.ite_none_right_eq_some, Option.some.injEq] at first second
  obtain ⟨-, rfl⟩ := first
  obtain ⟨-, rfl⟩ := second
  simp only
  omega

/-! ### Answers of `ppoll` -/

/-- Only the `revents` of the entries have been written. -/
def Kept (fds after : List Pollfd) : Prop :=
  after.map (fun item => (item.fd, item.events)) = fds.map fun item => (item.fd, item.events)

/-- An answer without `POLLNVAL`. -/
structure Answers (fds after : List Pollfd) (returned : Nat) : Prop where
  kept : Kept fds after
  limited : ∀ item ∈ after, item.revents &&& ~~~(item.events ||| pollHup ||| pollErr) = 0
  counted : returned = after.countP Pollfd.ready

instance (fds after : List Pollfd) : Decidable (Kept fds after) :=
  inferInstanceAs (Decidable (_ = _))

theorem answers_iff {fds after : List Pollfd} {returned : Nat} : Answers fds after returned ↔
    Kept fds after ∧
      (∀ item ∈ after, item.revents &&& ~~~(item.events ||| pollHup ||| pollErr) = 0) ∧
      returned = after.countP Pollfd.ready :=
  ⟨fun answers => ⟨answers.kept, answers.limited, answers.counted⟩,
    fun ⟨kept, limited, counted⟩ => ⟨kept, limited, counted⟩⟩

instance (fds after : List Pollfd) (returned : Nat) : Decidable (Answers fds after returned) :=
  decidable_of_iff _ answers_iff.symm

theorem Kept.requested {after : List Pollfd} (kept : Kept (request sets n) after) :
    ∀ item ∈ after, Requested sets n item := by
  intro item member
  have key : (item.fd, item.events) ∈
      (request sets n).map fun item => (item.fd, item.events) := by
    rw [← kept]
    exact List.mem_map_of_mem (f := fun item : Pollfd => (item.fd, item.events)) member
  obtain ⟨original, asked, same⟩ := List.mem_map.mp key
  obtain ⟨fd, events⟩ := Prod.mk.inj same
  have requested := mem_request asked
  exact ⟨fd ▸ requested.inside, fd ▸ events ▸ requested.read, fd ▸ events ▸ requested.write,
    fd ▸ events ▸ requested.except, fd ▸ requested.asked, events ▸ requested.limited⟩

theorem Kept.distinct {after : List Pollfd} (kept : Kept (request sets n) after) :
    after.Pairwise fun a b => a.fd ≠ b.fd := by
  have pairs : ((request sets n).map fun item => (item.fd, item.events)).Pairwise
      fun a b => a.1 ≠ b.1 := List.pairwise_map.mpr (request_distinct sets n)
  rw [← kept] at pairs
  exact (List.pairwise_map (R := fun a b : Int × Events => a.1 ≠ b.1)).mp pairs

theorem and_eq_zero {x limit c : Events} (limited : x &&& ~~~limit = 0) (apart : limit &&& c = 0) :
    x &&& c = 0 := by
  ext i inside
  have left := congrArg (fun v => v.getLsbD i) limited
  have right := congrArg (fun v => v.getLsbD i) apart
  simp at left right ⊢
  grind

theorem Answers.not_reported {after : List Pollfd} {returned : Nat} {fds : List Pollfd}
    (answers : Answers fds after returned) {item : Pollfd} (member : item ∈ after) {c : Events}
    (unasked : item.events &&& c = 0) (other : (pollHup ||| pollErr) &&& c = 0) :
    item.revents &&& c = 0 := by
  refine and_eq_zero (answers.limited item member) ?_
  rw [BitVec.or_assoc, BitVec.and_or_distrib_right, unasked, other]
  rfl

theorem Answers.valid {after : List Pollfd} {returned : Nat}
    (answers : Answers (request sets n) after returned) :
    ∀ item ∈ after, item.invalid = false := by
  intro item member
  have unasked := and_eq_zero (c := pollNval) (answers.kept.requested item member).limited
    (by decide)
  simp [Pollfd.invalid, answers.not_reported member unasked (by decide)]

/-! ### What is reported -/

def bits : Option FdSet → Nat
  | none => 0
  | some set => set.card

def Below : Option FdSet → Option FdSet → Prop
  | none, none => True
  | some set, some other => set ⊆ other
  | _, _ => False

theorem report_exact (set : Option FdSet) (reported : Pollfd → Bool) {items : List Pollfd}
    (inside : ∀ item ∈ items, 0 ≤ item.fd ∧ item.fd < fdSetSize)
    (distinct : items.Pairwise fun a b => a.fd ≠ b.fd)
    (asked : ∀ item ∈ items, reported item = true →
      set.any (·.isset item.fd.toNat) = true) :
    marks (set.map fun _ => ∅) reported items = items.countP reported ∧
      bits ((set.map fun _ => ∅).map (collect reported items)) = items.countP reported ∧
      Below ((set.map fun _ => ∅).map (collect reported items)) set := by
  cases set with
  | none =>
    have never : items.countP reported = 0 := List.countP_eq_zero.mpr fun item member seen => by
      simpa using asked item member seen
    simp [marks, bits, Below, never]
  | some set =>
    refine ⟨by simp [marks], ?_, ?_⟩
    · simp only [Option.map_some, bits]
      rw [card_collect reported items ∅ inside distinct (by simp)]
      simp
    · intro d member
      rcases (mem_collect reported items ∅ d).mp member with absurd_ | ⟨item, listed, seen, fd⟩
      · simp at absurd_
      · have found := asked item listed seen
        rw [fd] at found
        simpa [FdSet.isset_val] using found

/-- An entry whose report shows in one of the sets. -/
def Pollfd.shown (item : Pollfd) : Bool := item.reads || item.writes || item.excepts

theorem countP_shown (items : List Pollfd) :
    items.countP Pollfd.reads + items.countP Pollfd.writes + items.countP Pollfd.excepts = 0 ↔
      ¬ ∃ item ∈ items, item.shown = true := by
  simp only [Nat.add_eq_zero_iff, List.countP_eq_zero, Pollfd.shown, Bool.or_eq_true]
  constructor
  · rintro ⟨⟨reads, writes⟩, excepts⟩ ⟨item, member, (seen | seen) | seen⟩
    · exact reads item member seen
    · exact writes item member seen
    · exact excepts item member seen
  · intro none
    refine ⟨⟨?_, ?_⟩, ?_⟩
    · exact fun item member seen => none ⟨item, member, .inl (.inl seen)⟩
    · exact fun item member seen => none ⟨item, member, .inl (.inr seen)⟩
    · exact fun item member seen => none ⟨item, member, .inr seen⟩

section Calls

variable {bridge : Bridge} {p : Process} {count : Int} {timeout : Option Timespec}
  {mask : Option SigSet}

theorem pselect_ok {k : Nat}
    (succeeded : pselect bridge p count sets timeout mask = (sets', .ok k)) :
    0 ≤ count ∧ count ≤ 256 ∧ ∃ after returned,
      ppoll bridge p (request sets count.toNat) timeout mask = (after, .ok returned) ∧
        rebuild after sets.zeroed 0 = (sets', .ok k) := by
  unfold pselect at succeeded
  split at succeeded
  · cases succeeded
  · split at succeeded
    · cases succeeded
    next after returned polled =>
      exact ⟨by omega, by omega, after, returned, polled, succeeded⟩

theorem pselect_exact {k : Nat}
    (succeeded : pselect bridge p count sets timeout mask = (sets', .ok k))
    (answers : ∀ after returned,
      ppoll bridge p (request sets count.toNat) timeout mask = (after, .ok returned) →
        Answers (request sets count.toNat) after returned) :
    ∃ after returned,
      ppoll bridge p (request sets count.toNat) timeout mask = (after, .ok returned) ∧
      k = bits sets'.read + bits sets'.write + bits sets'.except ∧
      Below sets'.read sets.read ∧ Below sets'.write sets.write ∧
      Below sets'.except sets.except ∧
      (k = 0 ↔ ¬ ∃ item ∈ after, item.shown = true) := by
  obtain ⟨low, high, after, returned, polled, rebuilt⟩ := pselect_ok succeeded
  have answer := answers after returned polled
  have requested := answer.kept.requested
  have distinct := answer.kept.distinct
  have inside : ∀ item ∈ after, 0 ≤ item.fd ∧ item.fd < fdSetSize := by
    intro item member
    have range := (requested item member).inside
    unfold fdSetSize
    omega
  obtain ⟨readMarks, readBits, readBelow⟩ := report_exact sets.read
    Pollfd.reads inside distinct fun item member seen =>
      (requested item member).read.mp (by
        simp only [Pollfd.reads, Bool.and_eq_true, bne_iff_ne] at seen
        exact seen.1)
  obtain ⟨writeMarks, writeBits, writeBelow⟩ := report_exact sets.write
    Pollfd.writes inside distinct fun item member seen =>
      (requested item member).write.mp (by
        simp only [Pollfd.writes, Bool.and_eq_true, bne_iff_ne] at seen
        exact seen.1)
  obtain ⟨exceptMarks, exceptBits, exceptBelow⟩ := report_exact sets.except
    Pollfd.excepts inside distinct fun item member seen =>
      (requested item member).except.mp fun unasked => by
        -- The source does not look at `events` here, but a report of this kind was asked for.
        simp [Pollfd.excepts, answer.not_reported member unasked (by decide)] at seen
  rcases rebuild_cases after sets.zeroed 0 with ⟨-, done⟩ | ⟨before, bad, rest, split_, invalid, -⟩
  · rw [rebuilt] at done
    obtain ⟨rfl, total⟩ := Prod.mk.inj done
    obtain rfl := Except.ok.inj total
    refine ⟨after, returned, polled, ?_, readBelow, writeBelow, exceptBelow, ?_⟩
    · simp only [collected, Sets.zeroed, readMarks, readBits, writeMarks, writeBits, exceptMarks,
        exceptBits]
      omega
    · rw [← countP_shown]
      simp only [Sets.zeroed, readMarks, writeMarks, exceptMarks]
      omega
  · have valid := answer.valid bad (by simp [split_])
    rw [valid] at invalid
    cases invalid

theorem pselect_error {error : Errno}
    (failed : pselect bridge p count sets timeout mask = (sets', .error error)) :
    sets' = sets ∧ (∀ after returned,
        ppoll bridge p (request sets count.toNat) timeout mask = (after, .ok returned) →
          ¬ (0 ≤ count ∧ count ≤ 256)) ∨
      0 ≤ count ∧ count ≤ 256 ∧ ∃ after returned,
        ppoll bridge p (request sets count.toNat) timeout mask = (after, .ok returned) ∧
          rebuild after sets.zeroed 0 = (sets', .error error) := by
  unfold pselect at failed
  split at failed
  next outside =>
    refine .inl ⟨(Prod.mk.inj failed).1.symm, fun _ _ _ inside => ?_⟩
    unfold fdSetSize at outside
    omega
  next inside =>
    split at failed
    next polled =>
      refine .inl ⟨(Prod.mk.inj failed).1.symm, fun after returned ok => ?_⟩
      rw [polled] at ok
      cases ok
    next after returned polled =>
      exact .inr ⟨by omega, by omega, after, returned, polled, failed⟩

/-- The sets that the loop leaves at an entry that is not valid do not have its bit. -/
theorem rebuild_error_changes {after : List Pollfd} (small : n ≤ fdSetSize)
    (kept : Kept (request sets n) after) {error : Errno}
    (failed : rebuild after sets.zeroed 0 = (sets', .error error)) :
    sets' ≠ sets ∧ ∃ item ∈ after, item.invalid = true := by
  rcases rebuild_cases after sets.zeroed 0 with ⟨-, done⟩ | ⟨before, bad, rest, rfl, invalid, done⟩
  · rw [failed] at done
    cases (Prod.mk.inj done).2
  rw [failed] at done
  obtain ⟨rfl, -⟩ := Prod.mk.inj done
  refine ⟨fun same => ?_, bad, by simp, invalid⟩
  have requested := kept.requested bad (by simp)
  have range := requested.inside
  have earlier : ∀ item ∈ before, item.fd ≠ bad.fd := by
    intro item member
    exact (List.pairwise_append.mp kept.distinct).2.2 item member bad (by simp)
  -- None of the sets has the bit, but the entry was asked for in one of them.
  have cleared : ∀ (set : Option FdSet) (reported : Pollfd → Bool),
      (set.map fun _ => ∅).map (collect reported before) = set →
        set.any (·.isset bad.fd.toNat) = false := by
    intro set reported unchanged
    rw [← unchanged]
    cases set with
    | none => rfl
    | some set =>
      simp only [Option.map_some, Option.any_some]
      have bound : bad.fd.toNat < fdSetSize := by omega
      rw [FdSet.isset_val _ ⟨bad.fd.toNat, bound⟩, decide_eq_false_iff_not, mem_collect]
      rintro (absurd_ | ⟨item, member, -, fd⟩)
      · simp at absurd_
      · refine earlier item member ?_
        rw [fd]
        simp only
        omega
  have read := cleared sets.read Pollfd.reads (congrArg Sets.read same)
  have write := cleared sets.write Pollfd.writes (congrArg Sets.write same)
  have except := cleared sets.except Pollfd.excepts (congrArg Sets.except same)
  simpa [read, write, except] using requested.asked

end Calls

/-! ### Calls -/

/-- Both functions, with the arguments that they do not share. -/
inductive SelectCall where
  | pselect (timeout : Option Timespec) (mask : Option SigSet)
  | select (timeout : Option Timeval)

def SelectCall.run (call : SelectCall) (bridge : Bridge) (p : Process) (n : Int) (sets : Sets) :
    Sets × Except Errno Nat :=
  match call with
  | .pselect timeout mask => Poll.pselect bridge p n sets timeout mask
  | .select timeout => Poll.select bridge p n sets timeout

/-- The call of `ppoll` that a call makes. -/
def SelectCall.ppoll (call : SelectCall) (bridge : Bridge) (p : Process) (n : Int) (sets : Sets) :
    List Pollfd × Except Errno Nat :=
  match call with
  | .pselect timeout mask => Poll.ppoll bridge p (request sets n.toNat) timeout mask
  | .select timeout => Poll.ppoll bridge p (request sets n.toNat)
      (timeout.map fun t => ⟨t.sec, (t.usec * 1000).bmod (2 ^ 64)⟩) none

theorem SelectCall.run_eq (call : SelectCall) (bridge : Bridge) (p : Process) (n : Int)
    (sets : Sets) : ∃ timeout mask, call.run bridge p n sets =
        Poll.pselect bridge p n sets timeout mask ∧
      call.ppoll bridge p n sets = Poll.ppoll bridge p (request sets n.toNat) timeout mask := by
  cases call with
  | pselect timeout mask => exact ⟨timeout, mask, rfl, rfl⟩
  | select timeout => exact ⟨_, none, rfl, rfl⟩

/-- On success the result is the number of bits in the sets, which are part of what was
passed. It is 0 after a wait that did not time out exactly if no entry with an event is
shown in one of its sets: a hang-up shows in the read set only, and an error does not show
in the exception set. -/
theorem select_reports_iff (call : SelectCall) (bridge : Bridge) (p : Process) (n : Int)
    (sets sets' : Sets) (k : Nat) (succeeded : call.run bridge p n sets = (sets', .ok k))
    (answers : ∀ after returned, call.ppoll bridge p n sets = (after, .ok returned) →
      Answers (request sets n.toNat) after returned) :
    ∃ after returned, call.ppoll bridge p n sets = (after, .ok returned) ∧
      k = bits sets'.read + bits sets'.write + bits sets'.except ∧
      Below sets'.read sets.read ∧ Below sets'.write sets.write ∧
      Below sets'.except sets.except ∧
      ((k = 0 → returned = 0) ↔ returned = 0 ∨ ∃ item ∈ after, item.shown = true) := by
  obtain ⟨timeout, mask, run, poll⟩ := call.run_eq bridge p n sets
  rw [run] at succeeded
  rw [poll] at answers ⊢
  obtain ⟨after, returned, polled, total, read, write, except, zero⟩ :=
    pselect_exact succeeded answers
  refine ⟨after, returned, polled, total, read, write, except, ?_⟩
  rw [zero, ← or_iff_not_imp_left, or_comm]

def firstOpen : Fin maxFds → Int := fun n => if n.val = 0 then 5 else -1

/-- Every native descriptor reports `events`, and there are no signals. -/
def reporting (events : Events) : Environment :=
  ⟨none, fun _ => false, fun _ => false, .ok fun _ => events, none⟩

/-- Input shows in the read set. -/
theorem input_shown : ∃ after returned,
    (SelectCall.select none).ppoll (servePoll firstOpen (reporting pollIn)) Process.fresh 1
        ⟨some (FdSet.set ∅ 0), none, none⟩ = (after, .ok returned) ∧
      ((1 = 0 → returned = 0) ↔ returned = 0 ∨ ∃ item ∈ after, item.shown = true) := by
  have succeeded : (SelectCall.select none).run (servePoll firstOpen (reporting pollIn))
      Process.fresh 1 ⟨some (FdSet.set ∅ 0), none, none⟩ =
        (⟨some (FdSet.set ∅ 0), none, none⟩, .ok 1) := by decide +kernel
  have polled : (SelectCall.select none).ppoll (servePoll firstOpen (reporting pollIn))
      Process.fresh 1 ⟨some (FdSet.set ∅ 0), none, none⟩ =
        ([⟨0, pollIn, pollIn⟩], .ok 1) := by decide +kernel
  obtain ⟨after, returned, same, -, -, -, -, exact_⟩ := select_reports_iff _ _ _ _ _ _ _ succeeded
    fun after returned ran => by
      rw [polled] at ran
      cases ran
      decide +kernel
  exact ⟨after, returned, same, exact_⟩

/-- A descriptor that is watched for writing only is hung up: the wait ends without a
timeout, but `select` returns 0. -/
theorem hangup_not_shown :
    (SelectCall.select none).ppoll (servePoll firstOpen (reporting pollHup)) Process.fresh 1
        ⟨none, some (FdSet.set ∅ 0), none⟩ = ([⟨0, pollOut, pollHup⟩], .ok 1) ∧
      Answers (request ⟨none, some (FdSet.set ∅ 0), none⟩ 1) [⟨0, pollOut, pollHup⟩] 1 ∧
      (SelectCall.select none).run (servePoll firstOpen (reporting pollHup)) Process.fresh 1
        ⟨none, some (FdSet.set ∅ 0), none⟩ = (⟨none, some ∅, none⟩, .ok 0) := by
  decide +kernel

/-- A failing call leaves the sets alone exactly if it does not fail because `ppoll` reported
a descriptor that is not open. -/
theorem failed_select_keeps_iff (call : SelectCall) (bridge : Bridge) (p : Process) (n : Int)
    (sets sets' : Sets) (error : Errno)
    (failed : call.run bridge p n sets = (sets', .error error))
    (kept : ∀ after returned, call.ppoll bridge p n sets = (after, .ok returned) →
      Kept (request sets n.toNat) after) :
    sets' = sets ↔ ¬ (0 ≤ n ∧ n ≤ 256 ∧ ∃ after returned,
      call.ppoll bridge p n sets = (after, .ok returned) ∧
        ∃ item ∈ after, item.invalid = true) := by
  obtain ⟨timeout, mask, run, poll⟩ := call.run_eq bridge p n sets
  rw [run] at failed
  rw [poll] at kept ⊢
  rcases pselect_error failed with ⟨same, refused⟩ | ⟨low, high, after, returned, polled, stopped⟩
  · refine iff_of_true same ?_
    rintro ⟨low, high, after, returned, polled, -⟩
    exact refused after returned polled ⟨low, high⟩
  · have small : n.toNat ≤ fdSetSize := by
      unfold fdSetSize
      omega
    obtain ⟨changed, invalid⟩ := rebuild_error_changes small (kept after returned polled) stopped
    exact iff_of_false changed (not_not.mpr ⟨low, high, after, returned, polled, invalid⟩)

/-- A timeout that is refused leaves the sets alone. -/
theorem refused_keeps :
    (SelectCall.select (some ⟨0, -1⟩)).run (servePoll firstOpen (reporting pollIn)) Process.fresh 1
        ⟨some (FdSet.set ∅ 0), none, none⟩ =
          (⟨some (FdSet.set ∅ 0), none, none⟩, .error .EINVAL) ∧
      ¬ ∃ after returned, (SelectCall.select (some ⟨0, -1⟩)).ppoll
        (servePoll firstOpen (reporting pollIn)) Process.fresh 1
          ⟨some (FdSet.set ∅ 0), none, none⟩ = (after, .ok returned) ∧
            ∃ item ∈ after, item.invalid = true := by
  have failed : (SelectCall.select (some ⟨0, -1⟩)).run (servePoll firstOpen (reporting pollIn))
      Process.fresh 1 ⟨some (FdSet.set ∅ 0), none, none⟩ =
        (⟨some (FdSet.set ∅ 0), none, none⟩, .error .EINVAL) := by decide +kernel
  have refused : ((SelectCall.select (some ⟨0, -1⟩)).ppoll
      (servePoll firstOpen (reporting pollIn)) Process.fresh 1
        ⟨some (FdSet.set ∅ 0), none, none⟩).2 = .error .EINVAL := by decide +kernel
  have keeps := failed_select_keeps_iff _ _ _ _ _ _ _ failed fun after returned ran => by
    rw [ran] at refused
    cases refused
  exact ⟨failed, fun invalid => keeps.mp rfl ⟨by decide, by decide, invalid⟩⟩

/-- Descriptor 1 is not open: the set loses both of its bits. -/
theorem closed_descriptor_clears :
    (SelectCall.select none).run (servePoll firstOpen (reporting 0)) Process.fresh 2
        ⟨some ((FdSet.set ∅ 0).set 1), none, none⟩ = (⟨some ∅, none, none⟩, .error .EBADF) ∧
      some ((FdSet.set ∅ 0).set 1) ≠ some ∅ := by
  decide +kernel

end LashOs.Poll
