import Mathlib.Data.List.Perm.Subperm
import LashOs.Base.Run
import LashOs.Descriptors.Service

/-!
# The descriptor table invariant

Every slot of the table holds its own number exactly if that native descriptor is open.
While a request is being served some native descriptors are open and not adopted yet.
-/
namespace LashOs.Descriptors

open Base

/-- The table agrees with the native descriptors, apart from the `pending` ones. A directory
stream's two copies of its number agree, but the number may be closed or reused by now. -/
structure Agrees (h : BridgeHost) (pending : List Nat) : Prop where
  slot : ∀ i : Fin maxFds,
    h.fds i = if h.native.isOpen i = true ∧ i.val ∉ pending then (i.val : Int) else -1
  waiting : ∀ n ∈ pending, h.native.isOpen n = true
  distinct : pending.Nodup
  dirs : ∀ i stream, h.dirs i = some stream → stream < maxFds ∧ h.dirFds i = (stream : Int)

variable {h : BridgeHost} {pending : List Nat} {real : Nat}

theorem Agrees.slot_open (agrees : Agrees h pending) (i : Fin maxFds) (used : ¬h.fds i < 0) :
    h.fds i = (i.val : Int) ∧ h.native.isOpen i = true := by
  have slot := agrees.slot i
  by_cases opened : h.native.isOpen i = true ∧ i.val ∉ pending
  · rw [if_pos opened] at slot
    exact ⟨slot, opened.1⟩
  · rw [if_neg opened] at slot
    omega

theorem Agrees.slot_vacant (agrees : Agrees h pending) (i : Fin maxFds)
    (vacant : h.native.isOpen i = false ∨ i.val ∈ pending) : h.fds i = -1 := by
  rw [agrees.slot i, if_neg]
  rintro ⟨opened, absent⟩
  rcases vacant with closed | member
  · rw [closed] at opened; cases opened
  · exact absent member

theorem Agrees.fd_eq (agrees : Agrees h pending) {guest : Int} {actual : Nat}
    (found : h.fd guest = .ok actual) :
    guest = (actual : Int) ∧ actual < maxFds ∧ h.native.isOpen actual = true := by
  unfold BridgeHost.fd at found
  split at found
  next inside =>
    split at found
    · cases found
    next used =>
      obtain ⟨same, opened⟩ := agrees.slot_open _ used
      rw [same] at found
      simp only [Int.toNat_natCast, Except.ok.injEq] at found
      subst found
      exact ⟨(Int.toNat_of_nonneg inside.1).symm, inside.2, opened⟩
  · cases found

/-! ### The helpers -/

theorem Agrees.closePending (agrees : Agrees h (real :: pending)) :
    Agrees (h.closeNative real) pending := by
  obtain ⟨fresh, distinct⟩ := List.nodup_cons.mp agrees.distinct
  refine ⟨?_, ?_, distinct, agrees.dirs⟩
  · intro i
    have slot := agrees.slot i
    by_cases same : i.val = real
    · simp [BridgeHost.closeNative, slot, same]
    · simp [BridgeHost.closeNative, slot, same]
  · intro n member
    have other : n ≠ real := fun same => fresh (same ▸ member)
    simp [BridgeHost.closeNative, other, agrees.waiting n (by simp [member])]

/-- Adopting a pending descriptor succeeds exactly below the table's size; otherwise it is
closed. Its slot is vacant because the table agreed before it was opened. -/
theorem Agrees.adopt (agrees : Agrees h (real :: pending)) {minimum : Nat} (above : minimum ≤ real) :
    ∃ h' logical, adoptDescriptor h (.ok real) minimum = (h', logical) ∧ Agrees h' pending ∧
      (real < maxFds ∧ logical = .ok real ∧ h'.native = h.native ∨
        maxFds ≤ real ∧ logical = .error .EMFILE ∧ h'.native = h.native.close real) := by
  obtain ⟨fresh, distinct⟩ := List.nodup_cons.mp agrees.distinct
  unfold adoptDescriptor
  by_cases inside : real < maxFds
  · have vacant : h.fds ⟨real, inside⟩ = -1 := agrees.slot_vacant _ (Or.inr (by simp))
    simp only [inside, dite_true, above, vacant, true_and]
    refine ⟨_, _, rfl, ⟨?_, ?_, distinct, agrees.dirs⟩, Or.inl ⟨rfl, rfl⟩⟩
    · intro i
      have opened := agrees.waiting real (by simp)
      by_cases same : i = ⟨real, inside⟩
      · subst same
        simp [opened, fresh]
      · have other : i.val ≠ real := fun equal => same (Fin.ext equal)
        simp [same, other, agrees.slot i]
    · intro n member
      exact agrees.waiting n (by simp [member])
  · simp only [inside, dite_false]
    exact ⟨_, _, rfl, agrees.closePending, Or.inr ⟨by omega, rfl, rfl⟩⟩

theorem Agrees.release (agrees : Agrees h pending) (n : Nat) (inside : n < maxFds)
    (absent : n ∉ pending) :
    ∃ h', (h.closeNative n).setSlot n (-1) = some h' ∧ Agrees h' pending ∧
      h'.dirs = h.dirs ∧ h'.native = h.native.close n := by
  refine ⟨_, BridgeHost.setSlot_natCast _ n inside _, ⟨?_, ?_, agrees.distinct, agrees.dirs⟩,
    rfl, rfl⟩
  · intro i
    by_cases same : i = ⟨n, inside⟩
    · subst same
      simp [BridgeHost.closeNative]
    · have other : i.val ≠ n := fun equal => same (Fin.ext equal)
      simp [BridgeHost.closeNative, same, other, agrees.slot i]
  · intro m member
    have other : m ≠ n := fun equal => absent (equal ▸ member)
    simp [BridgeHost.closeNative, other, agrees.waiting m member]

theorem Agrees.takeBack (agrees : Agrees h pending) (n : Nat) (inside : n < maxFds)
    (adopted : h.fds ⟨n, inside⟩ = (n : Int)) (absent : n ∉ pending) :
    ∃ h', takeBack h n = some h' ∧ Agrees h' pending ∧ h'.native = h.native.close n := by
  obtain ⟨h', cleared, agrees', -, native⟩ := agrees.release n inside absent
  refine ⟨h', ?_, agrees', native⟩
  simp only [Descriptors.takeBack, inside, dite_true, adopted, Int.toNat_natCast]
  exact cleared

theorem Agrees.openNative (agrees : Agrees h []) (minimum : Nat)
    (native : Except Errno Descriptor) :
    (∃ e, h.openNative minimum native = (h, .error e)) ∨
    ∃ h' real, h.openNative minimum native = (h', .ok real) ∧ minimum ≤ real ∧ Agrees h' [real] ∧
      h'.dirs = h.dirs := by
  cases native with
  | error e => exact Or.inl ⟨e, rfl⟩
  | ok file =>
    right
    refine ⟨_, _, rfl, h.native.le_lowest minimum, ⟨?_, ?_, by simp, agrees.dirs⟩, rfl⟩
    · intro i
      have free := h.native.lowest_free minimum
      have slot := agrees.slot i
      by_cases same : i.val = h.native.lowest minimum
      · rw [same] at slot
        simp [Fds.allocate, same, slot, free]
      · simp [Fds.allocate, same, slot]
    · simp [Fds.allocate]

theorem Agrees.save (agrees : Agrees h []) (minimum : Nat) (native : Except Errno Descriptor) :
    Agrees (adoptDescriptor (h.openNative minimum native).1
      (h.openNative minimum native).2 minimum).1 [] := by
  rcases agrees.openNative minimum native with ⟨e, failed⟩ | ⟨h', real, opened, above, pending, -⟩
  · rw [failed]; exact agrees
  · obtain ⟨h'', logical, adopted, agrees', -⟩ := pending.adopt above
    rw [opened, adopted]
    exact agrees'

/-! ### The requests -/

/-- The request was served within the loader's arrays and the table agrees afterwards. -/
def Keeps (outcome : Outcome) : Prop := ∃ h' result, outcome = some (h', result) ∧ Agrees h' []

theorem Agrees.unchanged (agrees : Agrees h []) (result : Except Errno Int) :
    Keeps (some (h, result)) :=
  ⟨h, result, rfl, agrees⟩

theorem createDescriptor_keeps (agrees : Agrees h []) (checked : Except Errno Unit)
    (native : Except Errno Descriptor) : Keeps (createDescriptor h checked native) := by
  cases checked with
  | error e => exact agrees.unchanged _
  | ok _ => exact ⟨_, _, rfl, agrees.save 0 native⟩

theorem toInt_of_lt {a : UInt64} (inside : a.toNat < maxFds) : toInt a = (a.toNat : Int) := by
  unfold toInt maxFds at *
  rw [if_pos (by omega)]
  omega

theorem brClose_keeps (agrees : Agrees h []) {a : UInt64} (error : Option Errno)
    (narrow : ∀ actual, h.fd (toInt a) = .ok actual → a.toNat < maxFds) :
    Keeps (brClose h a error) := by
  unfold brClose
  cases found : h.fd (toInt a) with
  | error e => exact agrees.unchanged _
  | ok actual =>
    obtain ⟨guest, inside, -⟩ := agrees.fd_eq found
    -- The index is the whole argument, the descriptor its low half.
    have index : (a.toNat : Int) = actual := (toInt_of_lt (narrow actual found)).symm.trans guest
    obtain ⟨h', cleared, agrees', -, -⟩ := agrees.release actual inside (by simp)
    simp only [index, cleared, Option.map_some]
    exact agrees'.unchanged _

theorem bfDupfd_keeps (agrees : Agrees h []) (a n : UInt64) (cloexec : Bool)
    (error : Option Errno) : Keeps (bfDupfd h a n cloexec error) := by
  unfold bfDupfd
  cases h.fd (toInt a) with
  | error e => exact agrees.unchanged _
  | ok actual =>
    dsimp only
    split
    · exact agrees.unchanged _
    · exact ⟨_, _, rfl, agrees.save _ _⟩

theorem isOpen_replaceNative {actual : Nat} (opened : h.native.isOpen actual = true) (n m : Nat)
    (d : Descriptor) :
    (h.replaceNative actual n d).native.isOpen m = (decide (m = n) || h.native.isOpen m) := by
  unfold BridgeHost.replaceNative
  by_cases itself : actual = n
  · by_cases same : m = n
    · subst itself same
      simp [opened]
    · simp [itself, same]
  · simp [itself]

theorem Agrees.replace (agrees : Agrees h []) {actual : Nat}
    (opened : h.native.isOpen actual = true) (n : Nat) (inside : n < maxFds) (d : Descriptor) :
    Agrees { h.replaceNative actual n d with
      fds := Function.update h.fds ⟨n, inside⟩ (n : Int) } [] := by
  refine ⟨?_, by simp, by simp, ?_⟩
  · intro i
    by_cases same : i = ⟨n, inside⟩
    · subst same
      simp [isOpen_replaceNative opened]
    · have other : i.val ≠ n := fun equal => same (Fin.ext equal)
      simp [isOpen_replaceNative opened, same, other, agrees.slot i]
  · unfold BridgeHost.replaceNative
    split
    · exact agrees.dirs
    · exact agrees.dirs

theorem replaceNative_fds (actual n : Nat) (d : Descriptor) :
    (h.replaceNative actual n d).fds = h.fds := by
  unfold BridgeHost.replaceNative
  split <;> rfl

theorem duplicate_open {actual : Nat} {cloexec : Bool} {error : Option Errno} {d : Descriptor}
    (duplicated : h.duplicate actual cloexec error = .ok d) : h.native.isOpen actual = true := by
  unfold BridgeHost.duplicate at duplicated
  cases error with
  | some e => cases duplicated
  | none =>
    cases there : h.native.entry actual with
    | none =>
      rw [there] at duplicated
      cases duplicated
    | some found => simp [Fds.isOpen, there]

theorem brDup2_keeps (agrees : Agrees h []) (a b : UInt64) (error : Option Errno) :
    Keeps (brDup2 h a b error) := by
  unfold brDup2
  cases h.fd (toInt a) with
  | error e => exact agrees.unchanged _
  | ok actual =>
    dsimp only
    split
    · exact agrees.unchanged _
    next small =>
      have inside : b.toNat < maxFds := Nat.lt_of_not_le small
      have target := toInt_of_lt inside
      split
      · exact agrees.unchanged _
      · cases duplicated : h.duplicate actual false error with
        | error e => exact agrees.unchanged _
        | ok d =>
          dsimp only
          rw [target, BridgeHost.setSlot_natCast _ _ inside, replaceNative_fds]
          exact ⟨_, _, rfl, agrees.replace (duplicate_open duplicated) b.toNat inside d⟩

theorem Agrees.allocateAll (agrees : Agrees h []) (files : List Descriptor) :
    Agrees { h with native := (h.native.allocateAll files).2 } (h.native.allocateAll files).1 := by
  obtain ⟨distinct, free, others⟩ := h.native.allocateAll_spec files
  refine ⟨?_, ?_, distinct, agrees.dirs⟩
  · intro i
    have slot := agrees.slot i
    simp only [others, slot]
    by_cases new : i.val ∈ (h.native.allocateAll files).1
    · simp [new, free _ new]
    · simp [new]
  · intro n member
    exact (others n).mpr (Or.inl member)

theorem createPair_keeps (agrees : Agrees h []) (mapped : Bool)
    (native : Except Errno (Descriptor × Descriptor)) : Keeps (createPair h mapped native) := by
  unfold createPair
  split
  · exact agrees.unchanged _
  · cases native with
    | error e => exact agrees.unchanged _
    | ok pair =>
      have opened := agrees.allocateAll [pair.1, pair.2]
      simp only [Fds.allocateAll] at opened
      obtain ⟨h₁, first, adopted₁, agrees₁, kind₁⟩ := opened.adopt (Nat.zero_le _)
      dsimp only
      rw [adopted₁]
      rcases kind₁ with ⟨inside, rfl, native₁⟩ | ⟨-, rfl, -⟩
      · obtain ⟨h₂, second, adopted₂, agrees₂, kind₂⟩ := agrees₁.adopt (Nat.zero_le _)
        dsimp only
        rw [adopted₂]
        rcases kind₂ with ⟨-, rfl, -⟩ | ⟨-, rfl, native₂⟩
        · exact agrees₂.unchanged _
        · -- The second number is beyond the table, so the first is still adopted.
          obtain ⟨fresh, -⟩ := List.nodup_cons.mp opened.distinct
          have still : h₂.native.isOpen (h.native.allocate 0 pair.1).1 = true := by
            rw [native₂, native₁]
            have other : (h.native.allocate 0 pair.1).1 ≠
                ((h.native.allocate 0 pair.1).2.allocate 0 pair.2).1 := by simpa using fresh
            simpa [other] using opened.waiting _ (by simp)
          have slot := agrees₂.slot ⟨_, inside⟩
          rw [if_pos ⟨still, by simp⟩] at slot
          obtain ⟨h₃, taken, agrees₃, -⟩ := agrees₂.takeBack _ inside slot (by simp)
          dsimp only
          rw [taken]
          exact agrees₃.unchanged _
      · exact ⟨_, _, rfl, agrees₁.closePending⟩

private theorem dirs_update {dirs : Fin maxDirs → Option Nat} {dirFds : Fin maxDirs → Int}
    (known : ∀ i stream, dirs i = some stream → stream < maxFds ∧ dirFds i = (stream : Int))
    (slot : Fin maxDirs) {number : Nat} (inside : number < maxFds) (i : Fin maxDirs) (stream : Nat)
    (found : Function.update dirs slot (some number) i = some stream) :
    stream < maxFds ∧ Function.update dirFds slot (number : Int) i = (stream : Int) := by
  by_cases same : i = slot
  · subst same
    simp only [Function.update_self, Option.some.injEq] at found ⊢
    exact ⟨found ▸ inside, by rw [found]⟩
  · simp only [Function.update_of_ne same] at found ⊢
    exact known i stream found

theorem brOpendir_keeps (agrees : Agrees h []) (path : Except Errno Unit)
    (native : Except Errno Descriptor) : Keeps (brOpendir h path native) := by
  unfold brOpendir
  cases path with
  | error e => exact agrees.unchanged _
  | ok _ =>
    dsimp only
    cases h.freeDir with
    | none => exact agrees.unchanged _
    | some i =>
      rcases agrees.openNative 0 native with ⟨e, failed⟩ | ⟨h', number, opened, -, pending, -⟩
      · dsimp only
        rw [failed]
        exact agrees.unchanged _
      · dsimp only
        rw [opened]
        dsimp only
        split
        · exact ⟨_, _, rfl, pending.closePending⟩
        next small =>
          have inside : number < maxFds := Nat.lt_of_not_le small
          rw [BridgeHost.setSlot_natCast _ _ inside]
          refine ⟨_, _, rfl, ?_, by simp, by simp, dirs_update pending.dirs i inside⟩
          intro j
          have open_ := pending.waiting number (by simp)
          by_cases same : j = ⟨number, inside⟩
          · subst same
            simp [open_]
          · have other : j.val ≠ number := fun equal => same (Fin.ext equal)
            simp [same, other, pending.slot j]

theorem pxFdopendir_keeps (agrees : Agrees h []) (a : UInt64) (error : Option Errno) :
    Keeps (pxFdopendir h a error) := by
  unfold pxFdopendir
  cases found : h.fd (toInt a) with
  | error e => exact agrees.unchanged _
  | ok actual =>
    obtain ⟨guest, inside, -⟩ := agrees.fd_eq found
    dsimp only
    split
    · exact agrees.unchanged _
    · exact agrees.unchanged _
    · rw [guest]
      exact ⟨_, _, rfl, agrees.slot, agrees.waiting, agrees.distinct,
        dirs_update agrees.dirs _ inside⟩

/-- Closing a stream closes its number and clears its slot, also when that number has been
closed or given to another file since. -/
theorem brClosedir_keeps (agrees : Agrees h []) (a : UInt64) (error : Option Errno) :
    Keeps (brClosedir h a error) := by
  unfold brClosedir
  split
  next inside =>
    dsimp only
    cases stream : h.dirs ⟨a.toNat, inside⟩ with
    | none => exact agrees.unchanged _
    | some number =>
      obtain ⟨small, copy⟩ := agrees.dirs _ _ stream
      obtain ⟨h', cleared, agrees', dirs', native'⟩ := agrees.release number small (by simp)
      rw [BridgeHost.setSlot_natCast _ _ small, Option.some.injEq] at cleared
      subst cleared
      dsimp only
      rw [copy, BridgeHost.setSlot_natCast _ _ small]
      refine ⟨_, _, rfl, agrees'.slot, by simp, by simp, ?_⟩
      intro i other found
      by_cases same : i = ⟨a.toNat, inside⟩
      · subst same
        simp at found
      · exact agrees.dirs i other (by simpa [same] using found)
  · exact agrees.unchanged _

theorem pxAccept_keeps (agrees : Agrees h []) (a : UInt64) (checked : Except Errno Unit)
    (native : Except Errno Descriptor) : Keeps (pxAccept h a checked native) := by
  unfold pxAccept
  cases h.fd (toInt a) with
  | error e => exact agrees.unchanged _
  | ok actual => exact createDescriptor_keeps agrees checked native

theorem pxOpenat_keeps (agrees : Agrees h []) (a : UInt64) (path : Except Errno Unit)
    (native : Except Errno Descriptor) : Keeps (pxOpenat h a path native) := by
  unfold pxOpenat
  split
  · exact agrees.unchanged _
  · exact agrees.unchanged _
  · exact createDescriptor_keeps agrees _ native

theorem pxSignalfd_keeps (agrees : Agrees h []) (a : UInt64) (mapped : Bool)
    (native : Except Errno Descriptor) : Keeps (pxSignalfd h a mapped native) := by
  unfold pxSignalfd
  split
  · exact agrees.unchanged _
  · split
    · exact createDescriptor_keeps agrees _ native
    · split <;> exact agrees.unchanged _

/-! ### Received descriptors -/

theorem length_le_of_lt {numbers : List Nat} (distinct : numbers.Nodup) {k : Nat}
    (small : ∀ n ∈ numbers, n < k) : numbers.length ≤ k := by
  have sub : numbers ⊆ List.range k := fun n member => List.mem_range.mpr (small n member)
  simpa using (List.Nodup.subperm distinct sub).length_le

/-- The loop adopts or closes every received descriptor, and never overruns `installed[]`:
what is in it are distinct numbers of the table. -/
theorem receiveRights_keeps (numbers : List Nat) (h : BridgeHost) (installed : List Nat)
    (failed : Bool) (agrees : Agrees h numbers) (distinct : installed.Nodup)
    (adopted : ∀ n ∈ installed, n < maxFds ∧ h.native.isOpen n = true ∧ n ∉ numbers) :
    ∃ h' installed' failed', receiveRights numbers h installed failed =
        some (h', installed', failed') ∧ Agrees h' [] ∧ installed'.Nodup ∧
      ∀ n ∈ installed', n < maxFds ∧ h'.native.isOpen n = true := by
  -- What is installed is open and is not among the numbers that still wait.
  induction numbers generalizing h installed failed with
  | nil =>
    exact ⟨h, installed, failed, rfl, agrees, distinct,
      fun n member => ⟨(adopted n member).1, (adopted n member).2.1⟩⟩
  | cons real rest ih =>
    have apart : real ∉ installed := fun member => (adopted real member).2.2 (by simp)
    have survives (n : Nat) (member : n ∈ installed) :
        n < maxFds ∧ (h.native.close real).isOpen n = true ∧ n ∉ rest := by
      obtain ⟨small, opened, absent⟩ := adopted n member
      have other : n ≠ real := fun same => apart (same ▸ member)
      exact ⟨small, by simp [other, opened], fun later => absent (by simp [later])⟩
    cases failed with
    | true => exact ih _ installed true agrees.closePending distinct survives
    | false =>
      obtain ⟨h', logical, adopts, agrees', kind⟩ := agrees.adopt (Nat.zero_le real)
      unfold receiveRights
      rw [adopts]
      rcases kind with ⟨inside, rfl, native⟩ | ⟨-, rfl, native⟩
      · have distinct' : (installed ++ [real]).Nodup :=
          List.nodup_append.mpr ⟨distinct, by simp, by
            intro n member m only
            rw [List.mem_singleton.mp only]
            exact fun same => apart (same ▸ member)⟩
        have adopted' : ∀ n ∈ installed ++ [real],
            n < maxFds ∧ h'.native.isOpen n = true ∧ n ∉ rest := by
          intro n member
          rw [native]
          rcases List.mem_append.mp member with old | new
          · obtain ⟨small, opened, absent⟩ := adopted n old
            exact ⟨small, opened, fun later => absent (by simp [later])⟩
          · rw [List.mem_singleton.mp new]
            exact ⟨inside, agrees.waiting real (by simp), (List.nodup_cons.mp agrees.distinct).1⟩
        -- Distinct numbers below the size of the table leave room in the array.
        have space : installed.length < maxFds := by
          have := length_le_of_lt distinct' fun n member => (adopted' n member).1
          simp only [List.length_append, List.length_singleton] at this
          omega
        dsimp only
        rw [if_pos space]
        exact ih h' _ false agrees' distinct' adopted'
      · exact ih h' installed true agrees' distinct (native ▸ survives)

theorem takeBackAll_keeps (installed : List Nat) (h : BridgeHost) (agrees : Agrees h [])
    (distinct : installed.Nodup)
    (adopted : ∀ n ∈ installed, n < maxFds ∧ h.native.isOpen n = true) :
    ∃ h', installed.foldlM takeBack h = some h' ∧ Agrees h' [] := by
  induction installed generalizing h with
  | nil => exact ⟨h, rfl, agrees⟩
  | cons n rest ih =>
    obtain ⟨fresh, distinct'⟩ := List.nodup_cons.mp distinct
    obtain ⟨inside, opened⟩ := adopted n (by simp)
    have slot := agrees.slot ⟨n, inside⟩
    rw [if_pos ⟨opened, by simp⟩] at slot
    obtain ⟨h', taken, agrees', native⟩ := agrees.takeBack n inside slot (by simp)
    obtain ⟨h'', rest', agrees''⟩ := ih h' agrees' distinct' (by
      intro m member
      have other : m ≠ n := fun same => fresh (same ▸ member)
      obtain ⟨small, open_⟩ := adopted m (by simp [member])
      exact ⟨small, by simp [native, other, open_]⟩)
    refine ⟨h'', ?_, agrees''⟩
    rw [List.foldlM_cons, taken]
    exact rest'

theorem pxRecvmsg_keeps (agrees : Agrees h []) (a : UInt64) (wire checked : Except Errno Unit)
    (native : Except Errno (Nat × List Cmsg)) : Keeps (pxRecvmsg h a wire checked native) := by
  unfold pxRecvmsg
  split
  · exact agrees.unchanged _
  · exact agrees.unchanged _
  · exact agrees.unchanged _
  · unfold receiveMessage
    cases native with
    | error e => exact agrees.unchanged _
    | ok received =>
      obtain ⟨h', installed, failed, loop, agrees', distinct, adopted⟩ :=
        receiveRights_keeps _ _ [] false
          (agrees.allocateAll (received.2.flatMap Cmsg.files)) (by simp) (by simp)
      dsimp only
      rw [loop]
      cases failed with
      | false => exact agrees'.unchanged _
      | true =>
        obtain ⟨h'', taken, agrees''⟩ := takeBackAll_keeps installed h' agrees' distinct adopted
        dsimp only
        rw [taken]
        exact agrees''.unchanged _

/-! ### Runs -/

/-- `BR_CLOSE` with an argument whose low half names an open descriptor, but which is no
index of the table. -/
def Request.WideClose (h : BridgeHost) (r : Request) : Prop :=
  ∃ a error actual, r = .close a error ∧ h.fd (toInt a) = .ok actual ∧ maxFds ≤ a.toNat

theorem Request.SignExtended.not_wideClose {r : Request} (extended : r.SignExtended)
    (agrees : Agrees h []) : ¬ r.WideClose h := by
  rintro ⟨a, error, actual, rfl, found, wide⟩
  obtain ⟨guest, inside, -⟩ := agrees.fd_eq found
  have index := Descriptors.SignExtended.toNat_eq extended (by rw [guest]; exact Int.natCast_nonneg _)
  omega

theorem service_keeps (agrees : Agrees h []) (r : Request) (narrow : ¬ r.WideClose h) :
    Keeps (service h r) := by
  cases r with
  | close a error =>
    apply brClose_keeps agrees error
    intro actual found
    by_contra wide
    exact narrow ⟨a, error, actual, rfl, found, Nat.le_of_not_lt wide⟩
  | dupfd a n cloexec error => exact bfDupfd_keeps agrees a n cloexec error
  | dup2 a b error => exact brDup2_keeps agrees a b error
  | pipe mapped native => exact createPair_keeps agrees mapped native
  | socketpair mapped native => exact createPair_keeps agrees mapped native
  | opendir path native => exact brOpendir_keeps agrees path native
  | fdopendir a error => exact pxFdopendir_keeps agrees a error
  | closedir a error => exact brClosedir_keeps agrees a error
  | accept a checked native => exact pxAccept_keeps agrees a checked native
  | openat a path native => exact pxOpenat_keeps agrees a path native
  | signalfd a mapped native => exact pxSignalfd_keeps agrees a mapped native
  | recvmsg a wire checked native => exact pxRecvmsg_keeps agrees a wire checked native
  | open_ => exact createDescriptor_keeps agrees _ _
  | socket => exact createDescriptor_keeps agrees (.ok ()) _
  | inotifyInit1 => exact createDescriptor_keeps agrees (.ok ()) _
  | posixOpenpt => exact createDescriptor_keeps agrees (.ok ()) _
  | epollCreate1 => exact createDescriptor_keeps agrees (.ok ()) _
  | pidfdOpen => exact createDescriptor_keeps agrees (.ok ()) _
  | memfdCreate => exact createDescriptor_keeps agrees _ _
  | shmOpen => exact createDescriptor_keeps agrees _ _
  | mqOpen => exact createDescriptor_keeps agrees _ _

private theorem Agrees.outside {native : Fds Descriptor} (locks : List Nat) (agrees : Agrees h [])
    (same : ∀ n < maxFds, native.isOpen n = h.native.isOpen n) :
    Agrees { h with native, locks } [] :=
  ⟨fun i => by simp only [same i i.isLt]; exact agrees.slot i, by simp, by simp, agrees.dirs⟩

theorem step_keeps (agrees : Agrees h []) (e : Event)
    (narrow : ∀ r, e = .request r → ¬ r.WideClose h) : ∃ h', step h e = some h' ∧ Agrees h' [] := by
  cases e with
  | request r =>
    obtain ⟨h', result, served, agrees'⟩ := service_keeps agrees r (narrow r rfl)
    exact ⟨h', by simp [step, served], agrees'⟩
  | loader n above file =>
    have apart (m : Nat) (inside : m < maxFds) : m ≠ n := by omega
    cases file with
    | none =>
      refine ⟨_, rfl, agrees.outside (h.locksWithout n) fun m inside => ?_⟩
      simp [apart m inside]
    | some d =>
      refine ⟨_, rfl, agrees.outside h.locks fun m inside => ?_⟩
      simp [apart m inside]

theorem start_agrees {before native : Fds Descriptor} {fault : Fin maxFds → Option Fault}
    {locks : List Nat} {h : BridgeHost} (started : start before fault native locks = some h)
    (loaded : ∀ n < maxFds, native.isOpen n = before.isOpen n) : Agrees h [] := by
  unfold start inheritDescriptors at started
  obtain ⟨fds, inherited, rfl⟩ := Option.map_eq_some_iff.mp started
  refine ⟨?_, by simp, by simp, by simp⟩
  intro i
  dsimp only
  rw [inheritSlots_spec before fault _ _ fds inherited i]
  simp [loaded i i.isLt]

/-- From what the loader inherited, through every sequence of requests and of changes to
its private descriptors, no array is indexed out of bounds, every slot holds -1 or its own
number, the latter exactly if that descriptor is open, and `exec` finds none misplaced. -/
theorem descriptor_table_invariant (before native : Fds Descriptor)
    (fault : Fin maxFds → Option Fault) {locks : List Nat} (h : BridgeHost)
    (started : start before fault native locks = some h)
    (loaded : ∀ n < maxFds, native.isOpen n = before.isOpen n)
    (events : List Event) (extended : ∀ e ∈ events, e.SignExtended) :
    ∃ h', runPartial step h events = some h' ∧
      (∀ i : Fin maxFds, (h'.fds i = -1 ∨ h'.fds i = (i.val : Int)) ∧
        (h'.fds i = (i.val : Int) ↔ h'.native.isOpen i = true)) ∧
      ∀ arguments closeRange execve,
        (serviceExec h' arguments closeRange execve).2 ≠ .misplaced := by
  obtain ⟨h', ran, agrees⟩ := runPartial_invariant step Event.SignExtended (Agrees · [])
    (fun s e allowed agrees => step_keeps agrees e fun r same =>
      Request.SignExtended.not_wideClose (by subst same; exact allowed) agrees) events extended h
    (start_agrees started loaded)
  -- Nothing is pending between two requests, so each slot holds its own number or none.
  have slots (i : Fin maxFds) : (h'.fds i = -1 ∨ h'.fds i = (i.val : Int)) ∧
      (h'.fds i = (i.val : Int) ↔ h'.native.isOpen i = true) := by
    have slot := agrees.slot i
    by_cases opened : h'.native.isOpen i = true
    · rw [if_pos ⟨opened, by simp⟩] at slot
      exact ⟨Or.inr slot, by simp [slot, opened]⟩
    · rw [if_neg (by simp [opened])] at slot
      refine ⟨Or.inl slot, ?_⟩
      constructor
      · intro own
        omega
      · intro open_
        exact absurd open_ opened
  refine ⟨h', ran, slots, ?_⟩
  intro arguments closeRange execve
  have placed : ¬∃ i, 0 ≤ h'.fds i ∧ h'.fds i ≠ (i.val : Int) := by
    rintro ⟨i, used, wrong⟩
    rcases (slots i).1 with vacant | own
    · omega
    · exact wrong own
  unfold serviceExec
  cases arguments with
  | error e => simp
  | ok _ =>
    dsimp only
    rw [if_neg placed]
    cases closeRange with
    | some e => simp
    | none => cases execve <;> simp

def stdio : Fds Descriptor where
  entry n := if n < 3 then some ⟨n, false⟩ else none
  bound := 3
  closed := by
    intro n above
    rw [if_neg (by omega)]

/-- A directory stream is opened on a descriptor, which is closed and reused before the
stream is closed. -/
def reusedStream : List Event :=
  [ .request (.open_ (.ok ()) (.ok ⟨10, false⟩)),
    .request (.fdopendir 3 none),
    .request (.close 3 none),
    .request (.open_ (.ok ()) (.ok ⟨11, false⟩)),
    .request (.closedir 0 none) ]

theorem reusedStream_agrees :
    ∃ h h', start stdio (fun _ => none) stdio [] = some h ∧
      runPartial step h reusedStream = some h' ∧
      (h'.fds ⟨3, by decide⟩ = 3 ↔ h'.native.isOpen 3 = true) := by
  have starts : (start stdio (fun _ => none) stdio []).isSome = true := by decide +kernel
  obtain ⟨h, started⟩ := Option.isSome_iff_exists.mp starts
  have extended : ∀ e ∈ reusedStream, e.SignExtended := by
    have three : SignExtended 3 := by unfold SignExtended; decide
    have zero : SignExtended 0 := by unfold SignExtended; decide
    simp [reusedStream, Event.SignExtended, Request.SignExtended, three, zero]
  obtain ⟨h', ran, slots, -⟩ := descriptor_table_invariant stdio stdio (fun _ => none) h started
    (fun _ _ => rfl) reusedStream extended
  exact ⟨h, h', started, ran, (slots ⟨3, by decide⟩).2⟩

end LashOs.Descriptors
