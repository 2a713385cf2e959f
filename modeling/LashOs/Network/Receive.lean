import LashOs.Descriptors.Invariant

/-!
# Receiving descriptors

The receiving half of `network_message`, from `recvmsg` on. Linux has opened the received
descriptors at the lowest free numbers. The loader adopts them one after the other, and takes
all of them back if the table cannot hold one.

`closes` records the native `close` calls. `receiveMessage` is the same code without the
control buffer and this history.
-/
namespace LashOs.Network

open Base Descriptors

/-- A control message as it stands in the buffer after `recvmsg`. -/
inductive Message where
  | rights (numbers : List Nat)
  | other
  deriving DecidableEq, Repr

def Message.numbers : Message → List Nat
  | .rights numbers => numbers
  | .other => []

/-- `recvmsg`: the descriptors of each message are opened at the lowest free numbers. -/
def recvmsg (native : Fds Descriptor) : List Cmsg → List Message × Fds Descriptor
  | [] => ([], native)
  | .rights files :: rest =>
    let (numbers, native) := native.allocateAll files
    let (messages, native) := recvmsg native rest
    (.rights numbers :: messages, native)
  | .other :: rest =>
    let (messages, native) := recvmsg native rest
    (.other :: messages, native)

/-- The variables of the loop; `count` is the length of `installed`. -/
structure Receiving where
  host : BridgeHost
  installed : List Nat
  failed : Bool
  closes : List Nat

/-- One iteration, with what it leaves in `rights[j]`; none if `installed[]` is overrun. -/
def receiveRight (s : Receiving) (real : Nat) : Option (Receiving × Nat) :=
  if s.failed then
    some ({ s with host := s.host.closeNative real, closes := s.closes ++ [real] }, real)
  else
    match adoptDescriptor s.host (.ok real) 0 with
    -- The descriptor has been closed by `adopt_descriptor`.
    | (host, .error _) => some ({ s with host, failed := true, closes := s.closes ++ [real] }, real)
    | (host, .ok logical) =>
      if s.installed.length < maxFds then
        some ({ s with host, installed := s.installed ++ [logical] }, logical)
      else none

/-- The loop over one message. -/
def receiveNumbers : List Nat → Receiving → Option (Receiving × List Nat)
  | [], s => some (s, [])
  | real :: rest, s => do
    let (s, logical) ← receiveRight s real
    let (s, rest) ← receiveNumbers rest s
    return (s, logical :: rest)

/-- The loop over the messages. -/
def receiveMessages : List Message → Receiving → Option (Receiving × List Message)
  | [], s => some (s, [])
  | .rights numbers :: rest, s => do
    let (s, numbers) ← receiveNumbers numbers s
    let (s, rest) ← receiveMessages rest s
    return (s, .rights numbers :: rest)
  | .other :: rest, s => do
    let (s, rest) ← receiveMessages rest s
    return (s, .other :: rest)

/-- `close(h->fds[installed[j]]); h->fds[installed[j]] = -1` -/
def takeBackRight (s : BridgeHost × List Nat) (logical : Nat) : Option (BridgeHost × List Nat) :=
  if inside : logical < maxFds then
    (takeBack s.1 logical).map fun host => (host, s.2 ++ [(s.1.fds ⟨logical, inside⟩).toNat])
  else none

/-- What the call leaves behind; `control` is what is copied to the guest. -/
structure Received where
  host : BridgeHost
  result : Except Errno Int
  control : Option (List Message)
  closes : List Nat

/-- `native` is what `recvmsg` returns: a number of bytes and the control messages. -/
def networkReceive (h : BridgeHost) (native : Except Errno (Nat × List Cmsg)) : Option Received :=
  match native with
  | .error error => some ⟨h, .error error, none, []⟩
  | .ok (bytes, cmsgs) => do
    let (messages, opened) := recvmsg h.native cmsgs
    let (s, messages) ← receiveMessages messages ⟨{ h with native := opened }, [], false, []⟩
    if s.failed then
      let (host, closes) ← s.installed.foldlM takeBackRight (s.host, s.closes)
      return ⟨host, .error .EMFILE, none, closes⟩
    else return ⟨s.host, .ok bytes, some messages, s.closes⟩

/-! ### The received numbers -/

theorem allocateAll_append {α : Type} (d : Fds α) (first second : List α) :
    d.allocateAll (first ++ second) =
      ((d.allocateAll first).1 ++ ((d.allocateAll first).2.allocateAll second).1,
        ((d.allocateAll first).2.allocateAll second).2) := by
  induction first generalizing d with
  | nil => rfl
  | cons file first ih => simp only [List.cons_append, Fds.allocateAll, ih]

theorem recvmsg_numbers (native : Fds Descriptor) (cmsgs : List Cmsg) :
    ((recvmsg native cmsgs).1.flatMap Message.numbers, (recvmsg native cmsgs).2) =
      native.allocateAll (cmsgs.flatMap Cmsg.files) := by
  induction cmsgs generalizing native with
  | nil => rfl
  | cons cmsg rest ih =>
    cases cmsg with
    | rights files =>
      have later := Prod.mk.inj (ih (native.allocateAll files).2)
      simp only [List.flatMap_cons, Cmsg.files, allocateAll_append, recvmsg, Message.numbers,
        later.1, later.2]
    | other =>
      have later := Prod.mk.inj (ih native)
      simp only [List.flatMap_cons, Cmsg.files, List.nil_append, recvmsg, Message.numbers,
        later.1, later.2]

/-! ### The loop -/

variable {h : BridgeHost} {opened : Fds Descriptor} {s : Receiving} {done : List Nat}

/-- After some received numbers each of them is installed or closed, and an installed one has
a slot that was vacant. -/
structure Handled (h : BridgeHost) (opened : Fds Descriptor) (done : List Nat) (s : Receiving) :
    Prop where
  all : (s.installed ++ s.closes).Perm done
  clean : s.failed = false → s.installed = done ∧ s.closes = []
  slots : ∀ i : Fin maxFds, s.host.fds i = if i.val ∈ s.installed then (i.val : Int) else h.fds i
  vacant : ∀ n ∈ s.installed, ∃ inside : n < maxFds, h.fds ⟨n, inside⟩ < 0
  native : ∀ n, s.host.native.isOpen n = (opened.isOpen n && !decide (n ∈ s.closes))

theorem Handled.start (h : BridgeHost) (opened : Fds Descriptor) :
    Handled h opened [] ⟨{ h with native := opened }, [], false, []⟩ :=
  ⟨.nil, fun _ => ⟨rfl, rfl⟩, fun _ => by simp, by simp, fun _ => by simp⟩

theorem Handled.close (handled : Handled h opened done s) (real : Nat) :
    Handled h opened (done ++ [real]) { s with
      host := s.host.closeNative real, failed := true, closes := s.closes ++ [real] } where
  all := by
    rw [← List.append_assoc]
    exact handled.all.append_right [real]
  clean := fun fine => by cases fine
  slots := handled.slots
  vacant := handled.vacant
  native := by
    intro n
    simp only [BridgeHost.closeNative, Fds.isOpen_close, handled.native, List.mem_append,
      List.mem_singleton]
    by_cases same : n = real <;> simp [same]

theorem Handled.install (handled : Handled h opened done s) (fine : s.failed = false)
    {real : Nat} (inside : real < maxFds) (vacant : h.fds ⟨real, inside⟩ < 0) :
    Handled h opened (done ++ [real]) { s with
      host := { s.host with fds := Function.update s.host.fds ⟨real, inside⟩ (real : Int) }
      installed := s.installed ++ [real], failed := false } where
  all := by
    obtain ⟨same, none⟩ := handled.clean fine
    simp only [same, none, List.append_nil]
    exact .refl _
  clean := fun _ => by
    obtain ⟨same, none⟩ := handled.clean fine
    exact ⟨by rw [same], none⟩
  slots := by
    intro i
    by_cases same : i = ⟨real, inside⟩
    · subst same
      simp
    · have other : i.val ≠ real := fun equal => same (Fin.ext equal)
      simp [Function.update_of_ne same, handled.slots i, other]
  vacant := by
    intro n member
    rcases List.mem_append.mp member with old | new
    · exact handled.vacant n old
    · obtain rfl := List.mem_singleton.mp new
      exact ⟨inside, vacant⟩
  native := handled.native

theorem Handled.room (handled : Handled h opened done s) (distinct : done.Nodup) :
    s.installed.length ≤ maxFds := by
  have different : s.installed.Nodup :=
    (List.nodup_append.mp (handled.all.nodup_iff.mpr distinct)).1
  exact length_le_of_lt different fun n member => (handled.vacant n member).1

theorem receiveRight_handled (handled : Handled h opened done s) {real : Nat}
    (distinct : (done ++ [real]).Nodup) :
    ∃ s', receiveRight s real = some (s', real) ∧ Handled h opened (done ++ [real]) s' := by
  unfold receiveRight
  cases failed : s.failed with
  | true => exact ⟨_, rfl, handled.close real⟩
  | false =>
    obtain ⟨same, -⟩ := handled.clean failed
    have fresh : real ∉ s.installed := by
      rw [same]
      exact fun member => (List.nodup_append.mp distinct).2.2 real member real (by simp) rfl
    simp only [Bool.false_eq_true, if_false, adoptDescriptor, Nat.zero_le, true_and]
    by_cases inside : real < maxFds
    · have slot := handled.slots ⟨real, inside⟩
      rw [if_neg fresh] at slot
      by_cases vacant : h.fds ⟨real, inside⟩ < 0
      · have installed := handled.install failed inside vacant
        have room := installed.room distinct
        simp only [List.length_append, List.length_singleton] at room
        simp only [inside, dite_true, slot, vacant, if_true, show s.installed.length < maxFds by omega]
        exact ⟨_, rfl, installed⟩
      · simp only [inside, dite_true, slot, vacant, if_false]
        exact ⟨_, rfl, handled.close real⟩
    · simp only [inside, dite_false]
      exact ⟨_, rfl, handled.close real⟩

theorem receiveNumbers_handled (numbers : List Nat) (handled : Handled h opened done s)
    (distinct : (done ++ numbers).Nodup) :
    ∃ s', receiveNumbers numbers s = some (s', numbers) ∧
      Handled h opened (done ++ numbers) s' := by
  induction numbers generalizing s done with
  | nil => exact ⟨s, rfl, by simpa using handled⟩
  | cons real rest ih =>
    have regroup : done ++ real :: rest = (done ++ [real]) ++ rest := by simp
    rw [regroup] at distinct
    obtain ⟨s₁, first, handled₁⟩ :=
      receiveRight_handled handled (List.nodup_append.mp distinct).1
    obtain ⟨s₂, later, handled₂⟩ := ih handled₁ distinct
    refine ⟨s₂, ?_, regroup ▸ handled₂⟩
    simp [receiveNumbers, first, later]

theorem receiveMessages_handled (messages : List Message) (handled : Handled h opened done s)
    (distinct : (done ++ messages.flatMap Message.numbers).Nodup) :
    ∃ s', receiveMessages messages s = some (s', messages) ∧
      Handled h opened (done ++ messages.flatMap Message.numbers) s' := by
  induction messages generalizing s done with
  | nil => exact ⟨s, rfl, by simpa using handled⟩
  | cons message rest ih =>
    rw [List.flatMap_cons, ← List.append_assoc] at distinct ⊢
    cases message with
    | rights numbers =>
      obtain ⟨s₁, first, handled₁⟩ :=
        receiveNumbers_handled numbers handled (List.nodup_append.mp distinct).1
      obtain ⟨s₂, later, handled₂⟩ := ih handled₁ distinct
      exact ⟨s₂, by simp [receiveMessages, first, later], handled₂⟩
    | other =>
      obtain ⟨s₂, later, handled₂⟩ := ih (by simpa [Message.numbers] using handled) distinct
      exact ⟨s₂, by simp [receiveMessages, later], handled₂⟩

/-! ### Taking descriptors back -/

theorem takeBackRights_spec (installed : List Nat) (host : BridgeHost) (closes : List Nat)
    (distinct : installed.Nodup)
    (slots : ∀ n ∈ installed, ∃ inside : n < maxFds, host.fds ⟨n, inside⟩ = (n : Int)) :
    ∃ host', installed.foldlM takeBackRight (host, closes) = some (host', closes ++ installed) ∧
      (∀ i : Fin maxFds, host'.fds i = if i.val ∈ installed then -1 else host.fds i) ∧
      ∀ n, host'.native.isOpen n = (host.native.isOpen n && !decide (n ∈ installed)) := by
  induction installed generalizing host closes with
  | nil => exact ⟨host, by simp, by simp, by simp⟩
  | cons n rest ih =>
    obtain ⟨fresh, distinct'⟩ := List.nodup_cons.mp distinct
    obtain ⟨inside, slot⟩ := slots n (by simp)
    have taken : takeBackRight (host, closes) n =
        some ({ host.closeNative n with fds := Function.update host.fds ⟨n, inside⟩ (-1) },
          closes ++ [n]) := by
      simp [takeBackRight, takeBack, inside, slot, BridgeHost.setSlot_natCast,
        BridgeHost.closeNative]
    obtain ⟨host', later, fds, native⟩ := ih
      { host.closeNative n with fds := Function.update host.fds ⟨n, inside⟩ (-1) }
      (closes ++ [n]) distinct' (by
        intro m member
        obtain ⟨small, own⟩ := slots m (by simp [member])
        have other : (⟨m, small⟩ : Fin maxFds) ≠ ⟨n, inside⟩ := by
          intro same
          exact fresh (Fin.mk.inj same ▸ member)
        exact ⟨small, by simp only [Function.update_of_ne other, own]⟩)
    refine ⟨host', ?_, ?_, ?_⟩
    · rw [List.foldlM_cons, taken]
      simpa using later
    · intro i
      rw [fds i]
      by_cases same : i = ⟨n, inside⟩
      · subst same
        simp
      · have other : i.val ≠ n := fun equal => same (Fin.ext equal)
        simp [Function.update_of_ne same, other]
    · intro m
      rw [native m]
      by_cases same : m = n <;> simp [BridgeHost.closeNative, same]

/-- Taking back what is installed closes every received number: a slot that was taken is free
again, and the numbers that stay open are those of before that were not received. -/
theorem Handled.takenBack (handled : Handled h opened done s) (distinct : done.Nodup) :
    ∃ host, s.installed.foldlM takeBackRight (s.host, s.closes) =
        some (host, s.closes ++ s.installed) ∧
      (∀ i : Fin maxFds, host.fds i = if i.val ∈ s.installed then -1 else h.fds i) ∧
      ∀ n, host.native.isOpen n = (opened.isOpen n && !decide (n ∈ done)) := by
  have different : s.installed.Nodup :=
    (List.nodup_append.mp (handled.all.nodup_iff.mpr distinct)).1
  obtain ⟨host, taken, fds, closed⟩ := takeBackRights_spec s.installed s.host s.closes different
    fun n member => by
      obtain ⟨inside, -⟩ := handled.vacant n member
      have slot := handled.slots ⟨n, inside⟩
      rw [if_pos member] at slot
      exact ⟨inside, slot⟩
  refine ⟨host, taken, ?_, ?_⟩
  · intro i
    rw [fds i]
    split
    · rfl
    next other => rw [handled.slots i, if_neg other]
  · intro n
    have listed : n ∈ done ↔ n ∈ s.installed ∨ n ∈ s.closes := by
      rw [← handled.all.mem_iff, List.mem_append]
    rw [closed n, handled.native n]
    by_cases kept : n ∈ s.installed <;> simp [listed, kept]

/-- Whatever is received: either the table holds all of the descriptors, which the guest gets
as they are numbered there, or the call fails with `EMFILE`, every descriptor is closed once
and the table is the old one (as far as its free slots hold -1). `installed[]` is never
overrun, as there is an outcome. -/
theorem rights_received_or_closed (h : BridgeHost) (native : Except Errno (Nat × List Cmsg)) :
    ∃ out, networkReceive h native = some out ∧
      match native with
      | .error error => out = ⟨h, .error error, none, []⟩
      | .ok (bytes, cmsgs) =>
        let messages := (recvmsg h.native cmsgs).1
        let numbers := messages.flatMap Message.numbers
        numbers.Nodup ∧
        (out.result = .ok bytes ∧ out.control = some messages ∧ out.closes = [] ∧
            (∀ n ∈ numbers, n < maxFds) ∧
            (∀ i : Fin maxFds,
              out.host.fds i = if i.val ∈ numbers then (i.val : Int) else h.fds i) ∧
            (∀ n, out.host.native.isOpen n = true ↔ n ∈ numbers ∨ h.native.isOpen n = true) ∨
          out.result = .error .EMFILE ∧ out.control = none ∧ out.closes.Perm numbers ∧
            (∀ i : Fin maxFds, 0 ≤ h.fds i → out.host.fds i = h.fds i) ∧
            (∀ i : Fin maxFds, h.fds i < 0 → out.host.fds i < 0) ∧
            ((∀ i, h.fds i < 0 → h.fds i = -1) → out.host.fds = h.fds) ∧
            ∀ n, out.host.native.isOpen n = h.native.isOpen n) := by
  cases native with
  | error error => exact ⟨_, rfl, rfl⟩
  | ok received =>
    obtain ⟨bytes, cmsgs⟩ := received
    obtain ⟨numbers_eq, opened_eq⟩ := Prod.mk.inj (recvmsg_numbers h.native cmsgs)
    obtain ⟨distinct, free, opens⟩ :=
      h.native.allocateAll_spec (cmsgs.flatMap Cmsg.files)
    rw [← numbers_eq] at distinct free opens
    rw [← opened_eq] at opens
    obtain ⟨s, ran, handled⟩ := receiveMessages_handled (recvmsg h.native cmsgs).1
      (Handled.start h (recvmsg h.native cmsgs).2) (by simpa using distinct)
    rw [List.nil_append] at handled
    cases failed : s.failed with
    | false =>
      obtain ⟨same, none⟩ := handled.clean failed
      refine ⟨⟨s.host, .ok bytes, some (recvmsg h.native cmsgs).1, s.closes⟩,
        by simp [networkReceive, ran, failed], distinct, .inl ⟨rfl, rfl, none, ?_, ?_, ?_⟩⟩
      · intro n member
        rw [← same] at member
        exact (handled.vacant n member).1
      · rw [← same]
        exact handled.slots
      · intro n
        rw [handled.native n, ← opens n]
        simp [none]
    | true =>
      obtain ⟨host, taken, slot, closed⟩ := handled.takenBack distinct
      have vacant : ∀ i : Fin maxFds, i.val ∈ s.installed → h.fds i < 0 :=
        fun i member => (handled.vacant i.val member).2
      refine ⟨⟨host, .error .EMFILE, none, s.closes ++ s.installed⟩,
        by simp [networkReceive, ran, failed, taken], distinct,
        .inr ⟨rfl, rfl, List.perm_append_comm.trans handled.all, ?_, ?_, ?_, ?_⟩⟩
      · intro i used
        rw [slot i, if_neg fun member => Int.not_lt.mpr used (vacant i member)]
      · intro i free
        rw [slot i]
        split
        · decide
        · exact free
      · intro empty
        funext i
        rw [slot i]
        split
        next member => exact (empty i (vacant i member)).symm
        · rfl
      · -- A number that was received was free before and is closed again.
        intro n
        rw [Bool.eq_iff_iff, closed n]
        simp only [Bool.and_eq_true, opens n, Bool.not_eq_true', decide_eq_false_iff_not]
        constructor
        · rintro ⟨received | before, unlisted⟩
          · exact absurd received unlisted
          · exact before
        · intro before
          refine ⟨.inr before, fun received => ?_⟩
          rw [free n received] at before
          cases before

/-! ### The same code without the history -/

theorem receiveRights_append (first second : List Nat) (host : BridgeHost) (installed : List Nat)
    (failed : Bool) : receiveRights (first ++ second) host installed failed =
      (receiveRights first host installed failed).bind fun s =>
        receiveRights second s.1 s.2.1 s.2.2 := by
  induction first generalizing host installed failed with
  | nil => rfl
  | cons real first ih =>
    cases failed with
    | true => simpa [receiveRights] using ih _ _ _
    | false =>
      simp only [List.cons_append, receiveRights]
      split
      · exact ih _ _ _
      · split
        · exact ih _ _ _
        · rfl

def Receiving.erase (s : Receiving) : BridgeHost × List Nat × Bool :=
  (s.host, s.installed, s.failed)

theorem receiveRight_erase (s : Receiving) (real : Nat) :
    (receiveRight s real).map (fun out => out.1.erase) =
      receiveRights [real] s.host s.installed s.failed := by
  unfold receiveRight
  cases failed : s.failed with
  | true => rfl
  | false =>
    simp only [Bool.false_eq_true, if_false, receiveRights]
    rcases adoptDescriptor s.host (.ok real) 0 with ⟨host, error | logical⟩
    · rfl
    · by_cases room : s.installed.length < maxFds <;> simp [room, Receiving.erase]

theorem receiveNumbers_erase (numbers : List Nat) (s : Receiving) :
    (receiveNumbers numbers s).map (fun out => out.1.erase) =
      receiveRights numbers s.host s.installed s.failed := by
  induction numbers generalizing s with
  | nil => rfl
  | cons real rest ih =>
    have split_ : real :: rest = [real] ++ rest := rfl
    rw [split_, receiveRights_append, ← receiveRight_erase]
    cases first : receiveRight s real with
    | none => simp [receiveNumbers, first]
    | some out =>
      obtain ⟨s₁, logical⟩ := out
      simp only [Option.map_some, Option.bind_some, Receiving.erase]
      rw [← ih s₁]
      cases later : receiveNumbers rest s₁ <;>
        simp [receiveNumbers, first, later, Receiving.erase]

theorem receiveMessages_erase (messages : List Message) (s : Receiving) :
    (receiveMessages messages s).map (fun out => out.1.erase) =
      receiveRights (messages.flatMap Message.numbers) s.host s.installed s.failed := by
  induction messages generalizing s with
  | nil => rfl
  | cons message rest ih =>
    cases message with
    | rights numbers =>
      rw [List.flatMap_cons, Message.numbers, receiveRights_append, ← receiveNumbers_erase]
      cases first : receiveNumbers numbers s with
      | none => simp [receiveMessages, first]
      | some out =>
        obtain ⟨s₁, logical⟩ := out
        simp only [Option.map_some, Option.bind_some, Receiving.erase]
        rw [← ih s₁]
        cases later : receiveMessages rest s₁ <;>
          simp [receiveMessages, first, later, Receiving.erase]
    | other =>
      rw [List.flatMap_cons, Message.numbers, List.nil_append, ← ih s]
      cases later : receiveMessages rest s <;> simp [receiveMessages, later]

theorem takeBackRights_erase (installed : List Nat) (s : BridgeHost × List Nat) :
    (installed.foldlM takeBackRight s).map Prod.fst = installed.foldlM takeBack s.1 := by
  induction installed generalizing s with
  | nil => rfl
  | cons n rest ih =>
    rw [List.foldlM_cons, List.foldlM_cons]
    by_cases inside : n < maxFds
    · cases taken : takeBack s.1 n with
      | none => simp [takeBackRight, inside, taken]
      | some host => simp [takeBackRight, inside, taken, ih]
    · simp [takeBackRight, takeBack, inside]

theorem networkReceive_erase (h : BridgeHost) (native : Except Errno (Nat × List Cmsg)) :
    (networkReceive h native).map (fun out => (out.host, out.result)) =
      receiveMessage h native := by
  cases native with
  | error error => rfl
  | ok received =>
    obtain ⟨bytes, cmsgs⟩ := received
    obtain ⟨numbers, opened⟩ := Prod.mk.inj (recvmsg_numbers h.native cmsgs)
    have loop := receiveMessages_erase (recvmsg h.native cmsgs).1
      ⟨{ h with native := (recvmsg h.native cmsgs).2 }, [], false, []⟩
    simp only [receiveMessage, ← numbers, ← opened, ← loop, networkReceive]
    cases receiveMessages (recvmsg h.native cmsgs).1
        ⟨{ h with native := (recvmsg h.native cmsgs).2 }, [], false, []⟩ with
    | none => rfl
    | some out =>
      obtain ⟨s, messages⟩ := out
      have back := takeBackRights_erase s.installed (s.host, s.closes)
      cases failed : s.failed with
      | false => simp [Receiving.erase, failed]
      | true =>
        simp only at back
        cases taken : s.installed.foldlM takeBackRight (s.host, s.closes) <;>
          simp [Receiving.erase, failed, taken, ← back]

end LashOs.Network
