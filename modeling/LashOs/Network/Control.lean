import LashOs.Base.Records
import LashOs.Descriptors.Table
import LashOs.Guest.Memory

/-!
# Control messages that are sent

The loop of `network_message` over the guest's control buffer. It works on a copy in which it
replaces the guest's descriptors by native ones, and Linux reads that copy with an iteration
of its own.
-/
namespace LashOs.Network

open Base
open Descriptors (BridgeHost)

theorem cmsg_header_pos : 0 < 16 := by decide

theorem cmsg_unit_pos : 0 < 8 := by decide

/-- `struct cmsghdr` and its alignment, which `struct network_cmsghdr` has as well. -/
def cmsg : Layout := ⟨16, 8, cmsg_header_pos, cmsg_unit_pos⟩

def word (control : List UInt8) (offset width : Nat) : Nat := leValue (slice control offset width)

/-- A word as an `int`. -/
def intAt (control : List UInt8) (offset : Nat) : Int :=
  let value := word control offset 4
  if value < 2 ^ 31 then value else (value : Int) - 2 ^ 32

/-- The level is `SOL_SOCKET` and the type `SCM_RIGHTS`, which are both 1. -/
def isRights (control : List UInt8) (offset : Nat) : Bool :=
  word control (offset + 8) 4 == 1 && word control (offset + 12) 4 == 1

/-- Linux's `for_each_cmsghdr` with `CMSG_OK`, on 64-bit lengths. -/
def linuxRecords (control : List UInt8) : Option (List Record) :=
  cmsg.records control.length (word control · 8) 0

/-- The records that the guest means, with the 32-bit lengths of `struct network_cmsghdr`. -/
def wireRecords (control : List UInt8) : Option (List Record) :=
  cmsg.records control.length (word control · 4) 0

/-- The loop over `rights[j]`. -/
def translateRights (h : BridgeHost) : Nat → List UInt8 → Nat → Except Errno (List UInt8)
  | 0, control, _ => .ok control
  | count + 1, control, offset =>
    match h.fd (intAt control offset) with
    | .error error => .error error
    | .ok real => translateRights h count (overwrite control offset (leBytes 4 real)) (offset + 4)

/-- One iteration of the loop over the control buffer; `size` is `wire->controllen`. -/
def controlRecord (h : BridgeHost) (size : Nat) (control : List UInt8) (offset : Nat) :
    Except Errno (List UInt8) :=
  let length := word control offset 4
  if length < 16 ∨ size - offset < length then .error .EINVAL
  else
    -- The upper half of the length is not the guest's.
    let control := overwrite control (offset + 4) (List.replicate 4 0)
    if isRights control offset then
      if (length - 16) % 4 ≠ 0 then .error .EINVAL
      else translateRights h ((length - 16) / 4) control (offset + 16)
    else .ok control

theorem controlRecord_length {h : BridgeHost} {size offset : Nat} {control after : List UInt8}
    (ran : controlRecord h size control offset = .ok after) :
    16 ≤ word control offset 4 ∧ word control offset 4 ≤ size - offset := by
  unfold controlRecord at ran
  simp only at ran
  split at ran
  · cases ran
  · omega

def controlLoop (h : BridgeHost) (size : Nat) (control : List UInt8) (offset : Nat) :
    Except Errno (List UInt8) :=
  if offset + 16 ≤ size then
    match _ran : controlRecord h size control offset with
    | .error error => .error error
    | .ok after => controlLoop h size after (offset + cmsg.room (word control offset 4))
  else .ok control
termination_by size - offset
decreasing_by
  have whole := controlRecord_length _ran
  have room := cmsg.le_room (word control offset 4)
  omega

/-! ### One record -/

variable {h : BridgeHost} {control sent : List UInt8} {offset size : Nat}

theorem word_congr {a b : List UInt8} {offset width : Nat}
    (same : ∀ i, offset ≤ i → i < offset + width → a[i]? = b[i]?) :
    word a offset width = word b offset width := by
  unfold word
  rw [slice_congr same]

theorem intAt_congr {a b : List UInt8} {offset : Nat}
    (same : ∀ i, offset ≤ i → i < offset + 4 → a[i]? = b[i]?) : intAt a offset = intAt b offset := by
  unfold intAt
  rw [word_congr same]

theorem isRights_congr {a b : List UInt8} {offset : Nat}
    (same : ∀ i, offset + 8 ≤ i → i < offset + 16 → a[i]? = b[i]?) :
    isRights a offset = isRights b offset := by
  have level : word a (offset + 8) 4 = word b (offset + 8) 4 :=
    word_congr fun i above below => same i above (by omega)
  have type : word a (offset + 12) 4 = word b (offset + 12) 4 :=
    word_congr fun i above below => same i (by omega) below
  unfold isRights
  rw [level, type]

/-- Each descriptor has been replaced by the native one, and nothing else has changed. -/
theorem translateRights_ok (count : Nat) (fits : offset + 4 * count ≤ control.length)
    (ran : translateRights h count control offset = .ok sent) :
    sent.length = control.length ∧
    (∀ i, i < offset ∨ offset + 4 * count ≤ i → sent[i]? = control[i]?) ∧
    ∀ j < count, ∃ real, h.fd (intAt control (offset + 4 * j)) = .ok real ∧
      slice sent (offset + 4 * j) 4 = leBytes 4 real := by
  induction count generalizing control offset with
  | zero =>
    cases ran
    simp
  | succ count ih =>
    unfold translateRights at ran
    split at ran
    · cases ran
    next real opened =>
      have width : (leBytes 4 real).length = 4 := length_leBytes 4 real
      have inside : offset + (leBytes 4 real).length ≤ control.length := by omega
      have here := getElem?_overwrite control offset (leBytes 4 real) inside
      have length := length_overwrite control offset (leBytes 4 real) inside
      -- The later replacements do not reach back to this one.
      obtain ⟨sentLength, outside, later⟩ := ih (by omega) ran
      refine ⟨by omega, ?_, ?_⟩
      · intro i away
        rw [outside i (by omega), here, if_neg (by omega)]
      · intro j small
        cases j with
        | zero =>
          refine ⟨real, opened, ?_⟩
          have kept : slice sent offset 4 = slice (overwrite control offset (leBytes 4 real)) offset 4 :=
            slice_congr fun i _ below => outside i (by omega)
          have written := slice_overwrite control offset (leBytes 4 real) inside
          rw [width] at written
          rw [Nat.mul_zero, Nat.add_zero, kept, written]
        | succ j =>
          obtain ⟨next, found, bytes⟩ := later j (by omega)
          have position : offset + 4 + 4 * j = offset + 4 * (j + 1) := by omega
          rw [position] at found bytes
          refine ⟨next, ?_, bytes⟩
          rw [← found]
          congr 1
          apply intAt_congr
          intro i above _
          rw [here, if_neg (by omega)]

/-- What a record that reaches Linux is: descriptors are whole numbers of `int`s, all of them
translated, and other data is what the guest has written. -/
def Translated (h : BridgeHost) (control sent : List UInt8) (r : Record) : Prop :=
  isRights sent r.offset = isRights control r.offset ∧
  if isRights control r.offset then
    (r.length - 16) % 4 = 0 ∧
    ∀ j < (r.length - 16) / 4, ∃ real,
      h.fd (intAt control (r.offset + 16 + 4 * j)) = .ok real ∧
      slice sent (r.offset + 16 + 4 * j) 4 = leBytes 4 real
  else slice sent (r.offset + 16) (r.length - 16) = slice control (r.offset + 16) (r.length - 16)

theorem Translated.congr {r : Record} {control' sent' : List UInt8} (whole : 16 ≤ r.length)
    (same : ∀ i, r.offset ≤ i → i < r.offset + r.length → control'[i]? = control[i]?)
    (sentSame : ∀ i, r.offset ≤ i → i < r.offset + r.length → sent'[i]? = sent[i]?)
    (translated : Translated h control sent r) : Translated h control' sent' r := by
  have rights : isRights control' r.offset = isRights control r.offset :=
    isRights_congr fun i _ _ => same i (by omega) (by omega)
  have sentRights : isRights sent' r.offset = isRights sent r.offset :=
    isRights_congr fun i _ _ => sentSame i (by omega) (by omega)
  obtain ⟨kind, content⟩ := translated
  refine ⟨by rw [sentRights, kind, rights], ?_⟩
  rw [rights]
  split
  next isRight =>
    rw [if_pos isRight] at content
    refine ⟨content.1, fun j small => ?_⟩
    obtain ⟨real, opened, bytes⟩ := content.2 j small
    refine ⟨real, ?_, ?_⟩
    · rw [← opened]
      congr 1
      exact intAt_congr fun i _ _ => same i (by omega) (by omega)
    · rw [← bytes]
      exact slice_congr fun i _ _ => sentSame i (by omega) (by omega)
  next other =>
    rw [if_neg other] at content
    rw [slice_congr fun i _ _ => sentSame i (by omega) (by omega), content]
    exact (slice_congr fun i _ _ => same i (by omega) (by omega)).symm

/-- What one iteration does. -/
theorem controlRecord_ok {after : List UInt8} (fits : offset + 16 ≤ control.length)
    (ran : controlRecord h control.length control offset = .ok after) :
    after.length = control.length ∧
    (∀ i, i < offset ∨ offset + word control offset 4 ≤ i → after[i]? = control[i]?) ∧
    word after offset 8 = word control offset 4 ∧
    Translated h control after ⟨offset, word control offset 4⟩ := by
  obtain ⟨whole, inside⟩ := controlRecord_length ran
  -- The upper half of the length is cleared, which leaves the type and the data alone.
  have zeros : (List.replicate 4 (0 : UInt8)).length = 4 := List.length_replicate
  have cleared := getElem?_overwrite control (offset + 4) (List.replicate 4 0) (by omega)
  have clearedLength := length_overwrite control (offset + 4) (List.replicate 4 0) (by omega)
  have rights : isRights (overwrite control (offset + 4) (List.replicate 4 0)) offset =
      isRights control offset := isRights_congr fun i _ _ => by rw [cleared, if_neg (by omega)]
  have long : word (overwrite control (offset + 4) (List.replicate 4 0)) offset 8 =
      word control offset 4 := by
    have low : slice (overwrite control (offset + 4) (List.replicate 4 0)) offset 4 =
        slice control offset 4 := slice_congr fun i _ _ => by rw [cleared, if_neg (by omega)]
    have high := slice_overwrite control (offset + 4) (List.replicate 4 0) (by omega)
    rw [zeros] at high
    rw [word, slice_append _ offset 4 4, low, high, leValue_append_zeros, word]
  unfold controlRecord at ran
  simp only [rights] at ran
  rw [if_neg (by omega)] at ran
  split at ran
  next isRight =>
    split at ran
    · cases ran
    next multiple =>
      obtain ⟨length, outside, replaced⟩ := translateRights_ok _ (by omega) ran
      refine ⟨by omega, ?_, ?_, ?_⟩
      · intro i away
        rw [outside i (by omega), cleared, if_neg (by omega)]
      · rw [← long]
        exact word_congr fun i _ _ => outside i (by omega)
      · have kind : isRights after offset = isRights control offset := by
          rw [← rights]
          exact isRights_congr fun i _ _ => outside i (by omega)
        refine ⟨kind, ?_⟩
        simp only
        rw [if_pos isRight]
        refine ⟨by omega, fun j small => ?_⟩
        obtain ⟨real, opened, bytes⟩ := replaced j small
        refine ⟨real, ?_, bytes⟩
        rw [← opened]
        congr 1
        exact (intAt_congr fun i _ _ => by rw [cleared, if_neg (by omega)]).symm
  next other =>
    cases ran
    refine ⟨clearedLength, ?_, long, rights, ?_⟩
    · intro i away
      rw [cleared, if_neg (by omega)]
    · simp only
      rw [if_neg other]
      exact slice_congr fun i _ _ => by rw [cleared, if_neg (by omega)]

/-- The loop and Linux see the same records. -/
theorem controlLoop_ok (fits : control.length = size)
    (ran : controlLoop h size control offset = .ok sent) :
    sent.length = size ∧ (∀ i < offset, sent[i]? = control[i]?) ∧
    ∃ out, cmsg.records size (word control · 4) offset = some out ∧
      cmsg.records size (word sent · 8) offset = some out ∧
      ∀ r ∈ out, Translated h control sent r := by
  induction control, offset using controlLoop.induct h size with
  | case1 control offset room error failed =>
    rw [controlLoop, if_pos room] at ran
    split at ran
    · cases ran
    next other => rw [failed] at other; cases other
  | case2 control offset room after went ih =>
    subst fits
    rw [controlLoop, if_pos room] at ran
    split at ran
    · cases ran
    next same =>
    rw [went] at same
    cases same
    obtain ⟨whole, inside⟩ := controlRecord_length went
    obtain ⟨length, outside, long, translated⟩ := controlRecord_ok room went
    obtain ⟨sentLength, kept, out, wire, linux, rest⟩ := ih length ran
    have progress := cmsg.le_room (word control offset 4)
    -- The later iterations leave this record alone, and this one the later records.
    have wire' : cmsg.records control.length (word control · 4)
        (offset + cmsg.room (word control offset 4)) = some out := by
      rw [← wire]
      exact Layout.records_congr fun o behind =>
        (word_congr fun i _ _ => outside i (by omega)).symm
    have header : word sent offset 8 = word control offset 4 := by
      rw [← long]
      exact word_congr fun i _ _ => kept i (by omega)
    refine ⟨sentLength, ?_, ⟨offset, word control offset 4⟩ :: out, ?_, ?_, ?_⟩
    · intro i before
      rw [kept i (by omega), outside i (by omega)]
    · exact Layout.records_cons rfl whole (by omega) wire'
    · exact Layout.records_cons header whole (by omega) linux
    · intro r member
      rcases List.mem_cons.mp member with rfl | later
      · exact translated.congr whole (fun _ _ _ => rfl) fun i _ below => kept i (by
          simp only at below
          omega)
      · obtain ⟨behind, header, -⟩ := Layout.records_mem wire r later
        exact (rest r later).congr header
          (fun i _ _ => (outside i (by omega)).symm) fun _ _ _ => rfl
  | case3 control offset full =>
    rw [controlLoop, if_neg full] at ran
    cases ran
    have done : size < offset + cmsg.header := Nat.lt_of_not_le full
    exact ⟨fits, fun _ _ => rfl, [], Layout.records_nil done, Layout.records_nil done, by simp⟩

end LashOs.Network
