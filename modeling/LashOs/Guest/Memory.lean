import LashOs.Base.Bytes
import LashOs.Errno

/-!
# Guest memory

The two regions of memory that belong to the guest, and the checks of `host.c` with which
the loader uses an address that the guest gave it. Addresses are 64-bit words.
-/
namespace LashOs.Guest

open Base

/-- The capsule's memory and the image of the initialized globals (`image` is 0 if there is
none). They are at addresses of a user process: a region does not wrap around the address space,
and the capsule does not start in its last page. -/
structure Memory where
  start : UInt64
  total : UInt64
  image : UInt64
  imageSize : UInt64
  byte : UInt64 → UInt8
  fits : start.toNat + total.toNat ≤ 2 ^ 64
  imageFits : image.toNat + imageSize.toNat ≤ 2 ^ 64
  guardFits : start.toNat + 4096 < 2 ^ 64

theorem noImage_fits : (0 : UInt64).toNat + (0 : UInt64).toNat ≤ 2 ^ 64 := by decide

theorem zero_guardFits : (0 : UInt64).toNat + 4096 < 2 ^ 64 := by decide

theorem low_guardFits : (0x10000 : UInt64).toNat + 4096 < 2 ^ 64 := by decide

/-- A range of bytes inside one of the guest's regions: the capsule's memory behind its first page,
or the image if there is one. -/
def Memory.Inside (g : Memory) (address : UInt64) (size : Nat) : Prop :=
  (g.start.toNat + 4096 ≤ address.toNat ∧ address.toNat + size ≤ g.start.toNat + g.total.toNat) ∨
  (g.image ≠ 0 ∧ g.image.toNat ≤ address.toNat ∧
    address.toNat + size ≤ g.image.toNat + g.imageSize.toNat)

/-- `available`: how many bytes a region has from an address on. The first page of the
capsule is not the guest's. -/
def Memory.available (g : Memory) (address : UInt64) : UInt64 :=
  if g.start + 4096 ≤ address ∧ address - g.start < g.total then g.total - (address - g.start)
  else if g.image ≠ 0 ∧ g.image ≤ address ∧ address - g.image < g.imageSize then
    g.imageSize - (address - g.image)
  else 0

def Memory.memory (g : Memory) (address size : UInt64) : Except Errno Unit :=
  if g.available address = 0 ∨ g.available address < size then .error .EFAULT else .ok ()

def Memory.bytes (g : Memory) (address : UInt64) (count : Nat) : List UInt8 :=
  (List.range count).map fun i => g.byte (address + UInt64.ofNat i)

def Memory.load (g : Memory) (address : UInt64) (count : Nat) : UInt64 :=
  UInt64.ofNat (leValue (g.bytes address count))

/-- The bytes up to the first NUL, if that is among the first `limit` ones. -/
def Memory.terminated (g : Memory) (address : UInt64) (limit : Nat) : Option (List UInt8) :=
  if 0 ∈ g.bytes address limit then some ((g.bytes address limit).takeWhile (· ≠ 0)) else none

/-- `string` -/
def Memory.string (g : Memory) (address : UInt64) : Except Errno (List UInt8) :=
  let left := g.available address
  if left = 0 then .error .EFAULT
  else
    match g.terminated address (min left.toNat 4096) with
    | none => .error .ENAMETOOLONG
    | some text => .ok text

/-! ### Ranges that are checked -/

theorem getElem?_length_takeWhile {bytes : List UInt8} (zero : 0 ∈ bytes) :
    bytes[(bytes.takeWhile (· ≠ 0)).length]? = some 0 := by
  induction bytes with
  | nil => cases zero
  | cons b rest ih =>
    by_cases first : b = 0
    · simp [first]
    · have later : 0 ∈ rest := by simpa [Ne.symm first] using zero
      simpa [first] using ih later

variable {g : Memory} {address size : UInt64}

theorem toNat_sub_of_lt {a b c : UInt64} (small : a - b < c) (fits : b.toNat + c.toNat ≤ 2 ^ 64) :
    b.toNat ≤ a.toNat ∧ (a - b).toNat = a.toNat - b.toNat := by
  rw [UInt64.lt_iff_toNat_lt, UInt64.toNat_sub] at small
  rw [UInt64.toNat_sub]
  have := a.toNat_lt
  have := b.toNat_lt
  omega

theorem toNat_left {a b c : UInt64} (small : a - b < c) (fits : b.toNat + c.toNat ≤ 2 ^ 64) :
    b.toNat ≤ a.toNat ∧ a.toNat + (c - (a - b)).toNat = b.toNat + c.toNat := by
  obtain ⟨above, difference⟩ := toNat_sub_of_lt small fits
  rw [UInt64.lt_iff_toNat_lt] at small
  rw [UInt64.toNat_sub_of_le _ _ (UInt64.le_iff_toNat_le.mpr small.le)]
  omega

theorem toNat_guard (behind : g.start + 4096 ≤ address) :
    g.start.toNat + 4096 ≤ address.toNat := by
  have guard := g.guardFits
  have sum : (g.start + 4096).toNat = g.start.toNat + 4096 := by
    rw [UInt64.toNat_add]
    exact Nat.mod_eq_of_lt guard
  rw [UInt64.le_iff_toNat_le, sum] at behind
  exact behind

theorem available_inside (some_ : g.available address ≠ 0) :
    g.Inside address (g.available address).toNat := by
  unfold Memory.available at *
  split at some_
  next capsule =>
    obtain ⟨-, whole⟩ := toNat_left capsule.2 g.fits
    rw [if_pos capsule]
    exact .inl ⟨toNat_guard capsule.1, whole.le⟩
  next other =>
    rw [if_neg other]
    split at some_
    next image =>
      obtain ⟨above, whole⟩ := toNat_left image.2.2 g.imageFits
      rw [if_pos image]
      exact .inr ⟨image.1, above, whole.le⟩
    · exact absurd rfl some_

theorem Memory.Inside.mono {larger smaller : Nat} (inside : g.Inside address larger)
    (less : smaller ≤ larger) : g.Inside address smaller := by
  rcases inside with ⟨above, below⟩ | ⟨present, above, below⟩
  · exact .inl ⟨above, by omega⟩
  · exact .inr ⟨present, above, by omega⟩

theorem memory_inside (checked : g.memory address size = .ok ()) : g.Inside address size.toNat := by
  unfold Memory.memory at checked
  split at checked
  · cases checked
  next enough =>
    rw [not_or] at enough
    apply (available_inside enough.1).mono
    rw [← UInt64.le_iff_toNat_le]
    exact UInt64.not_lt.mp enough.2

theorem length_bytes (g : Memory) (address : UInt64) (count : Nat) :
    (g.bytes address count).length = count := by simp [Memory.bytes]

theorem string_spec {text : List UInt8} (checked : g.string address = .ok text) :
    ∃ limit ≤ (g.available address).toNat, 0 ∈ g.bytes address limit ∧
      text = (g.bytes address limit).takeWhile (· ≠ 0) ∧ g.available address ≠ 0 := by
  have limited : min (g.available address).toNat 4096 ≤ (g.available address).toNat :=
    Nat.min_le_left _ _
  unfold Memory.string Memory.terminated at checked
  dsimp only at checked
  generalize min (g.available address).toNat 4096 = limit at checked limited
  split at checked
  · cases checked
  next some_ =>
    by_cases zero : 0 ∈ g.bytes address limit
    · rw [if_pos zero] at checked
      exact ⟨limit, limited, zero, (Except.ok.inj checked).symm, some_⟩
    · rw [if_neg zero] at checked
      cases checked

theorem string_inside {text : List UInt8} (checked : g.string address = .ok text) :
    g.Inside address (text.length + 1) := by
  obtain ⟨limit, limited, zero, rfl, some_⟩ := string_spec checked
  apply (available_inside some_).mono
  obtain ⟨shorter, -⟩ := List.getElem?_eq_some_iff.mp (getElem?_length_takeWhile zero)
  rw [length_bytes] at shorter
  omega

theorem string_ends {text : List UInt8} (checked : g.string address = .ok text) :
    g.byte (address + UInt64.ofNat text.length) = 0 := by
  obtain ⟨limit, -, zero, rfl, -⟩ := string_spec checked
  have ends := getElem?_length_takeWhile zero
  obtain ⟨shorter, -⟩ := List.getElem?_eq_some_iff.mp ends
  generalize ((g.bytes address limit).takeWhile (· ≠ 0)).length = k at ends shorter
  rw [length_bytes] at shorter
  simpa [Memory.bytes, shorter] using ends

end LashOs.Guest
