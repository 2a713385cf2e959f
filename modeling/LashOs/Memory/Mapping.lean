import Mathlib
import LashOs.Base.Sharing
import LashOs.Errno

/-!
# Guest mappings

`mmap`, `munmap`, `mremap` and `mincore` of `memory_guest.c`. Addresses are numbers, with the
reductions modulo `2 ^ 64` of the source where a sum can leave the address space. `PAGE` is
4096. What the C library's allocator and `pread` answer is an argument of each call. An
access to an allocation that was freed is `none`.
-/
namespace LashOs.Memory

open Base

/-- `PAGE_ROUND(n)` -/
def pageRound (n : Nat) : Nat := (n + 4095) % 2 ^ 64 / 4096 * 4096

/-- The memory of a `struct allocation`, with the size that `malloc` was asked for. -/
structure Block where
  memory : Nat
  size : Nat
  deriving DecidableEq, Repr

/-- A `struct mapping`; `allocation` is the address of the shared `struct allocation`. -/
structure Mapping where
  base : Nat
  size : Nat
  allocation : Nat
  deriving DecidableEq, Repr

structure Arena where
  mappings : List Mapping
  allocations : SharedTable Block
  bytes : Nat → UInt8

def Arena.start (bytes : Nat → UInt8) : Arena := { mappings := [], allocations := ∅, bytes }

/-! ### Memory contents -/

/-- `memset` -/
def fill (bytes : Nat → UInt8) (start count : Nat) (value : UInt8) : Nat → UInt8 :=
  fun a => if start ≤ a ∧ a < start + count then value else bytes a

/-- `memcpy` -/
def copy (bytes : Nat → UInt8) (target source count : Nat) : Nat → UInt8 :=
  fun a => if target ≤ a ∧ a < target + count then bytes (source + (a - target)) else bytes a

def store (bytes : Nat → UInt8) (start : Nat) (data : List UInt8) : Nat → UInt8 :=
  fun a => if start ≤ a ∧ a < start + data.length then data.getD (a - start) 0 else bytes a

/-! ### The allocator -/

/-- `malloc(size)`: an answer is a block of the address space that no live block overlaps.
Its end is an address too, as for every object. Anything else counts as a failure. -/
def Arena.malloc (s : Arena) (size : Nat) (answer : Option Nat) : Option Nat :=
  answer.filter fun memory =>
    decide (0 < memory ∧ memory + size < 2 ^ 64) && s.allocations.entries.all fun live =>
      decide (memory + size ≤ live.2.value.memory ∨
        live.2.value.memory + live.2.value.size ≤ memory)

/-- `calloc(1, sizeof(struct allocation))`, which is not the address of a live one. -/
def Arena.callocAllocation (s : Arena) (answer : Option Nat) : Option Nat :=
  answer.filter fun id => id != 0 && (s.allocations.lookup id).isNone

/-- What one `mmap` gets from outside; `item` is whether its `struct mapping` was allocated. -/
structure Answers where
  item : Bool
  allocation : Option Nat
  memory : Option Nat
  reads : List (Except Errno (List UInt8))

/-! ### `mmap` -/

/-- The loop around `pread`. Reading past the list of answers finds the end of the file. -/
def preadLoop (base length : Nat) (bytes : Nat → UInt8) (done : Nat) :
    List (Except Errno (List UInt8)) → (Nat → UInt8) × Except Errno Unit
  | [] => (bytes, .ok ())
  | answer :: reads =>
    if done < length then
      match answer with
      | .error error =>
        if error = .EINTR then preadLoop base length bytes done reads else (bytes, .error error)
      | .ok data =>
        let got := data.take (length - done)
        if got.length = 0 then (bytes, .ok ())
        else preadLoop base length (store bytes (base + done) got) (done + got.length) reads
    else (bytes, .ok ())

/-- What follows the allocations. -/
def mapMemory (s : Arena) (length : Nat) (anonymous : Bool) (id memory : Nat)
    (reads : List (Except Errno (List UInt8))) : Option (Arena × Except Errno Nat) :=
  let size := pageRound length
  let base := pageRound memory
  let allocations := s.allocations.create id ⟨memory, size + 4095⟩
  let zeroed := fill s.bytes base size 0
  let (bytes, result) :=
    if anonymous then (zeroed, .ok ()) else preadLoop base length zeroed 0 reads
  match result with
  | .error error =>
    match allocations.release id with
    | some allocations => some ({ s with allocations, bytes }, .error error)
    | none => none
  | .ok () => some ({ mappings := ⟨base, size, id⟩ :: s.mappings, allocations, bytes }, .ok base)

/-- `MAP_FIXED | MAP_SHARED` is 0x11, `MAP_ANONYMOUS` 0x20 and `PROT_EXEC` 4. -/
def mmap (s : Arena) (length : UInt64) (protection flags : UInt32) (offset : Int64)
    (answers : Answers) : Option (Arena × Except Errno Nat) :=
  if length.toNat = 0 ∨ length.toNat > 2 ^ 64 - 1 - 8190 ∨ offset.toInt < 0 ∨
      offset.toInt % 4096 ≠ 0 then some (s, .error .EINVAL)
  else if flags &&& 0x11 ≠ 0 ∨ protection &&& 4 ≠ 0 then some (s, .error .ENOTSUP)
  else
    match answers.item, s.callocAllocation answers.allocation with
    | true, some id =>
      match s.malloc (pageRound length.toNat + 4095) answers.memory with
      | some memory => mapMemory s length.toNat (flags &&& 0x20 != 0) id memory answers.reads
      | none => some (s, .error .ENOMEM)
    | _, _ => some (s, .error .ENOMEM)

/-! ### `munmap` -/

/-- The loop of `munmap`, from the item that `next` points to; `callocs` says which
allocations of a tail succeed. -/
def munmapLoop (start end_ : Nat) :
    List Mapping → SharedTable Block → List Bool →
      Option (List Mapping × SharedTable Block × Except Errno Unit)
  | [], allocations, _ => some ([], allocations, .ok ())
  | item :: rest, allocations, callocs =>
    let base := item.base
    let limit := (base + item.size) % 2 ^ 64
    if end_ ≤ base ∨ start ≥ limit then
      keep [item] (munmapLoop start end_ rest allocations callocs)
    else if start ≤ base ∧ end_ ≥ limit then
      match allocations.release item.allocation with
      | some allocations => munmapLoop start end_ rest allocations callocs
      | none => none
    else if start > base ∧ end_ < limit then
      match callocs with
      | true :: callocs =>
        match allocations.retain item.allocation with
        | some allocations =>
          keep [{ item with size := start - base }, ⟨end_, limit - end_, item.allocation⟩]
            (munmapLoop start end_ rest allocations callocs)
        | none => none
      | _ => some (item :: rest, allocations, .error .ENOMEM)
    else if start ≤ base then
      keep [{ item with base := end_, size := limit - end_ }]
        (munmapLoop start end_ rest allocations callocs)
    else
      keep [{ item with size := start - base }] (munmapLoop start end_ rest allocations callocs)
where
  -- The items that the loop has passed stay in front.
  keep (passed : List Mapping) :
      Option (List Mapping × SharedTable Block × Except Errno Unit) →
        Option (List Mapping × SharedTable Block × Except Errno Unit)
    | some (rest, allocations, result) => some (passed ++ rest, allocations, result)
    | none => none

def munmap (s : Arena) (address length : Nat) (callocs : List Bool) :
    Option (Arena × Except Errno Unit) :=
  if length = 0 ∨ address % 4096 ≠ 0 ∨ length > 2 ^ 64 - 1 - 4095 ∨
      pageRound length > 2 ^ 64 - 1 - address then some (s, .error .EINVAL)
  else
    match munmapLoop address (address + pageRound length) s.mappings s.allocations callocs with
    | some (mappings, allocations, result) => some ({ s with mappings, allocations }, result)
    | none => none

/-! ### `mremap` and `mincore` -/

def containing (s : Arena) (start size : Nat) : Option Mapping :=
  s.mappings.find? fun item =>
    decide (item.base ≤ start ∧ start - item.base < item.size ∧
      size ≤ item.size - (start - item.base))

/-- `MREMAP_MAYMOVE` is 1. The move ignores the result of `munmap`. -/
def mremap (s : Arena) (address oldSize newSize : UInt64) (flags : UInt32) (answers : Answers)
    (callocs : List Bool) : Option (Arena × Except Errno Nat) :=
  let start := address.toNat
  if flags &&& ~~~1 ≠ 0 then some (s, .error .ENOTSUP)
  else if start % 4096 ≠ 0 ∨ oldSize.toNat = 0 ∨ newSize.toNat = 0 ∨
      oldSize.toNat > 2 ^ 64 - 1 - 8190 ∨ newSize.toNat > 2 ^ 64 - 1 - 8190 then
    some (s, .error .EINVAL)
  else
    let oldPages := pageRound oldSize.toNat
    let newPages := pageRound newSize.toNat
    if (containing s start oldPages).isNone then some (s, .error .EFAULT)
    else if newPages ≤ oldPages then
      if newPages < oldPages then
        match munmap s ((start + newPages) % 2 ^ 64) (oldPages - newPages) callocs with
        | some (s, .error error) => some (s, .error error)
        | some (s, .ok ()) => some (s, .ok start)
        | none => none
      else some (s, .ok start)
    else if flags &&& 1 = 0 then some (s, .error .ENOMEM)
    else
      -- PROT_READ | PROT_WRITE and MAP_PRIVATE | MAP_ANONYMOUS.
      match mmap s newSize 3 0x22 0 answers with
      | some (s, .ok out) =>
        match munmap { s with bytes := copy s.bytes out start oldPages } start oldPages callocs with
        | some (s, _) => some (s, .ok out)
        | none => none
      | failed => failed

/-- The loop of `mincore` from page `i` on, with `left` pages to go. -/
def mincoreLoop (s : Arena) (start i : Nat) : Nat → Bool
  | 0 => true
  | left + 1 =>
    (containing s ((start + i * 4096) % 2 ^ 64) 4096).isSome && mincoreLoop s start (i + 1) left

/-- `length / PAGE + !!(length % PAGE)` -/
def pageCount (length : Nat) : Nat := length / 4096 + if length % 4096 ≠ 0 then 1 else 0

def mincore (s : Arena) (address length vector : UInt64) : Arena × Except Errno Unit :=
  if address.toNat % 4096 ≠ 0 then (s, .error .EINVAL)
  else if mincoreLoop s address.toNat 0 (pageCount length.toNat) then
    ({ s with bytes := fill s.bytes vector.toNat (pageCount length.toNat) 1 }, .ok ())
  else (s, .error .ENOMEM)

/-! ### Sequences of calls -/

inductive Call where
  | mmap (length : UInt64) (protection flags : UInt32) (offset : Int64) (answers : Answers)
  | munmap (address length : UInt64) (callocs : List Bool)
  | mremap (address oldSize newSize : UInt64) (flags : UInt32) (answers : Answers)
      (callocs : List Bool)
  | mincore (address length vector : UInt64)

def Arena.step (s : Arena) : Call → Option Arena
  | .mmap length protection flags offset answers =>
    (Memory.mmap s length protection flags offset answers).map Prod.fst
  | .munmap address length callocs =>
    (Memory.munmap s address.toNat length.toNat callocs).map Prod.fst
  | .mremap address oldSize newSize flags answers callocs =>
    (Memory.mremap s address oldSize newSize flags answers callocs).map Prod.fst
  | .mincore address length vector => some (Memory.mincore s address length vector).1

end LashOs.Memory
