import LashOs.Posix.Adapters

/-!
# A wrapper calls the native function

A wrapper of the guest, the request that it leaves in the guest's memory and the case of the loader
together do what a direct call with translated arguments would do. Six words carry the arguments: an
integer is extended to a word and converted to the type of the loader, which has the same value if
that type can hold it.
-/
namespace LashOs.Posix

open Base Descriptors Guest Paths

/-! ### The wrapper of the guest -/

inductive GuestArg where
  | integer (n : Int)
  | pointer (address : UInt64)
  | flags (f : OpenFlags)
  deriving DecidableEq, Repr

/-- The expressions that are written for the six words. -/
inductive Packed where
  -- `pack_flags(name)`
  | flags (name : String)
  -- `(uintptr_t)name`
  | pointer (name : String)
  -- `(uint64_t)name`
  | integer (name : String)
  | zero
  deriving DecidableEq, Repr

def Parameter.packed (p : Parameter) : Packed :=
  if p.kind = .openflags then .flags p.name
  else if p.type = .pointer then .pointer p.name
  else .integer p.name

def Function.packed (f : Function) : List Packed :=
  f.parameters.map Parameter.packed ++ List.replicate (6 - f.parameters.length) .zero

/-- The parameter with a name, in a call with `args`. -/
def Function.parameter (f : Function) (args : List GuestArg) (n : String) : Option GuestArg :=
  ((f.parameters.zip args).find? fun e => e.1.name == n).map Prod.snd

def Packed.eval (parameter : String → Option GuestArg) : Packed → Option UInt64
  | .flags n =>
    match parameter n with
    | some (.flags f) => some (UInt64.ofNat (packFlags f))
    | _ => none
  | .pointer n =>
    match parameter n with
    | some (.pointer address) => some address
    | _ => none
  | .integer n =>
    match parameter n with
    | some (.integer v) => some (word v)
    | _ => none
  | .zero => some 0

def Function.words (f : Function) (args : List GuestArg) : Option (List UInt64) :=
  (f.packed.map (Packed.eval (f.parameter args))).mapM id

/-! ### The request -/

/-- `PX_…`: the functions are numbered from 1. -/
def ordinal (name : String) : Nat := functions.findIdx (·.name == name) + 1

def wordBytes (ws : List UInt64) : List UInt8 := ws.flatMap fun w => leBytes 8 w.toNat

/-- `struct posix_request` -/
def requestBytes (operation : Nat) (a : List UInt64) : List UInt8 :=
  wordBytes (UInt64.ofNat operation :: a)

def place (g : Memory) (address : UInt64) (bytes : List UInt8) : Memory :=
  { g with byte := fun x => bytes[(x - address).toNat]?.getD (g.byte x) }

/-- The `i`th word of the request at an address. -/
def requestWord (g : Memory) (address : UInt64) (i : Nat) : UInt64 :=
  g.load (address + UInt64.ofNat (8 * i)) 8

/-! ### The loader -/

structure Machine (ω : Type) where
  memory : Memory
  host : BridgeHost
  world : ω

/-- What a native function returns, and `errno` if it sets it. -/
structure NativeResult where
  value : Int
  errno : Option Errno

structure Platform (ω : Type) where
  native : String → List NativeArg → Machine ω → Machine ω × NativeResult
  -- The error with a number of the loader.
  errorOf : Int → Errno
  -- The number that the guest has for an error of the loader.
  guestNumber : Errno → Int
  -- The types of the guest.
  guestType : CType → IntType

/-- What `service` leaves and returns. -/
structure Response (ω : Type) where
  machine : Machine ω
  response : Int
  errno : Option Errno

variable {ω : Type}

/-- The end of a case. A native function that succeeds may have set `errno` too. -/
def Return.finish (sys : Platform ω) (m : Machine ω) (r : NativeResult) : Return → Response ω
  | .plain => ⟨m, r.value, r.errno⟩
  | .saveFd =>
    if r.value < 0 then ⟨m, -1, r.errno⟩
    else
      match adoptDescriptor m.host (.ok r.value.toNat) 0 with
      | (host, .ok d) => ⟨{ m with host := host }, d, r.errno⟩
      | (host, .error e) => ⟨{ m with host := host }, -1, some e⟩
  | .error => if r.value ≠ 0 then ⟨m, -1, some (sys.errorOf r.value)⟩ else ⟨m, 0, r.errno⟩

/-- `errno` when the native function leaves it alone. A buffer of no bytes that is not in the guest's
memory is passed as a null pointer, but `memory` has set `errno` then. -/
def Function.leftErrno (f : Function) (arguments : List NativeArg) : Option Errno :=
  if (f.parameters.zip arguments).any fun e =>
      match e.1.kind with
      | .bytes _ => e.2 = .null
      | _ => false
  then some .EFAULT else none

/-- The native function is called with arguments, and the case ends. -/
def Function.finish (sys : Platform ω) (f : Function) (arguments : List NativeArg) (m : Machine ω) :
    Response ω :=
  let (m, r) := sys.native f.name arguments m
  let response := f.case.result.finish sys m r
  { response with errno := response.errno.or (f.leftErrno arguments) }

/-- A case with the words `a`; none if the program has no meaning. -/
def Function.serve (sys : Platform ω) (f : Function) (m : Machine ω) (a : List UInt64) :
    Option (Response ω) :=
  match f.case.call m.memory m.host a with
  | .error (.errno e) => some ⟨m, -1, some e⟩
  | .error .undefined => none
  | .ok arguments =>
    match arguments.mapM id with
    | none => none
    | some arguments => some (f.finish sys arguments m)

def numbered : Nat → Option Function
  | 0 => none
  | n + 1 => functions[n]?

/-- `BR_POSIX`, for the operations that are generated: the switch of `service_posix`. What its default
does is left out. -/
def servicePosix (sys : Platform ω) (m : Machine ω) (address : UInt64) : Option (Response ω) :=
  match m.memory.memory address 56 with
  | .error e => some ⟨m, -1, some e⟩
  | .ok () =>
    match numbered (requestWord m.memory address 0).toNat with
    | none => none
    | some f =>
      if f.name ∈ hostConverted then none
      else f.serve sys m ((List.range 6).map fun i => requestWord m.memory address (i + 1))

/-- What a wrapper returns, with `errno` of the guest. -/
structure Returned (ω : Type) where
  machine : Machine ω
  value : Int
  errno : Option Int

/-- The end of a wrapper. `before` is `errno` before the call. -/
def Function.returned (sys : Platform ω) (f : Function) (before : Int) (r : Response ω) : Returned ω :=
  let errno := r.errno.map sys.guestNumber
  if f.name ∈ errorReturns then
    -- `int rc=…; return rc<0?errno:rc;`
    let rc := (hostType .int).wrap r.response
    ⟨r.machine, if rc < 0 then errno.getD before else rc, errno⟩
  else ⟨r.machine, (sys.guestType f.result).wrap r.response, errno⟩

/-- The wrapper that is written, with the request at `address` on the guest's stack. -/
def Function.wrapper (sys : Platform ω) (f : Function) (args : List GuestArg) (before : Int)
    (address : UInt64) (m : Machine ω) : Option (Returned ω) :=
  if f.name ∈ converted then none
  else
    match f.words args with
    | none => none
    | some a =>
      let stored := { m with memory := place m.memory address (requestBytes (ordinal f.name) a) }
      (servicePosix sys stored address).map (f.returned sys before)

/-! ### Calls without a bridge -/

/-- The arguments that a parameter can have: an integer that the type of the loader can hold, an
address, or flags. For a clock that is `clockid_t` or the type of the parameter of `native_clock`. -/
def Fits (p : Parameter) : GuestArg → Prop
  | .flags _ => p.kind = .openflags
  | .pointer _ => p.kind.isPointer = true
  | .integer n =>
    match p.kind with
    | .value => (hostType p.type).Holds n
    | .fd => (hostType .int).Holds n
    | .dirfd => (hostType .int).Holds n
    | .clock => (hostType .clockid).Holds n ∨ (hostType .unsigned).Holds n
    | .atflags => True
    | _ => False

def Function.guestScalar (f : Function) (args : List GuestArg) (n : String) : Option Int :=
  match f.parameter args n with
  | some (.integer v) => some v
  | _ => none

def flagWord : Option GuestArg → UInt64
  | some (.integer n) => word n
  | _ => 0

/-- Whether a stream at the end of a path is followed. -/
def Function.follows (f : Function) (args : List GuestArg) (p : Parameter) : Bool :=
  match f.follow p with
  | .never => false
  | .always => true
  | .unlessNofollow index => !hasAtFlag (flagWord args[index]?) atNofollow
  | .linked => hasAtFlag (flagWord args[4]?) atFollow

def usedPath (g : Memory) (h : BridgeHost) (address : UInt64) (follow : Bool) :
    Except Errno NativeArg :=
  match pathStringMode g h address follow with
  | .unchanged path => .ok (.text path)
  | .translated path => .ok (.text path)
  | .failed e => .error e
  | _ => .error .EINVAL

/-- What an argument of the guest is for the native function. -/
def Function.meaning (f : Function) (g : Memory) (h : BridgeHost) (args : List GuestArg)
    (p : Parameter) : GuestArg → Except Errno NativeArg
  | .flags flags => .ok (.openFlags flags)
  | .integer n =>
    match p.kind with
    | .fd => fdArg h n
    | .dirfd => dirfdArg h n
    | .clock => clockArg n
    | .atflags => atFlagsArg (word n)
    | _ => .ok (.integer n)
  | .pointer address =>
    match p.kind with
    | .optstring => if address = 0 then .ok .null else stringArg g address
    | .path => usedPath g h address (f.follows args p)
    | .optpath => if address = 0 then .ok .null else usedPath g h address (f.follows args p)
    | .optional size => optionalArg g address ((size.eval (f.guestScalar args)).getD 0)
    | .bytes size => bytesArg g address ((size.eval (f.guestScalar args)).getD 0)
    | _ => stringArg g address

/-- The function, called with what the arguments are for it. -/
def Function.direct (sys : Platform ω) (f : Function) (args : List GuestArg) (before : Int)
    (m : Machine ω) : Returned ω :=
  f.returned sys before
    (match evaluateAll (fun e => f.meaning m.memory m.host args e.1 e.2) (f.parameters.zip args) with
    | .error e => ⟨m, -1, some e⟩
    | .ok arguments => f.finish sys arguments m)

/-! ### The words carry the arguments -/

theorem mapM_id_map_some {α : Type} (xs : List α) : (xs.map some).mapM id = some xs := by
  induction xs with
  | nil => rfl
  | cons x rest ih =>
    rw [List.map_cons, List.mapM_cons, ih]
    rfl

def GuestArg.word : GuestArg → UInt64
  | .integer n => Base.word n
  | .pointer address => address
  | .flags f => UInt64.ofNat (packFlags f)

section Words

variable {f : Function} {args : List GuestArg} {p : Parameter} {arg : GuestArg} {i : Nat}

theorem Function.WellFormed.parameter_eq (wf : f.WellFormed) (here : f.parameters[i]? = some p)
    (there : args[i]? = some arg) : f.parameter args p.name = some arg := by
  have paired : (f.parameters.zip args)[i]? = some (p, arg) := by
    rw [List.getElem?_zip_eq_some]
    exact ⟨here, there⟩
  cases search : (f.parameters.zip args).find? fun e => e.1.name == p.name with
  | none =>
    have missing := List.find?_eq_none.mp search _ (List.mem_of_getElem? paired)
    simp at missing
  | some e =>
    -- The names are distinct, so it is found at the same place.
    obtain ⟨j, found⟩ := List.mem_iff_getElem?.mp (List.mem_of_find?_eq_some search)
    obtain ⟨first, second⟩ := List.getElem?_zip_eq_some.mp found
    have named : e.1.name = p.name := by simpa using List.find?_some search
    have same : (e.1, j) = (p, i) :=
      wf.item_eq (f.mem_items.mpr first) (f.mem_items.mpr here) named
    cases same
    rw [there] at second
    rw [Function.parameter, search]
    exact second.symm

theorem fits_at (fits : List.Forall₂ Fits f.parameters args) (here : f.parameters[i]? = some p) :
    ∃ arg, args[i]? = some arg ∧ Fits p arg := by
  obtain ⟨below, -⟩ := List.getElem?_eq_some_iff.mp here
  obtain ⟨arg, there⟩ : ∃ arg, args[i]? = some arg :=
    ⟨_, List.getElem?_eq_getElem (fits.length_eq ▸ below)⟩
  have paired : (f.parameters.zip args)[i]? = some (p, arg) :=
    List.getElem?_zip_eq_some.mpr ⟨here, there⟩
  exact ⟨arg, there, List.forall₂_zip fits (List.mem_of_getElem? paired)⟩

theorem packed_eval (wf : f.WellFormed) (fits : Fits p arg) (here : f.parameters[i]? = some p)
    (there : args[i]? = some arg) : p.packed.eval (f.parameter args) = some arg.word := by
  have found := wf.parameter_eq here there
  have pointers := wf.pointers p (List.mem_of_getElem? here)
  cases arg with
  | flags flags =>
    have kind : p.kind = .openflags := fits
    simp [Parameter.packed, kind, Packed.eval, found, GuestArg.word]
  | pointer address =>
    have kind : p.kind.isPointer = true := fits
    have other : p.kind ≠ .openflags := by
      intro same
      simp [same, Kind.isPointer] at kind
    simp [Parameter.packed, other, pointers.mpr kind, Packed.eval, found, GuestArg.word]
  | integer n =>
    have plain : p.kind.isPointer = false ∧ p.kind ≠ .openflags := by
      rw [Fits] at fits
      split at fits <;> simp_all [Kind.isPointer]
    have type : p.type ≠ .pointer := by
      rw [Ne, pointers, plain.1]
      simp
    simp [Parameter.packed, plain.2, type, Packed.eval, found, GuestArg.word]

theorem Function.WellFormed.words_eq (wf : f.WellFormed) (fits : List.Forall₂ Fits f.parameters args) :
    f.words args =
      some (args.map GuestArg.word ++ List.replicate (6 - f.parameters.length) 0) := by
  have same : f.packed.map (Packed.eval (f.parameter args)) =
      (args.map GuestArg.word ++ List.replicate (6 - f.parameters.length) 0).map some := by
    rw [Function.packed, List.map_append, List.map_append, List.map_replicate, List.map_replicate]
    congr 1
    rw [List.map_map, List.map_map]
    apply List.ext_getElem?
    intro i
    rw [List.getElem?_map, List.getElem?_map]
    have lengths := fits.length_eq
    cases here : f.parameters[i]? with
    | none =>
      have short : args[i]? = none := by
        rw [List.getElem?_eq_none_iff] at here ⊢
        omega
      rw [short]
      rfl
    | some p =>
      obtain ⟨arg, there, fit⟩ := fits_at fits here
      rw [there, Option.map_some, Option.map_some]
      congr 1
      exact packed_eval wf fit here there
  rw [Function.words, same, mapM_id_map_some]

end Words

/-! ### The parameters mean the arguments -/

section Meaning

variable {f : Function} {g : Memory} {h : BridgeHost} {args : List GuestArg} {p : Parameter}
  {arg : GuestArg} {i : Nat}

def Function.wordsOf (f : Function) (args : List GuestArg) : List UInt64 :=
  args.map GuestArg.word ++ List.replicate (6 - f.parameters.length) 0

theorem length_wordsOf (wf : f.WellFormed) (fits : List.Forall₂ Fits f.parameters args) :
    (f.wordsOf args).length = 6 := by
  have room := wf.room
  have lengths := fits.length_eq
  rw [Function.wordsOf, List.length_append, List.length_map, List.length_replicate]
  omega

theorem getElem?_wordsOf (there : args[i]? = some arg) : (f.wordsOf args)[i]? = some arg.word := by
  obtain ⟨below, rfl⟩ := List.getElem?_eq_some_iff.mp there
  rw [Function.wordsOf, List.getElem?_append_left (by simpa using below), List.getElem?_map, there]
  rfl

theorem wrap_word_of_holds {t : CType} {n : Int} (holds : (hostType t).Holds n) :
    (hostType t).wrap (word n).toNat = n := by
  rw [IntType.wrap_word (hostType_narrow t)]
  exact holds

theorem nativeClock_outside {n : Int} (outside : n < 0 ∨ 11 < n) : nativeClock n = none := by
  unfold nativeClock
  split
  all_goals first | omega | rfl

theorem clockArg_word {n : Int} (holds : (hostType .clockid).Holds n ∨ (hostType .unsigned).Holds n) :
    clockArg ((hostType .unsigned).wrap (word n).toNat) = clockArg n := by
  rw [IntType.wrap_word (hostType_narrow .unsigned)]
  rcases holds with signed | unsigned
  · have same : n.bmod 4294967296 = n := signed
    have low := Int.le_bmod (x := n) (m := 4294967296) (by decide)
    have high := Int.bmod_lt (x := n) (m := 4294967296) (by decide)
    rw [same] at low high
    have wrapped : (hostType .unsigned).wrap n = n % 2 ^ 32 := rfl
    rw [wrapped]
    by_cases negative : n < 0
    · rw [clockArg, clockArg, nativeClock_outside (by omega), nativeClock_outside (.inl negative)]
    · rw [show n % 2 ^ 32 = n by omega]
  · rw [show (hostType .unsigned).wrap n = n from unsigned]

theorem guestScalar_eq (wf : f.WellFormed) (fits : List.Forall₂ Fits f.parameters args) {n : String}
    (scalar : n ∈ f.scalars) :
    f.guestScalar args n = scalarIn (f.wordScalar (f.wordsOf args)) n := by
  obtain ⟨⟨p, i⟩, member, isScalar, rfl⟩ := Function.exists_scalar scalar
  have here := f.mem_items.mp member
  obtain ⟨arg, there, fit⟩ := fits_at fits here
  have kind : p.kind = .value := by simpa [Posix.isScalar] using isScalar
  rw [Function.guestScalar, wf.parameter_eq here there, scalarIn,
    wf.wordScalar_eq member isScalar (getElem?_wordsOf there)]
  cases arg with
  | flags flags => simp [Fits, kind] at fit
  | pointer address => simp [Fits, kind, Kind.isPointer] at fit
  | integer n =>
    have holds : (hostType p.type).Holds n := by simpa [Fits, kind] using fit
    simp only [GuestArg.word, wrap_word_of_holds holds]

theorem sizeOf_eq (wf : f.WellFormed) (fits : List.Forall₂ Fits f.parameters args)
    (here : f.parameters[i]? = some p) {s : Size} (sized : p.kind.size = some s) :
    s.eval (scalarIn (f.wordScalar (f.wordsOf args))) =
      some ((s.eval (f.guestScalar args)).getD 0) := by
  have member := f.mem_items.mpr here
  have same : s.eval (f.guestScalar args) = s.eval (scalarIn (f.wordScalar (f.wordsOf args))) := by
    refine Size.eval_congr fun n names => guestScalar_eq wf fits ?_
    exact (wf.sized p (List.mem_of_getElem? here) s sized).2 names
  obtain ⟨bytes, known⟩ := wf.size_defined (length_wordsOf wf fits) member sized
  rw [same, known]
  rfl

theorem pathArg_eq (address : UInt64) (follow : Bool) :
    pathArg g h address follow = Stop.ofErrno (usedPath g h address follow) := by
  have sound := pathArg_defined g h address follow
  unfold pathArg at *
  unfold usedPath
  generalize pathStringMode g h address follow = outcome at sound ⊢
  cases outcome with
  | overflow => exact absurd rfl sound
  | outside => exact absurd rfl sound
  | _ => rfl

theorem follows_eq (wf : f.WellFormed) (fits : List.Forall₂ Fits f.parameters args) :
    (f.follow p).eval (f.wordsOf args) = .ok (f.follows args p) := by
  -- The flags are an integer of the guest.
  have flags {index : Nat} (kind : f.parameters[index]?.map (·.kind) = some .atflags) :
      (f.wordsOf args)[index]? = some (flagWord args[index]?) := by
    obtain ⟨q, here, isFlags⟩ := Option.map_eq_some_iff.mp kind
    obtain ⟨arg, there, fit⟩ := fits_at fits here
    rw [getElem?_wordsOf there, there]
    cases arg with
    | flags flags => simp [Fits, isFlags] at fit
    | pointer address => simp [Fits, isFlags, Kind.isPointer] at fit
    | integer n => rfl
  rw [Function.follows]
  cases here : f.follow p with
  | never => rfl
  | always => rfl
  | linked => simp [Follow.eval, flags (wf.linked (follow_linked here))]
  | unlessNofollow index =>
    have kind : f.parameters[index]?.map (·.kind) = some .atflags := by
      obtain ⟨below, found, -⟩ := List.findIdx?_eq_some_iff_getElem.mp (follow_index here)
      rw [List.getElem?_eq_getElem below]
      simpa using found
    simp [Follow.eval, flags kind]

/-- A parameter means the argument that the guest has for it. -/
theorem reads_eq_meaning (wf : f.WellFormed) (fits : List.Forall₂ Fits f.parameters args)
    (here : f.parameters[i]? = some p) (there : args[i]? = some arg) (fit : Fits p arg) :
    f.reads g h (f.wordsOf args) (p, i) = Stop.ofErrno (f.meaning g h args p arg) := by
  have value : f.reads g h (f.wordsOf args) (p, i) = (f.declaration p i).declared.value g h
      (f.wordsOf args) arg.word (f.wordScalar (f.wordsOf args)) := by
    simp [Function.reads, Declaration.value, Function.declaration, getElem?_wordsOf there]
  rw [value]
  -- Flags are unpacked as they were packed, and an integer that fits its type survives the word.
  cases arg with
  | flags flags =>
    have kind : p.kind = .openflags := fit
    have back : openFlags (GuestArg.flags flags).word.toNat = flags := by
      rw [GuestArg.word, UInt64.toNat_ofNat_of_lt' (packFlags_lt flags), openFlags_packFlags]
    simp [Function.declaration, kind, Declared.value, back, Function.meaning, Stop.ofErrno]
  | integer n =>
    rw [Fits] at fit
    cases kind : p.kind with
    | value =>
      have holds : (hostType p.type).Holds n := by simpa [kind] using fit
      simp [Function.declaration, kind, Declared.value, GuestArg.word, wrap_word_of_holds holds,
        Function.meaning, Stop.ofErrno]
    | fd =>
      have holds : (hostType .int).Holds n := by simpa [kind] using fit
      simp only [Function.declaration, kind, Declared.value, GuestArg.word,
        wrap_word_of_holds holds, Function.meaning]
    | dirfd =>
      have holds : (hostType .int).Holds n := by simpa [kind] using fit
      simp only [Function.declaration, kind, Declared.value, GuestArg.word,
        wrap_word_of_holds holds, Function.meaning]
    | clock =>
      have holds : (hostType .clockid).Holds n ∨ (hostType .unsigned).Holds n := by
        simpa [kind] using fit
      simp only [Function.declaration, kind, Declared.value, GuestArg.word, Function.meaning,
        clockArg_word holds]
    | atflags =>
      simp only [Function.declaration, kind, Declared.value, GuestArg.word, Function.meaning]
    | _ => simp [kind] at fit
  | pointer address =>
    have pointer : p.kind.isPointer = true := fit
    rw [show (GuestArg.pointer address).word = address from rfl]
    cases kind : p.kind with
    | string =>
      simp only [Function.declaration, kind, Declared.value, Function.meaning]
    | optstring =>
      simp only [Function.declaration, kind, Declared.value, Function.meaning]
      by_cases null : address = 0
      · rw [if_pos null, if_pos null]
        rfl
      · rw [if_neg null, if_neg null]
    | path =>
      simp only [Function.declaration, kind, Declared.value, Function.meaning,
        follows_eq wf fits, Except.bind, pathArg_eq]
    | optpath =>
      simp only [Function.declaration, kind, Declared.value, Function.meaning,
        follows_eq wf fits, Except.bind, pathArg_eq]
      by_cases null : address = 0
      · rw [if_pos null, if_pos null]
        rfl
      · rw [if_neg null, if_neg null]
    | optional s =>
      simp only [Function.declaration, kind, Declared.value, Function.meaning,
        sizeOf_eq wf fits here (show p.kind.size = some s by rw [kind]; rfl)]
    | bytes s =>
      simp only [Function.declaration, kind, Declared.value, Function.meaning,
        sizeOf_eq wf fits here (show p.kind.size = some s by rw [kind]; rfl)]
    | _ => simp [kind, Kind.isPointer] at pointer

theorem evaluateAll_ofErrno {ι : Type} (meaning : ι → Except Errno NativeArg) (items : List ι) :
    evaluateAll (fun i => Stop.ofErrno (meaning i)) items =
      Stop.ofErrno (evaluateAll meaning items) := by
  induction items with
  | nil => rfl
  | cons i rest ih =>
    cases here : meaning i with
    | error e =>
      rw [evaluateAll_cons_error here, evaluateAll_cons_error (e := .errno e) (by rw [here]; rfl)]
      rfl
    | ok v =>
      rw [evaluateAll_cons_ok here, evaluateAll_cons_ok (v := v) (by rw [here]; rfl), ih]
      cases evaluateAll meaning rest <;> rfl

theorem call_wordsOf (wf : f.WellFormed) (fits : List.Forall₂ Fits f.parameters args) :
    f.case.call g h (f.wordsOf args) =
      (Stop.ofErrno (evaluateAll (fun e => f.meaning g h args e.1 e.2) (f.parameters.zip args))).map
        (List.map some) := by
  rw [wf.call_eq (length_wordsOf wf fits), ← evaluateAll_ofErrno]
  congr 1
  apply evaluateAll_congr
  apply List.ext_getElem?
  intro i
  rw [List.getElem?_map, List.getElem?_map]
  cases here : f.parameters[i]? with
  | none =>
    have first : f.items[i]? = none := by simpa [Function.items] using here
    have second : (f.parameters.zip args)[i]? = none := by
      rw [List.getElem?_eq_none_iff] at here ⊢
      rw [List.length_zip]
      omega
    rw [first, second]
    rfl
  | some p =>
    obtain ⟨arg, there, fit⟩ := fits_at fits here
    have first : f.items[i]? = some (p, i) := by simp [Function.items, here]
    have second : (f.parameters.zip args)[i]? = some (p, arg) :=
      List.getElem?_zip_eq_some.mpr ⟨here, there⟩
    rw [first, second, Option.map_some, Option.map_some, reads_eq_meaning wf fits here there fit]

end Meaning

/-! ### The request in memory -/

theorem length_wordBytes (ws : List UInt64) : (wordBytes ws).length = 8 * ws.length := by
  induction ws with
  | nil => rfl
  | cons w rest ih =>
    rw [wordBytes, List.flatMap_cons, List.length_append, length_leBytes, List.length_cons]
    rw [wordBytes] at ih
    omega

theorem slice_wordBytes {ws : List UInt64} {i : Nat} {w : UInt64} (here : ws[i]? = some w) :
    slice (wordBytes ws) (8 * i) 8 = leBytes 8 w.toNat := by
  induction ws generalizing i with
  | nil => simp at here
  | cons first rest ih =>
    rw [wordBytes, List.flatMap_cons]
    cases i with
    | zero =>
      cases here
      exact slice_front _ _ 8 (length_leBytes 8 _)
    | succ i =>
      rw [slice_behind _ _ _ _ (by rw [length_leBytes]; omega), length_leBytes,
        show 8 * (i + 1) - 8 = 8 * i by omega]
      exact ih here

theorem bytes_place (g : Memory) (address : UInt64) {bytes : List UInt8} {offset count : Nat}
    (within : offset + count ≤ bytes.length) (small : bytes.length < 2 ^ 64) :
    (place g address bytes).bytes (address + UInt64.ofNat offset) count = slice bytes offset count := by
  apply List.ext_getElem?
  intro i
  by_cases below : i < count
  · have position : (address + UInt64.ofNat offset + UInt64.ofNat i - address).toNat = offset + i := by
      have bound := address.toNat_lt
      rw [UInt64.toNat_sub, UInt64.toNat_add, UInt64.toNat_add, UInt64.toNat_ofNat',
        UInt64.toNat_ofNat']
      omega
    have here : offset + i < bytes.length := by omega
    simp [Memory.bytes, place, position, slice, below, List.getElem?_eq_getElem here]
  · simp [Memory.bytes, slice, below]

theorem requestWord_place (g : Memory) (address : UInt64) {ws : List UInt64} {i : Nat} {w : UInt64}
    (small : ws.length ≤ 7) (here : ws[i]? = some w) :
    requestWord (place g address (wordBytes ws)) address i = w := by
  obtain ⟨below, -⟩ := List.getElem?_eq_some_iff.mp here
  have length := length_wordBytes ws
  have value : leValue (leBytes 8 w.toNat) = w.toNat :=
    leValue_leBytes 8 w.toNat (by simpa using w.toNat_lt)
  rw [requestWord, Memory.load, bytes_place g address (by omega) (by omega), slice_wordBytes here, value]
  exact UInt64.ofNat_toNat

/-! ### The operation -/

theorem numbered_ordinal {f : Function} (listed : f ∈ functions) :
    numbered (ordinal f.name) = some f ∧ ordinal f.name ≤ functions.length := by
  have below : functions.findIdx (·.name == f.name) < functions.length :=
    List.findIdx_lt_length_of_exists ⟨f, listed, by simp⟩
  have named : (functions[functions.findIdx (·.name == f.name)]).name = f.name := by
    simpa using List.findIdx_getElem (w := below)
  have same := List.inj_on_of_nodup_map functions_distinct (List.getElem_mem below) listed named
  refine ⟨?_, below⟩
  rw [ordinal, numbered, List.getElem?_eq_getElem below, same]

theorem servicePosix_eq (sys : Platform ω) {f : Function} (listed : f ∈ functions)
    (hosted : f.name ∉ hostConverted) {m : Machine ω} {address : UInt64} {a : List UInt64}
    (checked : m.memory.memory address 56 = .ok ())
    (operation : requestWord m.memory address 0 = UInt64.ofNat (ordinal f.name))
    (arguments : (List.range 6).map (fun i => requestWord m.memory address (i + 1)) = a) :
    servicePosix sys m address = f.serve sys m a := by
  obtain ⟨found, small⟩ := numbered_ordinal listed
  have few : functions.length = 102 := by decide +kernel
  have number : (UInt64.ofNat (ordinal f.name)).toNat = ordinal f.name := by
    rw [UInt64.toNat_ofNat']
    omega
  unfold servicePosix
  generalize m.memory.memory address 56 = result at checked
  subst checked
  dsimp only
  rw [operation, number, found]
  dsimp only
  rw [if_neg hosted, arguments]

theorem serve_wordsOf (sys : Platform ω) {f : Function} (wf : f.WellFormed) {args : List GuestArg}
    (fits : List.Forall₂ Fits f.parameters args) (before : Int) (m : Machine ω) :
    (f.serve sys m (f.wordsOf args)).map (f.returned sys before) =
      some (f.direct sys args before m) := by
  rw [Function.serve, call_wordsOf wf fits, Function.direct]
  cases evaluateAll (fun e => f.meaning m.memory m.host args e.1 e.2) (f.parameters.zip args) with
  | error e => rfl
  | ok values =>
    simp only [Stop.ofErrno, Except.map, mapM_id_map_some]
    rfl

/-! ### The whole call -/

/-- A wrapper does what a direct call of the native function with the translated arguments does, for
every function whose adapters are generated on both sides. -/
theorem wrapper_direct (sys : Platform ω) {f : Function} (listed : f ∈ functions)
    (written : f.name ∉ converted) (hosted : f.name ∉ hostConverted) {args : List GuestArg}
    (fits : List.Forall₂ Fits f.parameters args) (before : Int) (m : Machine ω) {address : UInt64}
    (room : m.memory.memory address 56 = .ok ()) :
    f.wrapper sys args before address m = some (f.direct sys args before { m with
      memory := place m.memory address (requestBytes (ordinal f.name) (f.wordsOf args)) }) := by
  have wf := functions_wellFormed listed hosted
  have six := length_wordsOf wf fits
  -- The loader finds the operation and the words as the wrapper stored them.
  have words (i : Nat) (w : UInt64)
      (here : (UInt64.ofNat (ordinal f.name) :: f.wordsOf args)[i]? = some w) :
      requestWord (place m.memory address (requestBytes (ordinal f.name) (f.wordsOf args))) address i =
        w :=
    requestWord_place m.memory address (by simp [six]) here
  have arguments : (List.range 6).map (fun i => requestWord (place m.memory address
      (requestBytes (ordinal f.name) (f.wordsOf args))) address (i + 1)) = f.wordsOf args := by
    apply List.ext_getElem (by simp [six])
    intro i below below'
    rw [List.getElem_map, List.getElem_range]
    exact words (i + 1) _ (List.getElem?_eq_getElem below')
  have served := servicePosix_eq sys listed hosted (m := { m with
    memory := place m.memory address (requestBytes (ordinal f.name) (f.wordsOf args)) })
    room (words 0 _ rfl) arguments
  rw [Function.wrapper, if_neg written, wf.words_eq fits]
  exact (congrArg (Option.map (f.returned sys before)) served).trans (serve_wordsOf sys wf fits before _)

def pread : Function :=
  ⟨"pread", .ssize, [⟨.int, "descriptor", .fd⟩, ⟨.pointer, "buffer", .bytes (.name "count")⟩,
    ⟨.size, "count", .value⟩, ⟨.off, "offset", .value⟩]⟩

/-- A native function that wants the descriptor 300, a buffer and a negative offset. -/
def expectant : Platform Unit where
  native _ arguments m :=
    (m, ⟨if arguments = [.descriptor 300, .buffer 8192, .integer 16, .integer (-1)] then 16 else -1,
      none⟩)
  errorOf _ := .EINVAL
  guestNumber _ := 22
  guestType := hostType

/-- The guest's descriptor 3 is the native descriptor 300. -/
theorem wrapper_direct_pread :
    (pread.wrapper expectant [.integer 3, .pointer 8192, .integer 16, .integer (-1)] 0 4096
      ⟨bytesMemory fun _ => 0, oneOpen, ()⟩).map (·.value) = some 16 := by
  have fits : List.Forall₂ Fits pread.parameters
      [.integer 3, .pointer 8192, .integer 16, .integer (-1)] :=
    .cons (show (hostType .int).Holds 3 by decide) (.cons rfl
      (.cons (show (hostType .size).Holds 16 by decide)
        (.cons (show (hostType .off).Holds (-1) by decide) .nil)))
  rw [wrapper_direct expectant (by decide +kernel) (by decide +kernel) (by decide +kernel) fits 0 _
    (by decide +kernel)]
  decide +kernel

end LashOs.Posix
