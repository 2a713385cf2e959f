import LashOs.Posix.Generator

/-!
# What a case calls the native function with

The declarations of a case stand in two passes and refer to each other by name. They compute what
each parameter means on its own, in the order of the table: the first parameter that is refused
decides the error, and otherwise the native function is called with the arguments in their places.

Whatever words a request holds, the native function then gets buffers and strings of the guest and
descriptors of the guest's table, and nothing else.
-/
namespace LashOs.Posix

open Base Descriptors Guest Paths

/-! ### The parameters of a function -/

theorem Function.items_fst (f : Function) : f.items.map Prod.fst = f.parameters := by
  simp [items]

theorem Function.items_name (f : Function) :
    f.items.map (fun item => item.1.name) = f.parameters.map (·.name) := by
  rw [← f.items_fst, List.map_map]
  rfl

theorem Function.mem_items {f : Function} {p : Parameter} {index : Nat} :
    (p, index) ∈ f.items ↔ f.parameters[index]? = some p :=
  List.mk_mem_zipIdx_iff_getElem?

theorem Function.mem_parameters {f : Function} {item : Parameter × Nat} (member : item ∈ f.items) :
    item.1 ∈ f.parameters :=
  List.mem_of_getElem? (f.mem_items.mp member)

theorem Function.WellFormed.word_of {f : Function} (wf : f.WellFormed) {a : List UInt64}
    (six : a.length = 6) {item : Parameter × Nat} (member : item ∈ f.items) :
    ∃ w, a[item.2]? = some w := by
  have below := (List.getElem?_eq_some_iff.mp (f.mem_items.mp member)).1
  have room := wf.room
  exact ⟨_, List.getElem?_eq_getElem (by omega)⟩

theorem Function.WellFormed.item_eq {f : Function} (wf : f.WellFormed) {i j : Parameter × Nat}
    (first : i ∈ f.items) (second : j ∈ f.items) (same : i.1.name = j.1.name) : i = j :=
  List.inj_on_of_nodup_map (f.items_name ▸ wf.distinct) first second same

theorem Function.exists_scalar {f : Function} {n : String} (scalar : n ∈ f.scalars) :
    ∃ item ∈ f.items, isScalar item = true ∧ item.1.name = n := by
  rw [scalars, List.mem_map] at scalar
  obtain ⟨p, chosen, rfl⟩ := scalar
  obtain ⟨member, kind⟩ := List.mem_filter.mp chosen
  obtain ⟨index, found⟩ := List.mem_iff_getElem?.mp member
  exact ⟨(p, index), f.mem_items.mpr found, by simpa [isScalar] using kind, rfl⟩

/-! ### The two passes -/

/-- The scalar with a name, from the words of a request. -/
def Function.wordScalar (f : Function) (a : List UInt64) (n : String) : Option NativeArg :=
  match f.items.find? fun item => isScalar item && item.1.name == n with
  | some (p, index) => a[index]?.map fun w => .integer ((hostType p.type).wrap w.toNat)
  | none => none

/-- What a parameter means, with the scalars as the words have them. -/
def Function.reads (f : Function) (g : Memory) (h : BridgeHost) (a : List UInt64)
    (item : Parameter × Nat) : Except Stop NativeArg :=
  (f.declaration item.1 item.2).value g h a (f.wordScalar a)

section Reads

variable {f : Function} {g : Memory} {h : BridgeHost} {a : List UInt64} {item : Parameter × Nat}
  {w : UInt64}

theorem value_scalar (scalar : isScalar item = true) (found : a[item.2]? = some w)
    (scope : String → Option NativeArg) :
    (f.declaration item.1 item.2).value g h a scope =
      .ok (.integer ((hostType item.1.type).wrap w.toNat)) := by
  have kind : item.1.kind = .value := by simpa [isScalar] using scalar
  simp [Declaration.value, Function.declaration, kind, found, Declared.value]

theorem Function.WellFormed.wordScalar_eq (wf : f.WellFormed) (member : item ∈ f.items)
    (scalar : isScalar item = true) (found : a[item.2]? = some w) :
    f.wordScalar a item.1.name = some (.integer ((hostType item.1.type).wrap w.toNat)) := by
  rw [Function.wordScalar]
  cases search : f.items.find? fun other => isScalar other && other.1.name == item.1.name with
  | none =>
    have missing := List.find?_eq_none.mp search item member
    simp [scalar] at missing
  | some other =>
    have here := List.find?_some search
    rw [Bool.and_eq_true, beq_iff_eq] at here
    have same : other = item := wf.item_eq (List.mem_of_find?_eq_some search) member here.2
    subst same
    simp [found]

theorem Size.eval_congr {s : Size} {m n : String → Option Int} (same : ∀ x ∈ s.names, m x = n x) :
    s.eval m = s.eval n := by
  induction s with
  | name x => simp [Size.eval, same x (by simp [Size.names])]
  | number k => rfl
  | sizeof l => rfl
  | times a b left right =>
    rw [Size.eval, Size.eval, left fun x member => same x (by simp [Size.names, member]),
      right fun x member => same x (by simp [Size.names, member])]

theorem Declared.value_congr {scope scope' : String → Option NativeArg} {p : Parameter} {index : Nat}
    (same : ∀ s, p.kind.size = some s → ∀ n ∈ s.names, scalarIn scope n = scalarIn scope' n) :
    (f.declaration p index).declared.value g h a w scope =
      (f.declaration p index).declared.value g h a w scope' := by
  have sized (s : Size) (kind : p.kind.size = some s) :
      s.eval (scalarIn scope) = s.eval (scalarIn scope') :=
    Size.eval_congr (same s kind)
  cases kind : p.kind with
  | optional s =>
    simp only [Function.declaration, kind, Declared.value, sized s (by simp [kind, Kind.size])]
  | bytes s =>
    simp only [Function.declaration, kind, Declared.value, sized s (by simp [kind, Kind.size])]
  | _ => simp only [Function.declaration, kind, Declared.value]

/-- The block of a case computes what the parameters mean, in their order. -/
theorem Function.WellFormed.call_eq (wf : f.WellFormed) (six : a.length = 6) :
    f.case.call g h a = (evaluateAll (f.reads g h a) f.items).map (List.map some) := by
  have scalars : ∀ item ∈ f.items, isScalar item = true →
      (∀ scope, (f.declaration item.1 item.2).value g h a scope = f.reads g h a item) ∧
      ∃ v, f.reads g h a item = .ok v := by
    intro item member scalar
    obtain ⟨w, found⟩ := wf.word_of six member
    refine ⟨fun scope => ?_, _, value_scalar scalar found _⟩
    rw [Function.reads, value_scalar scalar found, value_scalar scalar found]
  have others : ∀ scope : String → Option NativeArg,
      (∀ item ∈ f.items, isScalar item = true → ∀ v, f.reads g h a item = .ok v →
        scope item.1.name = some v) →
      ∀ item ∈ f.items, isScalar item = false →
        (f.declaration item.1 item.2).value g h a scope = f.reads g h a item := by
    intro scope agrees item member _
    obtain ⟨w, found⟩ := wf.word_of six member
    rw [Function.reads, Declaration.value, Declaration.value]
    have index : (f.declaration item.1 item.2).index = item.2 := rfl
    rw [index, found]
    refine Declared.value_congr fun s sized n names => ?_
    -- The names in a size were declared in the first pass.
    obtain ⟨other, there, scalar, rfl⟩ :=
      Function.exists_scalar ((wf.sized item.1 (f.mem_parameters member) s sized).2 names)
    obtain ⟨v, word⟩ := wf.word_of six there
    rw [scalarIn, scalarIn, wf.wordScalar_eq there scalar word,
      agrees other there scalar _ (value_scalar scalar word _)]
  have block := declareAll_two_passes (f.items_name ▸ wf.distinct) scalars others fun _ => none
  rw [Case.call, Function.case, ← List.map_append, declareAll_map, ← block, ← f.items_name]
  congr 1
  funext scope
  rw [List.map_map]
  rfl

end Reads

/-! ### Nothing but the guest's -/

def GuestDescriptor (h : BridgeHost) (d : Nat) : Prop := ∃ n : Fin maxFds, h.fds n = d

def GuestString (g : Memory) (text : List UInt8) : Prop := ∃ address, g.string address = .ok text

/-- A string in the guest's memory, or the path of one of the guest's descriptors in the buffer for
translated paths. -/
def GuestPath (g : Memory) (h : BridgeHost) (text : List UInt8) : Prop :=
  GuestString g text ∨
    ∃ d suffix, GuestDescriptor h d ∧ text = descriptorPath d suffix ∧ text.length < bridgePathSize

def GuestBuffer (g : Memory) (address : UInt64) (size : Option UInt64) : Prop :=
  address ≠ 0 ∧ ∃ bytes, size = some bytes ∧ g.Inside address bytes.toNat

/-- What the native function may get for a parameter, in a call with the integers `scalar`. -/
def Allowed (g : Memory) (h : BridgeHost) (scalar : String → Option Int) : Kind → NativeArg → Prop
  | .value, .integer _ => True
  | .fd, .descriptor d => GuestDescriptor h d
  | .dirfd, .descriptor d => GuestDescriptor h d
  | .dirfd, .workingDirectory => True
  | .string, .text text => GuestString g text
  | .optstring, .text text => GuestString g text
  | .optstring, .null => True
  | .path, .text text => GuestPath g h text
  | .optpath, .text text => GuestPath g h text
  | .optpath, .null => True
  | .clock, .clock _ => True
  | .atflags, .atFlags _ => True
  | .openflags, .openFlags _ => True
  | .optional s, .buffer address => GuestBuffer g address (s.eval scalar)
  | .optional _, .null => True
  | .bytes s, .buffer address => GuestBuffer g address (s.eval scalar)
  | .bytes s, .null => s.eval scalar = some 0
  | _, _ => False

section Allowed

variable {g : Memory} {h : BridgeHost} {address size : UInt64} {v : NativeArg}

theorem memory_ne_zero (checked : g.memory address size = .ok ()) : address ≠ 0 := by
  rintro rfl
  have none_ : g.available 0 = 0 := by
    rw [Memory.available, if_neg, if_neg]
    · rintro ⟨some_, below, -⟩
      exact some_ (UInt64.le_antisymm below UInt64.zero_le)
    · rintro ⟨page, inside⟩
      have fits := g.fits
      rw [UInt64.le_iff_toNat_le, UInt64.toNat_add] at page
      rw [UInt64.lt_iff_toNat_lt, UInt64.toNat_sub] at inside
      have bound := g.start.toNat_lt
      simp only [UInt64.toNat_zero, UInt64.reduceToNat] at page inside
      omega
  simp [Memory.memory, none_] at checked

theorem fdArg_ok {n : Int} (ok : fdArg h n = .ok v) : ∃ d, v = .descriptor d ∧ GuestDescriptor h d := by
  rw [fdArg] at ok
  split at ok
  next d found =>
    cases ok
    refine ⟨d, rfl, ?_⟩
    rw [BridgeHost.fd] at found
    split at found
    next inside =>
      split at found
      · cases found
      next open_ =>
        cases found
        exact ⟨_, (Int.toNat_of_nonneg (not_lt.mp open_)).symm⟩
    · cases found
  · cases ok

theorem stringArg_ok (ok : stringArg g address = .ok v) : ∃ text, v = .text text ∧ GuestString g text := by
  unfold stringArg at ok
  generalize read : g.string address = result at ok
  cases result with
  | error e => cases ok
  | ok text =>
    cases ok
    exact ⟨text, rfl, address, read⟩

theorem memory_buffer (checked : g.memory address size = .ok ()) :
    GuestBuffer g address (some size) :=
  ⟨memory_ne_zero checked, size, rfl, memory_inside checked⟩

theorem optionalArg_ok (ok : optionalArg g address size = .ok v) :
    v = .null ∨ (v = .buffer address ∧ GuestBuffer g address (some size)) := by
  unfold optionalArg at ok
  generalize checked : g.memory address size = result at ok
  split at ok
  · cases ok
    exact .inl rfl
  · cases result with
    | error e => cases ok
    | ok u =>
      cases ok
      exact .inr ⟨rfl, memory_buffer checked⟩

theorem bytesArg_ok (ok : bytesArg g address size = .ok v) :
    (v = .null ∧ size = 0) ∨ (v = .buffer address ∧ GuestBuffer g address (some size)) := by
  unfold bytesArg at ok
  generalize checked : g.memory address size = result at ok
  cases result with
  | error e =>
    by_cases none_ : size = 0
    · rw [none_] at ok
      cases ok
      exact .inl ⟨rfl, none_⟩
    · simp [none_] at ok
  | ok u =>
    cases ok
    exact .inr ⟨rfl, memory_buffer checked⟩

theorem resolved_path {n : Fin maxFds} {suffix path : List UInt8}
    (found : resolved h n suffix = .translated path) : GuestPath g h path := by
  rw [resolved] at found
  split at found
  · cases found
  next open_ =>
    split at found
    next short =>
      cases found
      exact .inr ⟨_, suffix, ⟨n, (Int.toNat_of_nonneg (not_lt.mp open_)).symm⟩, rfl, short⟩
    · cases found

theorem translate_path (g : Memory) (h : BridgeHost) (path : List UInt8) (follow : Bool) :
    (∀ used, translate h path follow = .unchanged used → used = path) ∧
    ∀ used, translate h path follow = .translated used → GuestPath g h used := by
  have through {n : Fin maxFds} {suffix : List UInt8} (used : List UInt8) :
      resolved h n suffix ≠ .unchanged used := by
    rw [resolved]
    split
    · exact nofun
    · split <;> exact nofun
  by_cases descriptor : ∃ n suffix, NamesDescriptor path n suffix
  · obtain ⟨n, suffix, names⟩ := descriptor
    rw [translate_namesDescriptor names]
    exact ⟨fun used same => absurd same (through used), fun used => resolved_path⟩
  by_cases none_ : NamesNone path
  · rw [translate_namesNone none_]
    exact ⟨nofun, nofun⟩
  by_cases stream : ∃ n suffix, NamesStream path n suffix
  · obtain ⟨n, suffix, names⟩ := stream
    rw [translate_namesStream names]
    split
    · exact ⟨fun used same => by cases same; rfl, nofun⟩
    · exact ⟨fun used same => absurd same (through used), fun used => resolved_path⟩
  rw [translate_unchanged (fun n suffix names => descriptor ⟨n, suffix, names⟩) none_
    fun n suffix names => stream ⟨n, suffix, names⟩]
  exact ⟨fun used same => by cases same; rfl, nofun⟩

theorem pathArg_defined (g : Memory) (h : BridgeHost) (address : UInt64) (follow : Bool) :
    pathArg g h address follow ≠ .error .undefined := by
  unfold pathArg pathStringMode
  generalize g.string address = result
  cases result with
  | error e => simp
  | ok path =>
    have sound := translate_sound h path follow
    cases outcome : translate h path follow with
    | overflow => exact absurd outcome sound.1
    | outside => exact absurd outcome sound.2
    | _ => simp [outcome]

theorem pathArg_ok {follow : Bool} (ok : pathArg g h address follow = .ok v) :
    ∃ text, v = .text text ∧ GuestPath g h text := by
  unfold pathArg pathStringMode at ok
  generalize read : g.string address = result at ok
  cases result with
  | error e => simp at ok
  | ok path =>
    obtain ⟨same, through⟩ := translate_path g h path follow
    cases outcome : translate h path follow with
    | unchanged text =>
      simp only [outcome] at ok
      cases ok
      rw [same text outcome]
      exact ⟨path, rfl, .inl ⟨address, read⟩⟩
    | translated text =>
      simp only [outcome] at ok
      cases ok
      exact ⟨text, rfl, through text outcome⟩
    | _ => simp [outcome] at ok

theorem ofErrno_ok {α : Type} {r : Except Errno α} {x : α} (ok : Stop.ofErrno r = .ok x) : r = .ok x := by
  cases r with
  | error e => cases ok
  | ok y =>
    cases ok
    rfl

theorem ofErrno_defined {α : Type} (r : Except Errno α) : Stop.ofErrno r ≠ .error .undefined := by
  cases r <;> simp [Stop.ofErrno]

end Allowed

section Reads

variable {f : Function} {g : Memory} {h : BridgeHost} {a : List UInt64} {item : Parameter × Nat}

theorem follow_index {p : Parameter} {index : Nat} (here : f.follow p = .unlessNofollow index) :
    f.atIndex = some index := by
  rw [Function.follow] at here
  split at here
  · split at here <;> cases here
  · split at here
    · cases here
    · split at here
      next found =>
        cases here
        exact found
      · cases here

theorem follow_linked {p : Parameter} (here : f.follow p = .linked) : f.name = "linkat" := by
  rw [Function.follow] at here
  split at here
  next name => exact name
  · split at here
    · cases here
    · split at here <;> cases here

theorem Function.WellFormed.follow_defined (wf : f.WellFormed) (six : a.length = 6) (p : Parameter) :
    ∃ follow, (f.follow p).eval a = .ok follow := by
  have word (index : Nat) (small : index < 6) : ∃ w, a[index]? = some w :=
    ⟨_, List.getElem?_eq_getElem (six ▸ small)⟩
  cases here : f.follow p with
  | never => exact ⟨false, rfl⟩
  | always => exact ⟨true, rfl⟩
  | linked =>
    obtain ⟨w, found⟩ := word 4 (by omega)
    simp [Follow.eval, found]
  | unlessNofollow index =>
    have first := follow_index here
    have below : index < f.parameters.length := by
      rw [Function.atIndex, List.findIdx?_eq_some_iff_findIdx_eq] at first
      exact first.1
    obtain ⟨w, found⟩ := word index (below.trans_le wf.room)
    simp [Follow.eval, found]

theorem Function.WellFormed.size_defined (wf : f.WellFormed) (six : a.length = 6)
    (member : item ∈ f.items) {s : Size} (sized : item.1.kind.size = some s) :
    ∃ bytes, s.eval (scalarIn (f.wordScalar a)) = some bytes := by
  obtain ⟨declared, names⟩ := wf.sized item.1 (f.mem_parameters member) s sized
  clear sized
  induction s with
  | name n =>
    obtain ⟨other, there, scalar, rfl⟩ := Function.exists_scalar (names List.mem_cons_self)
    obtain ⟨w, found⟩ := wf.word_of six there
    simp [Size.eval, scalarIn, wf.wordScalar_eq there scalar found]
  | number n => exact ⟨_, rfl⟩
  | sizeof l =>
    obtain ⟨n, known⟩ := Option.isSome_iff_exists.mp declared
    simp [Size.eval, known]
  | times x y left right =>
    rw [Size.declared, Bool.and_eq_true] at declared
    obtain ⟨m, first⟩ := left declared.1 fun n inside => names (List.mem_append_left _ inside)
    obtain ⟨n, second⟩ := right declared.2 fun n inside => names (List.mem_append_right _ inside)
    exact ⟨m * n, by simp [Size.eval, first, second]⟩

/-- No parameter makes the block meaningless. -/
theorem Function.WellFormed.reads_defined (wf : f.WellFormed) (six : a.length = 6)
    (member : item ∈ f.items) : f.reads g h a item ≠ .error .undefined := by
  obtain ⟨w, found⟩ := wf.word_of six member
  obtain ⟨follow, follows⟩ := wf.follow_defined six item.1
  have value : f.reads g h a item =
      (f.declaration item.1 item.2).declared.value g h a w (f.wordScalar a) := by
    simp [Function.reads, Declaration.value, Function.declaration, found]
  rw [value]
  cases kind : item.1.kind with
  | value => simp [Function.declaration, kind, Declared.value]
  | openflags => simp [Function.declaration, kind, Declared.value]
  | path =>
    simp only [Function.declaration, kind, Declared.value, follows, Except.bind]
    exact pathArg_defined g h w follow
  | optpath =>
    simp only [Function.declaration, kind, Declared.value, follows, Except.bind]
    split
    · simp
    · exact pathArg_defined g h w follow
  | optstring =>
    simp only [Function.declaration, kind, Declared.value]
    split
    · simp
    · exact ofErrno_defined _
  | optional s =>
    obtain ⟨bytes, known⟩ := wf.size_defined six member (by rw [kind]; rfl)
    simp only [Function.declaration, kind, Declared.value, known]
    exact ofErrno_defined _
  | bytes s =>
    obtain ⟨bytes, known⟩ := wf.size_defined six member (by rw [kind]; rfl)
    simp only [Function.declaration, kind, Declared.value, known]
    exact ofErrno_defined _
  | _ =>
    simp only [Function.declaration, kind, Declared.value]
    exact ofErrno_defined _

/-- What a parameter means is the guest's. -/
theorem Function.WellFormed.reads_allowed (wf : f.WellFormed) (six : a.length = 6)
    (member : item ∈ f.items) {v : NativeArg} (ok : f.reads g h a item = .ok v) :
    Allowed g h (scalarIn (f.wordScalar a)) item.1.kind v := by
  obtain ⟨w, found⟩ := wf.word_of six member
  obtain ⟨follow, follows⟩ := wf.follow_defined six item.1
  have value : f.reads g h a item =
      (f.declaration item.1 item.2).declared.value g h a w (f.wordScalar a) := by
    simp [Function.reads, Declaration.value, Function.declaration, found]
  rw [value] at ok
  -- One case for each kind, whose adapter has made the check.
  cases kind : item.1.kind with
  | value =>
    simp only [Function.declaration, kind, Declared.value] at ok
    cases ok
    trivial
  | fd =>
    simp only [Function.declaration, kind, Declared.value] at ok
    obtain ⟨d, rfl, guests⟩ := fdArg_ok (ofErrno_ok ok)
    exact guests
  | dirfd =>
    simp only [Function.declaration, kind, Declared.value] at ok
    replace ok := ofErrno_ok ok
    rw [dirfdArg] at ok
    split at ok
    · cases ok
      trivial
    · obtain ⟨d, rfl, guests⟩ := fdArg_ok ok
      exact guests
  | string =>
    simp only [Function.declaration, kind, Declared.value] at ok
    obtain ⟨text, rfl, guests⟩ := stringArg_ok (ofErrno_ok ok)
    exact guests
  | optstring =>
    simp only [Function.declaration, kind, Declared.value] at ok
    split at ok
    · cases ok
      trivial
    · obtain ⟨text, rfl, guests⟩ := stringArg_ok (ofErrno_ok ok)
      exact guests
  | path =>
    simp only [Function.declaration, kind, Declared.value, follows, Except.bind] at ok
    obtain ⟨text, rfl, guests⟩ := pathArg_ok ok
    exact guests
  | optpath =>
    simp only [Function.declaration, kind, Declared.value, follows, Except.bind] at ok
    split at ok
    · cases ok
      trivial
    · obtain ⟨text, rfl, guests⟩ := pathArg_ok ok
      exact guests
  | clock =>
    simp only [Function.declaration, kind, Declared.value] at ok
    replace ok := ofErrno_ok ok
    rw [clockArg] at ok
    split at ok <;> cases ok
    trivial
  | atflags =>
    simp only [Function.declaration, kind, Declared.value] at ok
    replace ok := ofErrno_ok ok
    rw [atFlagsArg] at ok
    split at ok <;> cases ok
    trivial
  | openflags =>
    simp only [Function.declaration, kind, Declared.value] at ok
    cases ok
    trivial
  | optional s =>
    obtain ⟨bytes, known⟩ := wf.size_defined six member (by rw [kind]; rfl)
    simp only [Function.declaration, kind, Declared.value, known] at ok
    rcases optionalArg_ok (ofErrno_ok ok) with rfl | ⟨rfl, guests⟩
    · trivial
    · show GuestBuffer g w (s.eval _)
      rw [known]
      exact guests
  | bytes s =>
    obtain ⟨bytes, known⟩ := wf.size_defined six member (by rw [kind]; rfl)
    simp only [Function.declaration, kind, Declared.value, known] at ok
    rcases bytesArg_ok (ofErrno_ok ok) with ⟨rfl, rfl⟩ | ⟨rfl, guests⟩
    · exact known
    · show GuestBuffer g w (s.eval _)
      rw [known]
      exact guests

/-- The integer with a name among the arguments of the native function. -/
def Function.argScalar (f : Function) (values : List NativeArg) (n : String) : Option Int :=
  match (f.items.zip values).find? fun e => e.1.1.name == n with
  | some (_, .integer v) => some v
  | _ => none

/-- The native function gets the integers that the sizes refer to. -/
theorem Function.WellFormed.argScalar_eq (wf : f.WellFormed) (six : a.length = 6)
    {values : List NativeArg}
    (evaluated : List.Forall₂ (fun item v => f.reads g h a item = .ok v) f.items values) {n : String}
    (scalar : n ∈ f.scalars) : f.argScalar values n = scalarIn (f.wordScalar a) n := by
  obtain ⟨item, member, isScalar, rfl⟩ := Function.exists_scalar scalar
  obtain ⟨w, found⟩ := wf.word_of six member
  have pairs := List.forall₂_iff_zip.mp evaluated
  have scalarValue := value_scalar (f := f) (g := g) (h := h) isScalar found (f.wordScalar a)
  rw [Function.argScalar, scalarIn, wf.wordScalar_eq member isScalar found]
  cases search : (f.items.zip values).find? fun e => e.1.1.name == item.1.name with
  | none =>
    -- Every parameter has its argument.
    obtain ⟨i, below, here⟩ := List.mem_iff_getElem.mp member
    have there : i < (f.items.zip values).length := by
      rw [List.length_zip, ← pairs.1]
      omega
    have missing := List.find?_eq_none.mp search _ (List.getElem_mem there)
    simp [here] at missing
  | some e =>
    obtain ⟨other, v⟩ := e
    have inside := List.mem_of_find?_eq_some search
    have same : other = item :=
      wf.item_eq (List.of_mem_zip inside).1 member (by simpa using List.find?_some search)
    subst same
    have ok : f.reads g h a other = .ok v := pairs.2 inside
    rw [Function.reads, scalarValue] at ok
    cases ok
    rfl

theorem Allowed.congr {m n : String → Option Int} {kind : Kind} {v : NativeArg}
    (same : ∀ s, kind.size = some s → s.eval m = s.eval n) (allowed : Allowed g h m kind v) :
    Allowed g h n kind v := by
  cases kind with
  | optional s =>
    cases v with
    | buffer address =>
      have guests : GuestBuffer g address (s.eval m) := allowed
      rw [same s rfl] at guests
      exact guests
    | _ => exact allowed
  | bytes s =>
    cases v with
    | buffer address =>
      have guests : GuestBuffer g address (s.eval m) := allowed
      rw [same s rfl] at guests
      exact guests
    | null =>
      have none_ : s.eval m = some 0 := allowed
      rw [same s rfl] at none_
      exact none_
    | _ => exact allowed
  | _ => cases v <;> exact allowed

end Reads

theorem evaluateAll_not_undefined {meaning : Parameter × Nat → Except Stop NativeArg}
    {items : List (Parameter × Nat)} (defined : ∀ item ∈ items, meaning item ≠ .error .undefined) :
    evaluateAll meaning items ≠ .error .undefined := by
  induction items with
  | nil => simp [evaluateAll]
  | cons item rest ih =>
    have later := ih fun other member => defined other (List.mem_cons_of_mem item member)
    cases here : meaning item with
    | error e =>
      rw [evaluateAll_cons_error here]
      intro same
      cases same
      exact defined item List.mem_cons_self here
    | ok v =>
      rw [evaluateAll_cons_ok here]
      cases values : evaluateAll meaning rest with
      | error e =>
        intro same
        cases same
        exact later values
      | ok vs => simp [Except.map]

/-- Whatever the words of a request are, the generated case has a meaning, and a native function that
it calls gets nothing but what is the guest's: descriptors of the guest's table, strings in the
guest's memory or paths through its descriptors, and buffers that are in the guest's memory for as
many bytes as the same call says. -/
theorem adapters_safe {f : Function} (listed : f ∈ functions) (hosted : f.name ∉ hostConverted)
    (g : Memory) (h : BridgeHost) {a : List UInt64} (six : a.length = 6) :
    f.case.call g h a ≠ .error .undefined ∧
    ∀ arguments, f.case.call g h a = .ok arguments →
      ∃ values, arguments = values.map some ∧
        List.Forall₂ (fun p v => Allowed g h (f.argScalar values) p.kind v) f.parameters values := by
  have wf := functions_wellFormed listed hosted
  have defined := evaluateAll_not_undefined fun item member =>
    wf.reads_defined (g := g) (h := h) six member
  rw [wf.call_eq six]
  cases evaluated : evaluateAll (f.reads g h a) f.items with
  | error e =>
    refine ⟨fun same => ?_, nofun⟩
    cases same
    exact defined evaluated
  | ok values =>
    refine ⟨nofun, fun arguments same => ?_⟩
    cases same
    refine ⟨values, rfl, ?_⟩
    have all := evaluateAll_ok evaluated
    rw [← f.items_fst, List.forall₂_map_left_iff]
    refine List.forall₂_iff_zip.mpr ⟨all.length_eq, fun {item v} paired => ?_⟩
    have member := (List.of_mem_zip paired).1
    refine (wf.reads_allowed six member (List.forall₂_zip all paired)).congr fun s sized => ?_
    refine Size.eval_congr fun n names => (wf.argScalar_eq six all ?_).symm
    exact (wf.sized item.1 (f.mem_parameters member) s sized).2 names

def getrandom : Function :=
  ⟨"getrandom", .ssize, [⟨.pointer, "buffer", .bytes (.name "size")⟩, ⟨.size, "size", .value⟩,
    ⟨.unsigned, "flags", .value⟩]⟩

/-- Sixteen bytes behind the first page. -/
theorem adapters_safe_getrandom :
    getrandom.case.call (bytesMemory fun _ => 0) oneOpen [4096, 16, 0, 0, 0, 0] =
      .ok [some (.buffer 4096), some (.integer 16), some (.integer 0)] ∧
    GuestBuffer (bytesMemory fun _ => 0) 4096 (some 16) := by
  have call : getrandom.case.call (bytesMemory fun _ => 0) oneOpen [4096, 16, 0, 0, 0, 0] =
      .ok [some (.buffer 4096), some (.integer 16), some (.integer 0)] := by
    decide +kernel
  refine ⟨call, ?_⟩
  obtain ⟨values, same, all⟩ := (adapters_safe (f := getrandom) (by decide +kernel)
    (by decide +kernel) (bytesMemory fun _ => 0) oneOpen rfl).2 _ call
  have given : values = [.buffer 4096, .integer 16, .integer 0] :=
    List.map_injective_iff.mpr (Option.some_injective _) same.symm
  subst given
  cases all with
  | cons first _ => exact first

end LashOs.Posix
