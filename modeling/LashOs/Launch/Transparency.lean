import LashOs.Launch.Config

/-!
# Bash gets the same arguments in the virtual machine

The launcher's options, the configuration record and the inner loader's options together
leave the words for Bash as they are.
-/
namespace LashOs.Launch

open Base

/-! ### What the option loop leaves -/

def isOption (w : CString) : Bool :=
  ["--stats", "--mount-cwd", "--sandbox", "--host", "--version", "--help"].any
      (fun text => decide (w = .ofText text)) ||
    ["--sandbox-memory=", "--sandbox-cpus=", "--sandbox-network="].any
      fun text => (ascii text).isPrefixOf w.1

/-- Everything after the leading options and the first `--` that ends them. -/
def afterOptions (words : List CString) : List CString :=
  match words.dropWhile isOption with
  | [] => []
  | w :: rest => if w = .ofText "--" then rest else w :: rest

theorem isOption_ending : isOption ending = false := by decide

private theorem isSome_compared {α : Type} (c : Prop) [Decidable c] (x : α) (r : Option α) :
    (if c then some x else r).isSome = (decide c || r.isSome) := by
  by_cases holds : c <;> simp [holds]

private theorem isSome_value {α : Type} (text : String) (w : CString) (f : List UInt8 → α) :
    ((value text w).map f).isSome = (ascii text).isPrefixOf w.1 := by
  unfold value
  cases starts : (ascii text).isPrefixOf w.1 <;> rfl

theorem isOption_eq (w : CString) : isOption w = (loaderOption w).isSome := by
  simp only [isOption, loaderOption, isSome_compared, Option.orElse_eq_orElse,
    Option.orElse_eq_or, Option.isSome_or, isSome_value, List.any_cons, List.any_nil,
    Option.isSome_none, Bool.or_false]
  -- the loop looks for `--version` and `--help` behind the words with a value
  ac_rfl

variable {words rest : List CString}

theorem optionLoop_cons {o o' : Options} {w : CString}
    (parsed : optionLoop o (w :: words) = .ok (o', rest)) :
    (w = ending ∧ o' = o ∧ rest = words) ∨
    (isOption w = false ∧ w ≠ ending ∧ o' = o ∧ rest = w :: words) ∨
    ∃ option o₁, loaderOption w = some option ∧ w ≠ ending ∧ o.apply option = .ok o₁ ∧
      optionLoop o₁ words = .ok (o', rest) := by
  simp only [optionLoop] at parsed
  split at parsed
  next ends =>
    simp only [Except.ok.injEq, Prod.mk.injEq] at parsed
    exact Or.inl ⟨ends, parsed.1.symm, parsed.2.symm⟩
  next more =>
    split at parsed
    next option known =>
      split at parsed
      next o₁ applied => exact Or.inr (Or.inr ⟨option, o₁, known, more, applied, parsed⟩)
      · cases parsed
    next unknown =>
      simp only [Except.ok.injEq, Prod.mk.injEq] at parsed
      exact Or.inr (Or.inl ⟨by simp [isOption_eq, unknown], more, parsed.1.symm, parsed.2.symm⟩)

theorem optionLoop_rest {o o' : Options} (parsed : optionLoop o words = .ok (o', rest)) :
    rest = afterOptions words := by
  induction words generalizing o with
  | nil =>
    simp only [optionLoop, Except.ok.injEq, Prod.mk.injEq] at parsed
    simp [afterOptions, ← parsed.2]
  | cons w words ih =>
    rcases optionLoop_cons parsed with
      ⟨ends, _, same⟩ | ⟨foreign, more, _, same⟩ | ⟨option, o₁, known, _, _, goesOn⟩
    · have stops : (w :: words).dropWhile isOption = w :: words := by
        simp [ends, isOption_ending]
      rw [afterOptions, stops, same]
      exact (if_pos ends).symm
    · have foreignEnd : w ≠ .ofText "--" := more
      simp [afterOptions, foreign, foreignEnd, same]
    · rw [ih goesOn]
      simp [afterOptions, isOption_eq, known]

/-! ### The same command line in direct mode -/

def LoaderOption.aboutMode : LoaderOption → Bool
  | .mode _ => true
  | .memory _ => true
  | .cpus _ => true
  | .network _ => true
  | _ => false

/-- The options that mean the same in both modes, and everything behind the options. -/
def commonLine (words : List CString) : List CString :=
  ((words.takeWhile isOption).filter fun w => !(loaderOption w).any LoaderOption.aboutMode) ++
    words.dropWhile isOption

/-- The command line with `--host` in place of the options about the machine. -/
def hostLine (words : List CString) : List CString := .ofText "--host" :: commonLine words

theorem apply_common {o o₁ : Options} {option : LoaderOption} (common : option.aboutMode = false)
    (applied : o.apply option = .ok o₁) (p : Options) :
    ∃ p₁, p.apply option = .ok p₁ ∧ p₁.mode = p.mode ∧ p₁.tuning = p.tuning := by
  cases option with
  | stats => exact ⟨_, rfl, rfl, rfl⟩
  | mountCwd => exact ⟨_, rfl, rfl, rfl⟩
  | version => cases applied
  | help => cases applied
  | mode | memory | cpus | network => cases common

theorem commonLine_parsed {o o' : Options} (parsed : optionLoop o words = .ok (o', rest))
    (p : Options) :
    ∃ p', optionLoop p (commonLine words) = .ok (p', rest) ∧ p'.mode = p.mode ∧
      p'.tuning = p.tuning := by
  induction words generalizing o p with
  | nil =>
    simp only [optionLoop, Except.ok.injEq, Prod.mk.injEq] at parsed
    exact ⟨p, by simp [commonLine, optionLoop, ← parsed.2], rfl, rfl⟩
  | cons w words ih =>
    rcases optionLoop_cons parsed with
      ⟨ends, _, same⟩ | ⟨foreign, more, _, same⟩ | ⟨option, o₁, known, more, applied, goesOn⟩
    · refine ⟨p, ?_, rfl, rfl⟩
      simp [commonLine, ends, isOption_ending, optionLoop, same]
    · have unknown : loaderOption w = none := by simpa [isOption_eq] using foreign
      refine ⟨p, ?_, rfl, rfl⟩
      simp [commonLine, foreign, optionLoop, more, unknown, same]
    · have isOption_w : isOption w = true := by simp [isOption_eq, known]
      by_cases common : option.aboutMode = false
      · obtain ⟨p₁, applied', mode₁, tuning₁⟩ := apply_common common applied p
        obtain ⟨p', parsed', mode', tuning'⟩ := ih goesOn p₁
        refine ⟨p', ?_, mode'.trans mode₁, tuning'.trans tuning₁⟩
        have shape : commonLine (w :: words) = w :: commonLine words := by
          simp [commonLine, isOption_w, known, common]
        rw [shape, optionLoop]
        simp only [more, if_false, known, applied', parsed']
      · obtain ⟨p', parsed', mode', tuning'⟩ := ih goesOn p
        refine ⟨p', ?_, mode', tuning'⟩
        have shape : commonLine (w :: words) = commonLine words := by
          simp [commonLine, isOption_w, known, common]
        rw [shape, parsed']

theorem main_hostLine {o : Options} (parsed : optionLoop .start words = .ok (o, rest))
    (installed : Bool) : ∃ o', main installed (hostLine words) = .host o' (bashArguments rest) := by
  obtain ⟨o', parsed', mode', tuning'⟩ :=
    commonLine_parsed parsed { Options.start with mode := .host }
  have first : optionLoop .start (hostLine words) = .ok (o', rest) := by
    rw [hostLine, optionLoop, ← parsed']
    rfl
  refine ⟨o', ?_⟩
  rw [main, first]
  simp [mode', tuning', Options.start]

/-! ### The record is read back -/

theorem length_termField (term : CString) : (termField term).length = 64 := by
  simp only [termField, List.length_append, List.length_take, List.length_replicate]
  omega

theorem zero_mem_termField (term : CString) : (0 : UInt8) ∈ termField term := by
  have room : 64 - min term.1.length 63 ≠ 0 := by omega
  simp [termField, room]

theorem SbConfig.decode_encode (c : SbConfig) (magic : c.magic < 2 ^ 32) (argc : c.argc < 2 ^ 32)
    (terminal : c.terminal < 2 ^ 32) (network : c.network < 2 ^ 32) (rows : c.rows < 2 ^ 16)
    (cols : c.cols < 2 ^ 16) (term : c.term.length = 64) (after : List UInt8) :
    SbConfig.decode (c.encode ++ after) = c := by
  have shape : c.encode ++ after = leBytes 4 c.magic ++ (leBytes 4 c.argc ++ (leBytes 4 c.terminal ++
      (leBytes 4 c.network ++ (leBytes 2 c.rows ++ (leBytes 2 c.cols ++ (c.term ++ after)))))) := by
    simp [SbConfig.encode, List.append_assoc]
  rw [shape]
  simp (disch := simp [*]) only [SbConfig.decode, slice_front, slice_behind, length_leBytes,
    Nat.reduceSub]
  rw [leValue_leBytes 4 _ magic, leValue_leBytes 4 _ argc, leValue_leBytes 4 _ terminal,
    leValue_leBytes 4 _ network, leValue_leBytes 2 _ rows, leValue_leBytes 2 _ cols]

theorem readArguments_allTerminated (arguments : List CString) :
    readArguments arguments.length (CString.allTerminated arguments) = .ok (arguments, []) := by
  induction arguments with
  | nil => rfl
  | cons argument arguments ih =>
    simp only [List.length_cons, readArguments, CString.allTerminated_cons,
      CString.read_terminated, ih]

theorem length_allTerminated (strings : List CString) :
    (CString.allTerminated strings).length = (strings.map fun w => w.length + 1).sum := by
  induction strings with
  | nil => rfl
  | cons w strings ih => simp [ih]

theorem guestConfig_decode (o : Options) (argc : Nat) (s : Surroundings) (after : List UInt8) :
    SbConfig.decode ((guestConfig o argc s).encode ++ after) = guestConfig o argc s := by
  apply SbConfig.decode_encode
  · simp [guestConfig, sbConfigMagic]
  · exact Nat.mod_lt _ (by decide)
  · cases terminal : s.terminal <;> simp [guestConfig, terminal]
  · cases network : o.network <;> simp [guestConfig, network]
  · cases window : s.window with
    | none => simp [guestConfig, window]
    | some w => simpa [guestConfig, window] using w.1.toNat_lt
  · cases window : s.window with
    | none => simp [guestConfig, window]
    | some w => simpa [guestConfig, window] using w.2.toNat_lt
  · exact length_termField _

theorem length_encode (o : Options) (argc : Nat) (s : Surroundings) :
    (guestConfig o argc s).encode.length = sbConfigSize := by
  simp [SbConfig.encode, guestConfig, length_termField, sbConfigSize]

theorem length_record (o : Options) (words : List CString) (s : Surroundings) :
    ((guestConfig o (words.length + 1) s).encode ++
      CString.allTerminated (.ofText "linux-bash-os" :: innerWords o.stats words)).length =
        recordSize o words := by
  rw [List.length_append, length_encode, length_allTerminated]
  cases stats : o.stats with
  | false =>
    simp only [innerWords, recordSize, ending, stats, List.map_cons, List.sum_cons, List.map_append,
      List.sum_append, List.map_nil, List.sum_nil, Bool.false_eq_true, if_false]
    omega
  | true =>
    simp only [innerWords, recordSize, ending, stats, List.map_cons, List.sum_cons, List.map_append,
      List.sum_append, List.map_nil, List.sum_nil, if_true]
    omega

theorem length_lt_recordSize (o : Options) (words : List CString) :
    words.length < recordSize o words := by
  have each : words.length ≤ (words.map fun w => w.length + 1).sum := by
    induction words with
    | nil => exact Nat.zero_le _
    | cons w words ih =>
      simp only [List.length_cons, List.map_cons, List.sum_cons]
      omega
  simp only [recordSize, sbConfigSize]
  omega

theorem length_innerWords (stats : Bool) (words : List CString) :
    (innerWords stats words).length = words.length + 2 + stats.toNat := by
  cases stats <;> simp [innerWords]

/-- The guest reads back the words that were written. -/
theorem readConfig_configureGuest (o : Options) (words : List CString) (s : Surroundings)
    (accepted : configureGuest o words s ≠ .error .E2BIG) :
    ∃ record, configureGuest o words s = .ok record ∧
      readConfig record = .ok (guestConfig o (words.length + 1) s,
        .ofText "linux-bash-os" :: innerWords o.stats words) := by
  unfold configureGuest at accepted ⊢
  simp only at accepted ⊢
  split
  next tooBig => exact absurd (if_pos tooBig) accepted
  next fits =>
    simp only [not_or, Nat.not_lt] at fits
    refine ⟨_, rfl, ?_⟩
    have size := length_record o words s
    have many := length_lt_recordSize o words
    have count : (guestConfig o (words.length + 1) s).argc =
        (CString.ofText "linux-bash-os" :: innerWords o.stats words).length := by
      have flag : o.stats.toNat ≤ 1 := Bool.toNat_le o.stats
      simp only [guestConfig, List.length_cons, length_innerWords]
      omega
    have large : sbConfigSize ≤ recordSize o words := by
      simp only [recordSize]
      omega
    unfold readConfig
    rw [size, if_neg (by omega)]
    simp only [guestConfig_decode]
    rw [if_neg, ← length_encode o (words.length + 1) s, List.drop_left, count,
      readArguments_allTerminated]
    simp only [not_or]
    refine ⟨by simp [guestConfig], by omega, ?_, ?_, ?_, ?_⟩
    · rw [count]
      simp
    · have flag : s.terminal.toNat ≤ 1 := Bool.toNat_le s.terminal
      simpa [guestConfig] using flag
    · have flag : o.network.toNat ≤ 1 := Bool.toNat_le o.network
      simpa [guestConfig] using flag
    · simpa [guestConfig] using zero_mem_termField _

theorem main_innerWords (installed stats : Bool) (words : List CString) :
    ∃ o, main installed (innerWords stats words) = .host o (bashArguments words) ∧
      o.stats = stats := by
  cases stats with
  | false => exact ⟨{ Options.start with mode := .host }, rfl, rfl⟩
  | true => exact ⟨{ Options.start with mode := .host, stats := true }, rfl, rfl⟩

/-- A command line that selects the virtual machine: if the record is not too big, the guest
accepts it, and the inner loader gives Bash the words that direct execution would give it, which
are those behind the options. -/
theorem sandbox_arguments_transparent (installed : Bool) (words rest : List CString) (o : Options)
    (selected : main installed words = .sandbox o rest) (s : Surroundings)
    (accepted : configureGuest o rest s ≠ .error .E2BIG) (inside direct : Bool) :
    ∃ record config inner o₁ o₂, configureGuest o rest s = .ok record ∧
      readConfig record = .ok (config, .ofText "linux-bash-os" :: inner) ∧
      main inside inner = .host o₁ ([.ofText "linux-bash-os", .ofText "--noprofile",
        .ofText "--norc"] ++ afterOptions words) ∧ o₁.stats = o.stats ∧
      main direct (hostLine words) = .host o₂ ([.ofText "linux-bash-os", .ofText "--noprofile",
        .ofText "--norc"] ++ afterOptions words) := by
  have parsed : optionLoop .start words = .ok (o, rest) := by
    unfold main at selected
    split at selected
    · cases selected
    next o' rest' parsed =>
      split at selected
      · cases selected
      · split at selected
        · cases selected
          exact parsed
        · cases selected
  obtain rfl := optionLoop_rest parsed
  obtain ⟨record, written, read⟩ := readConfig_configureGuest o _ s accepted
  obtain ⟨o₁, runs, stats⟩ := main_innerWords inside o.stats (afterOptions words)
  obtain ⟨o₂, runsDirectly⟩ := main_hostLine parsed direct
  exact ⟨record, _, _, o₁, o₂, written, read, runs, stats, runsDirectly⟩

/-- An empty word, another `--` and a word that looks like an option. -/
def oddWords : List CString := [.ofText "", ending, .ofText "--version"]

def oddLine : List CString := .ofText "--sandbox" :: .ofText "--stats" :: ending :: oddWords

theorem oddLine_transparent :
    ∃ record config inner o₁ o₂,
      configureGuest { Options.start with mode := .sandbox, stats := true } oddWords
        ⟨false, none, none⟩ = .ok record ∧
      readConfig record = .ok (config, .ofText "linux-bash-os" :: inner) ∧
      main true inner = .host o₁ [.ofText "linux-bash-os", .ofText "--noprofile",
        .ofText "--norc", .ofText "", .ofText "--", .ofText "--version"] ∧ o₁.stats = true ∧
      main true (hostLine oddLine) = .host o₂ [.ofText "linux-bash-os", .ofText "--noprofile",
        .ofText "--norc", .ofText "", .ofText "--", .ofText "--version"] :=
  sandbox_arguments_transparent false oddLine oddWords _ (by decide) ⟨false, none, none⟩
    (by decide) true true

end LashOs.Launch
