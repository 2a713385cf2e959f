import LashOs.Base.CString

/-!
# Loader options

The option loop of the loader's `main`, up to the choice between the virtual machine and
direct execution. The words are `argv[1]`, `argv[2]` and so on.
-/
namespace LashOs.Launch

open Base

inductive Mode where
  | unset | sandbox | host
  deriving DecidableEq, Repr

/-- `struct sandbox_options` and the other variables that the loop sets. -/
structure Options where
  mode : Mode
  memoryMib : Nat
  cpus : Nat
  network : Bool
  stats : Bool
  mountCwd : Bool
  tuning : Bool
  deriving DecidableEq, Repr

def Options.start : Options :=
  { mode := .unset, memoryMib := 4096, cpus := 2, network := true, stats := false,
    mountCwd := false, tuning := false }

/-- Where `main` ends before anything is started. -/
inductive Stop where
  | exclusive | memory | cpus | network | tuning | version | help
  deriving DecidableEq, Repr

def Stop.status : Stop → Nat
  | .version => 0
  | .help => 0
  | _ => 2

def Stop.message : Stop → Option String
  | .exclusive => some "--sandbox and --host are mutually exclusive\n"
  | .memory => some "--sandbox-memory requires 1024..65536 MiB\n"
  | .cpus => some "--sandbox-cpus requires 1..64\n"
  | .network => some "--sandbox-network requires user or none\n"
  | .tuning => some "--sandbox-* options cannot be used with --host\n"
  | .version => none
  | .help => none

/-! ### Numbers -/

def sandboxNumberLoop (maximum : Nat) : List UInt8 → Nat → Option Nat
  | [], n => some n
  | p :: rest, n =>
    if p.toNat < 48 ∨ p.toNat > 57 ∨ n > maximum / 10 then none
    else if n * 10 + (p.toNat - 48) > maximum then none
    else sandboxNumberLoop maximum rest (n * 10 + (p.toNat - 48))

def sandboxNumber (text : List UInt8) (minimum maximum : Nat) : Option Nat :=
  if text = [] then none
  else (sandboxNumberLoop maximum text 0).filter fun n => decide (minimum ≤ n)

/-! ### The loop -/

/-- The words that the loop knows, with the text behind an equals sign. -/
inductive LoaderOption where
  | stats
  | mountCwd
  | mode (mode : Mode)
  | memory (text : List UInt8)
  | cpus (text : List UInt8)
  | network (text : List UInt8)
  | version
  | help
  deriving DecidableEq, Repr

def value (text : String) (w : CString) : Option (List UInt8) :=
  if (ascii text).isPrefixOf w.1 then some (w.1.drop (ascii text).length) else none

/-- The comparisons of the loop, in its order. -/
def loaderOption (w : CString) : Option LoaderOption :=
  if w = .ofText "--stats" then some .stats
  else if w = .ofText "--mount-cwd" then some .mountCwd
  else if w = .ofText "--sandbox" then some (.mode .sandbox)
  else if w = .ofText "--host" then some (.mode .host)
  else (value "--sandbox-memory=" w).map .memory
    <|> (value "--sandbox-cpus=" w).map .cpus
    <|> (value "--sandbox-network=" w).map .network
    <|> if w = .ofText "--version" then some .version
      else if w = .ofText "--help" then some .help
      else none

def Options.apply (o : Options) : LoaderOption → Except Stop Options
  | .stats => .ok { o with stats := true }
  | .mountCwd => .ok { o with mountCwd := true }
  | .mode mode =>
    if o.mode ≠ .unset ∧ o.mode ≠ mode then .error .exclusive else .ok { o with mode }
  | .memory text =>
    match sandboxNumber text 1024 65536 with
    | some n => .ok { o with memoryMib := n, tuning := true }
    | none => .error .memory
  | .cpus text =>
    match sandboxNumber text 1 64 with
    | some n => .ok { o with cpus := n, tuning := true }
    | none => .error .cpus
  | .network text =>
    if text ≠ ascii "user" ∧ text ≠ ascii "none" then .error .network
    else .ok { o with network := decide (text = ascii "user"), tuning := true }
  | .version => .error .version
  | .help => .error .help

def ending : CString := .ofText "--"

def optionLoop (o : Options) : List CString → Except Stop (Options × List CString)
  | [] => .ok (o, [])
  | w :: rest =>
    if w = ending then .ok (o, rest)
    else
      match loaderOption w with
      | some option =>
        match o.apply option with
        | .ok o => optionLoop o rest
        | .error stop => .error stop
      | none => .ok (o, w :: rest)

def bashArguments (words : List CString) : List CString :=
  .ofText "linux-bash-os" :: .ofText "--noprofile" :: .ofText "--norc" :: words

inductive Outcome where
  | stopped (stop : Stop)
  -- `sandbox_run` with the remaining words.
  | sandbox (options : Options) (words : List CString)
  -- Bash runs in this kernel.
  | host (options : Options) (arguments : List CString)
  deriving DecidableEq

/-- `main` up to the choice; `installed` is the answer of `sandbox_installed_os`. -/
def main (installed : Bool) (words : List CString) : Outcome :=
  match optionLoop .start words with
  | .error stop => .stopped stop
  | .ok (o, rest) =>
    if o.tuning ∧ o.mode = .host then .stopped .tuning
    else if o.mode = .sandbox ∨ o.tuning ∨ (o.mode = .unset ∧ ¬installed) then .sandbox o rest
    else .host o (bashArguments rest)

end LashOs.Launch
