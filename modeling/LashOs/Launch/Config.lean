import LashOs.Base.CString
import LashOs.Errno
import LashOs.Launch.Options

/-!
# The configuration record

`configure_guest` writes the record `run/config` for the virtual machine, and `main` of
`sandbox_init.c` reads it back. The record is a `struct sb_config` and then the arguments,
each with its NUL.
-/
namespace LashOs.Launch

open Base

def sbConfigMagic : Nat := 0x3148534c

/-- `struct sb_config` -/
structure SbConfig where
  magic : Nat
  argc : Nat
  terminal : Nat
  network : Nat
  rows : Nat
  cols : Nat
  term : List UInt8
  deriving DecidableEq, Repr

/-- `sizeof(struct sb_config)` -/
def sbConfigSize : Nat := 84

def SbConfig.encode (c : SbConfig) : List UInt8 :=
  leBytes 4 c.magic ++ leBytes 4 c.argc ++ leBytes 4 c.terminal ++ leBytes 4 c.network ++
    leBytes 2 c.rows ++ leBytes 2 c.cols ++ c.term

def SbConfig.decode (data : List UInt8) : SbConfig :=
  { magic := leValue (slice data 0 4)
    argc := leValue (slice data 4 4)
    terminal := leValue (slice data 8 4)
    network := leValue (slice data 12 4)
    rows := leValue (slice data 16 2)
    cols := leValue (slice data 18 2)
    term := slice data 20 64 }

/-! ### The launcher's side -/

/-- `snprintf(config.term, 64, "%s", ...)` into a zeroed field. -/
def termField (term : CString) : List UInt8 :=
  term.1.take 63 ++ List.replicate (64 - min term.1.length 63) 0

/-- What `configure_guest` asks for: the window size, if there is one, and `TERM`. -/
structure Surroundings where
  terminal : Bool
  window : Option (UInt16 × UInt16)
  term : Option CString

/-- The words behind the record: the inner loader must not parse Bash's arguments again. -/
def innerWords (stats : Bool) (words : List CString) : List CString :=
  .ofText "--host" :: (if stats then [.ofText "--stats"] else []) ++ ending :: words

def guestConfig (o : Options) (argc : Nat) (s : Surroundings) : SbConfig :=
  { magic := sbConfigMagic
    argc := (argc + 2 + o.stats.toNat) % 2 ^ 32
    terminal := s.terminal.toNat
    network := o.network.toNat
    rows := (s.window.map fun w => w.1.toNat).getD 24
    cols := (s.window.map fun w => w.2.toNat).getD 80
    term := termField (s.term.getD (.ofText "xterm")) }

def recordSize (o : Options) (words : List CString) : Nat :=
  let sizeof (text : String) := (CString.ofText text).length + 1
  sbConfigSize + sizeof "linux-bash-os" + sizeof "--host" + sizeof "--" +
    (if o.stats then sizeof "--stats" else 0) + (words.map fun w => w.length + 1).sum

/-- `configure_guest`; `words` are `argv[1]` to `argv[argc - 1]`. -/
def configureGuest (o : Options) (words : List CString) (s : Surroundings) :
    Except Errno (List UInt8) :=
  let config := guestConfig o (words.length + 1) s
  if recordSize o words > 2 ^ 20 ∨ config.argc > 4096 then .error .E2BIG
  else
    .ok (config.encode ++
      CString.allTerminated (.ofText "linux-bash-os" :: innerWords o.stats words))

/-! ### The guest's side -/

/-- The messages with which the parser calls `die`. -/
inductive InitError where
  | size | invalid | argument | trailing
  deriving DecidableEq, Repr

def InitError.text : InitError → String
  | .size => "launch configuration"
  | .invalid => "invalid launch configuration"
  | .argument => "invalid argument"
  | .trailing => "configuration trailing bytes"

/-- The loop over the arguments, from `offset` on. -/
def readArguments : Nat → List UInt8 → Except InitError (List CString × List UInt8)
  | 0, data => .ok ([], data)
  | count + 1, data =>
    match CString.read data with
    | none => .error .argument
    | some (argument, data) =>
      match readArguments count data with
      | .ok (arguments, data) => .ok (argument :: arguments, data)
      | .error error => .error error

/-- The configuration and the arguments for `execv`. -/
def readConfig (data : List UInt8) : Except InitError (SbConfig × List CString) :=
  if data.length < sbConfigSize ∨ data.length > 2 ^ 20 then .error .size
  else
    let config := SbConfig.decode data
    if config.magic ≠ sbConfigMagic ∨ config.argc > 4096 ∨ config.argc = 0 ∨
        config.terminal > 1 ∨ config.network > 1 ∨ (0 : UInt8) ∉ config.term then
      .error .invalid
    else
      match readArguments config.argc (data.drop sbConfigSize) with
      | .ok (arguments, []) => .ok (config, arguments)
      | .ok (_, _ :: _) => .error .trailing
      | .error error => .error error

end LashOs.Launch
