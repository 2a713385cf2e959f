import Mathlib.Data.List.Basic
import LashOs.Base.Run

/-!
# The bridge between guest and loader

GNU Bash runs in the kernel and cannot make a system call there. Its C library leaves a request in
`control` and yields; the loader's loop serves the request, leaves the answer and enters the guest
again. The guest can also be stopped anywhere else, when its time slice is over, and the loop then
only enters it again. Signals are published to the guest before each entry.

The guest's own code is a parameter. `bridge` and the loop of `main` are here as the source has them.
-/
namespace LashOs.Bridge

open Base

/-! ### Errors -/

/-- The errors of `BRIDGE_ERRORS`, which both C libraries know under numbers of their own; `ioError`
and `nxioError` are `EIO` and `ENXIO`. -/
inductive BridgeErrno where
  | EPERM | ENOENT | ESRCH | EINTR | ioError | nxioError | E2BIG | ENOEXEC | EBADF | ECHILD | EAGAIN
  | ENOMEM | EACCES | EFAULT | EBUSY | EEXIST | EXDEV | ENODEV | ENOTDIR | EISDIR | EINVAL | ENFILE
  | EMFILE | ENOTTY | ETXTBSY | EFBIG | ENOSPC | ESPIPE | EROFS | EMLINK | EPIPE | EDOM | ERANGE
  | EDEADLK | ENAMETOOLONG | ENOLCK | ENOSYS | ENOTEMPTY | ELOOP | EOVERFLOW | ETIMEDOUT | ECANCELED
  | ENOTSOCK | EDESTADDRREQ | EMSGSIZE | EPROTOTYPE | ENOPROTOOPT | EPROTONOSUPPORT
  | ESOCKTNOSUPPORT | EOPNOTSUPP | EAFNOSUPPORT | EADDRINUSE | EADDRNOTAVAIL | ENETDOWN
  | ENETUNREACH | ENETRESET | ECONNABORTED | ECONNRESET | ENOBUFS | EISCONN | ENOTCONN
  | ECONNREFUSED | EHOSTUNREACH | EALREADY | EINPROGRESS | ENODATA | ENOMSG | EIDRM | EILSEQ
  deriving DecidableEq, Repr

/-- The order of the list, in which `enum bridge_error` counts from 1. -/
def bridgeErrors : List BridgeErrno :=
  [.EPERM, .ENOENT, .ESRCH, .EINTR, .ioError, .nxioError, .E2BIG, .ENOEXEC, .EBADF, .ECHILD, .EAGAIN,
    .ENOMEM, .EACCES, .EFAULT, .EBUSY, .EEXIST, .EXDEV, .ENODEV, .ENOTDIR, .EISDIR, .EINVAL, .ENFILE,
    .EMFILE, .ENOTTY, .ETXTBSY, .EFBIG, .ENOSPC, .ESPIPE, .EROFS, .EMLINK, .EPIPE, .EDOM, .ERANGE,
    .EDEADLK, .ENAMETOOLONG, .ENOLCK, .ENOSYS, .ENOTEMPTY, .ELOOP, .EOVERFLOW, .ETIMEDOUT,
    .ECANCELED, .ENOTSOCK, .EDESTADDRREQ, .EMSGSIZE, .EPROTOTYPE, .ENOPROTOOPT, .EPROTONOSUPPORT,
    .ESOCKTNOSUPPORT, .EOPNOTSUPP, .EAFNOSUPPORT, .EADDRINUSE, .EADDRNOTAVAIL, .ENETDOWN,
    .ENETUNREACH, .ENETRESET, .ECONNABORTED, .ECONNRESET, .ENOBUFS, .EISCONN, .ENOTCONN,
    .ECONNREFUSED, .EHOSTUNREACH, .EALREADY, .EINPROGRESS, .ENODATA, .ENOMSG, .EIDRM, .EILSEQ]

/-- `errno` of the loader. -/
inductive NativeError where
  | listed (e : BridgeErrno)
  | other (code : Nat)
  deriving DecidableEq, Repr

def bridgeError : Option NativeError → Nat
  | none => 0
  | some (.listed e) => bridgeErrors.idxOf e + 1
  | some (.other _) => bridgeErrors.idxOf .ioError + 1

def guestError (error : Nat) : Option BridgeErrno :=
  if error = 0 then none else some (bridgeErrors[error - 1]?.getD .ioError)

/-- The error that a guest sees for one of the loader: the same one, if both sides know it. -/
def translated : Option NativeError → Option BridgeErrno
  | none => none
  | some (.listed e) => some e
  | some (.other _) => some .ioError

inductive Operation where
  | none | exit
  | other (code : Nat)
  deriving DecidableEq, Repr

structure Request where
  operation : Operation
  a : UInt64
  b : UInt64
  c : UInt64
  deriving DecidableEq, Repr

/-- A call of `bridge`, with what the guest does once it returns. -/
structure Call (γ : Type) where
  request : Request
  resume : Int → Option BridgeErrno → γ

/-- The numbers that the guest reads without a request. -/
structure Identity where
  uid : Nat
  gid : Nat
  euid : Nat
  egid : Nat
  deriving DecidableEq, Repr

/-- What the guest's code does next. `γ` is the state of its stack and registers, `μ` its memory. -/
inductive GuestStep (γ μ : Type) where
  | compute (g : γ) (m : μ)
  -- It looks for signals and takes some of them.
  | poll (f : UInt64 → γ × UInt64)
  | identity (f : Identity → γ)
  | call (c : Call γ)
  -- `capsule_exit`
  | exit (code : Int)
  | finished

structure Served (ω μ : Type) where
  world : ω
  memory : μ
  response : Int
  error : Option NativeError

/-- The guest's code, and the loader's `service` with the rest of the host as its world. -/
structure System (γ μ ω : Type) where
  step : γ → μ → GuestStep γ μ
  service : ω → μ → Request → Served ω μ
  identity : ω → Identity
  -- `BR_FORK`, or a raw system call with flags for `clone`
  forks : ω → μ → Request → Bool
  changesCredentials : ω → μ → Request → Bool

/-- `struct kernel_control`, as far as the two sides exchange it. -/
structure Mailbox where
  request : Request
  response : Int
  error : Nat
  ioCalls : Nat
  pending : UInt64
  identity : Identity

/-- Where the guest is: in its own code, or inside `bridge` at one of its statements. -/
inductive Thread (γ : Type) where
  | running (g : γ)
  | storeA (c : Call γ)
  | storeB (c : Call γ)
  | storeC (c : Call γ)
  | storeOperation (c : Call γ)
  | count (c : Call γ)
  | yield (c : Call γ)
  | readError (c : Call γ)
  | readResponse (c : Call γ) (error : Option BridgeErrno)

inductive Status where
  | pending | yield | ok
  | exited (code : Int)
  deriving DecidableEq, Repr

variable {γ μ ω : Type}

/-- The loop reads the credentials again after these requests. Others can change them as well: a
request that enters or makes a user namespace, or a write to `uid_map`. -/
def System.refreshes (sys : System γ μ ω) (w : ω) (m : μ) (r : Request) : Bool :=
  sys.forks w m r || sys.changesCredentials w m r

/-- The signals that are pending behind a request: the child of a fork has none. -/
def System.stillPending (sys : System γ μ ω) (w : ω) (m : μ) (r : Request) (pending : UInt64) :
    UInt64 :=
  if sys.forks w m r && (sys.service w m r).response == 0 then 0 else pending

structure Inside (γ μ : Type) where
  thread : Thread γ
  memory : μ
  mailbox : Mailbox

/-- One statement of the guest: it goes on, or the entry ends. -/
def micro (step : γ → μ → GuestStep γ μ) (i : Inside γ μ) : Inside γ μ × Option Status :=
  match i.thread with
  | .running g =>
    match step g i.memory with
    | .compute g m => ({ i with thread := .running g, memory := m }, none)
    | .poll f =>
      ({ i with thread := .running (f i.mailbox.pending).1,
                mailbox := { i.mailbox with pending := (f i.mailbox.pending).2 } }, none)
    | .identity f => ({ i with thread := .running (f i.mailbox.identity) }, none)
    | .call c => ({ i with thread := .storeA c }, none)
    | .exit code => (i, some (.exited code))
    | .finished => (i, some .ok)
  | .storeA c =>
    ({ i with thread := .storeB c,
              mailbox := { i.mailbox with request := { i.mailbox.request with a := c.request.a } } },
      none)
  | .storeB c =>
    ({ i with thread := .storeC c,
              mailbox := { i.mailbox with request := { i.mailbox.request with b := c.request.b } } },
      none)
  | .storeC c =>
    ({ i with thread := .storeOperation c,
              mailbox := { i.mailbox with request := { i.mailbox.request with c := c.request.c } } },
      none)
  | .storeOperation c =>
    ({ i with thread := .count c,
              mailbox := { i.mailbox with
                request := { i.mailbox.request with operation := c.request.operation } } }, none)
  | .count c =>
    ({ i with thread := .yield c,
              mailbox := { i.mailbox with ioCalls := i.mailbox.ioCalls + 1 } }, none)
  | .yield c => ({ i with thread := .readError c }, some .yield)
  | .readError c => ({ i with thread := .readResponse c (guestError i.mailbox.error) }, none)
  | .readResponse c error => ({ i with thread := .running (c.resume i.mailbox.response error) }, none)

/-- One entry with a time slice of `fuel` statements. -/
def enter (step : γ → μ → GuestStep γ μ) : Nat → Inside γ μ → Inside γ μ × Status
  | 0, i => (i, .pending)
  | fuel + 1, i =>
    match micro step i with
    | (i, some status) => (i, status)
    | (i, none) => enter step fuel i

/-! ### The loop -/

structure Host (γ μ ω : Type) where
  inside : Inside γ μ
  world : ω
  calls : Nat
  -- The requests that were served, in order.
  trace : List Request
  ended : Option Nat

structure Round where
  -- The signals that are published.
  signals : UInt64
  -- `bpf_prog_test_run_opts` succeeds.
  runs : Bool
  fuel : Nat

def exitStatus (code : Int) : Nat := if code < 0 then 1 else (code % 256).toNat

/-- The branch of the loop for a request. -/
def serve (sys : System γ μ ω) (h : Host γ μ ω) : Host γ μ ω :=
  let r := h.inside.mailbox.request
  if r.operation = .exit then
    { h with trace := h.trace ++ [r], ended := some (r.a.toNat % 256) }
  else
    let served := sys.service h.world h.inside.memory r
    let identity :=
      if sys.refreshes h.world h.inside.memory r then sys.identity served.world
      else h.inside.mailbox.identity
    { h with
      inside := { h.inside with
        memory := served.memory
        mailbox := { h.inside.mailbox with
          request := { r with operation := .none }
          response := served.response
          error := bridgeError served.error
          pending := sys.stillPending h.world h.inside.memory r h.inside.mailbox.pending
          identity := identity } }
      world := served.world
      trace := h.trace ++ [r]
      calls := h.calls + 1 }

/-- One round of the loop of `main`; no limit is a limit of 0. -/
def Host.round (sys : System γ μ ω) (limit : Nat) (h : Host γ μ ω) (c : Round) : Host γ μ ω :=
  if h.ended.isSome then h
  else if limit ≠ 0 ∧ h.calls ≥ limit then { h with ended := some 124 }
  else
    let published := { h.inside with mailbox := { h.inside.mailbox with
      pending := h.inside.mailbox.pending ||| c.signals } }
    if !c.runs then { h with inside := published, ended := some 1 }
    else
      let (inside, status) := enter sys.step c.fuel published
      let h := { h with inside := inside }
      match status with
      | .exited code => { h with ended := some (exitStatus code) }
      | .ok => { h with ended := some 0 }
      | .yield => serve sys h
      | .pending => { h with calls := h.calls + 1 }

/-! ### Calls without a bridge -/

/-- The guest as if it could make its requests itself. It knows its credentials from the start, and
learns them anew from the requests after which they are read. -/
structure Direct (γ μ ω : Type) where
  guest : γ
  memory : μ
  world : ω
  identity : Identity
  pending : UInt64
  trace : List Request
  ended : Option Nat

inductive DirectChoice where
  | signals (bits : UInt64)
  | step

def Direct.next (sys : System γ μ ω) (d : Direct γ μ ω) : DirectChoice → Direct γ μ ω
  | .signals bits => { d with pending := d.pending ||| bits }
  | .step =>
    if d.ended.isSome then d
    else
      match sys.step d.guest d.memory with
      | .compute g m => { d with guest := g, memory := m }
      | .poll f => { d with guest := (f d.pending).1, pending := (f d.pending).2 }
      | .identity f => { d with guest := f d.identity }
      | .exit code => { d with ended := some (exitStatus code) }
      | .finished => { d with ended := some 0 }
      | .call c =>
        if c.request.operation = .exit then
          { d with trace := d.trace ++ [c.request], ended := some (c.request.a.toNat % 256) }
        else
          let served := sys.service d.world d.memory c.request
          { d with
            guest := c.resume served.response (translated served.error)
            memory := served.memory
            world := served.world
            identity :=
              if sys.refreshes d.world d.memory c.request then sys.identity served.world
              else d.identity
            pending := sys.stillPending d.world d.memory c.request d.pending
            trace := d.trace ++ [c.request] }

end LashOs.Bridge
