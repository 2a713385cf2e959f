import LashOs.Spawn.Actions

/-!
# Spawning a program

`posix_spawn` of `spawn_guest.c`: the pipe and the fork, and then the parent and the child in
any order until the parent has returned. The child reports an error through the pipe; the
parent learns that `execve` succeeded from the end of the pipe, because the report descriptor
is closed by it.
-/
namespace LashOs.Spawn

open Base
open Descriptors (Descriptor maxFds)

/-! ### The call -/

/-- `struct __posix_spawnattr`, with its flags one by one and its signal sets by their
members. -/
structure SpawnAttr where
  setsid : Bool
  setpgroup : Bool
  resetids : Bool
  setsigdef : Bool
  setsigmask : Bool
  group : Int
  mask : Nat → Bool
  defaults : Nat → Bool

inductive AttributeStep where
  | setsid
  | setpgid (group : Int)
  | setgid
  | setuid
  | signal (number : Nat)
  | sigprocmask (mask : Nat → Bool)

/-- Signals that cannot be caught, and the two that the C library reserves. -/
def skipped : List Nat := [9, 19, 32, 33]

def SpawnAttr.steps (a : SpawnAttr) : List AttributeStep :=
  (if a.setsid then [.setsid] else []) ++
  (if a.setpgroup then [.setpgid a.group] else []) ++
  (if a.resetids then [.setgid, .setuid] else []) ++
  (if a.setsigdef then
    ((List.range' 1 64).filter fun i => i ∉ skipped ∧ a.defaults i).map .signal else []) ++
  (if a.setsigmask then [.sigprocmask a.mask] else [])

/-- The arguments of the call, and what the system calls find that it makes: the ends of the
pipe, the errors of `fcntl`, `fork` and of each attribute, the file that the `open` of the
i-th action creates, and whether `execve` fails. If `SIGCHLD` is ignored, a child is gone as
soon as it exits. -/
structure Request where
  limit : Nat
  attributes : Option SpawnAttr
  actions : List SpawnAction
  ends : Except Errno (Nat × Nat)
  dup : Option Errno
  fork : Except Errno Nat
  attributeFails : AttributeStep → Option Errno
  found : Nat → Except Errno Nat
  execve : Option Errno
  ignored : Bool

def Request.steps (r : Request) : List AttributeStep :=
  match r.attributes with
  | some a => a.steps
  | none => []

/-! ### The two processes -/

/-- Where the child is: before `close(pair[0])`, the attributes or the actions that are
left, `execve`, the label `failed`, `_exit`; and what became of it. -/
inductive ChildAt where
  | closing
  | attributes (rest : List AttributeStep)
  | actions (position : Nat) (rest : List SpawnAction)
  | execve
  | failed (error : Errno)
  | exiting
  | executed
  | exited
  | reaped

/-- What `read` has returned: `n > 0`, `n == 0` or `n < 0`. -/
inductive ReadResult where
  | reported (error : Errno)
  | eof
  | failed (error : Errno)
  deriving DecidableEq

/-- Where the parent is: before `close(report)`, in the read loop, before `close(pair[0])`,
in the wait loop; and what it returned. -/
inductive ParentAt where
  | closing
  | reading
  | closingRead (n : ReadResult)
  | waiting (error : Errno)
  | returned (error : Option Errno)
  deriving DecidableEq

/-- `pair[0]` and `report`, the two ends of the pipe, and the child's number. -/
structure Forked where
  readNumber : Nat
  report : Nat
  readEnd : Nat
  writeEnd : Nat
  pid : Nat

/-- Both processes, what is in the pipe, and `*result` once it is written. -/
structure System where
  parentAt : ParentAt
  parent : Fds Descriptor
  childAt : ChildAt
  child : Fds Descriptor
  buffer : List Errno
  result : Option Nat

/-- What the call has come to when it returns early or has forked. -/
inductive Prepared where
  | returned (error : Errno) (parent : Fds Descriptor)
  | forked (k : Forked) (s : System)

/-- `posix_spawn` up to the fork. -/
def prepare (r : Request) (parent : Fds Descriptor) : Prepared :=
  match r.ends with
  | .error e => .returned e parent
  | .ok (readEnd, writeEnd) =>
    match pipe r.limit parent readEnd writeEnd with
    | .error e => .returned e parent
    | .ok (first, second, piped) =>
      match dupfdCloexec r.limit piped second 128 r.dup with
      | .error e => .returned e ((piped.close second).close first)
      | .ok (report, duplicated) =>
        let fds := duplicated.close second
        match r.fork with
        | .error e => .returned e ((fds.close first).close report)
        | .ok pid =>
          .forked ⟨first, report, readEnd, writeEnd, pid⟩ ⟨.closing, fds, .closing, fds, [], none⟩

section Steps

variable (r : Request) (k : Forked) (s : System)

def childStep : System :=
  match s.childAt with
  | .closing => { s with childAt := .attributes r.steps, child := s.child.close k.readNumber }
  | .attributes [] => { s with childAt := .actions 0 r.actions }
  | .attributes (step :: rest) =>
    match r.attributeFails step with
    | none => { s with childAt := .attributes rest }
    | some e => { s with childAt := .failed e }
  | .actions _ [] => { s with childAt := .execve }
  | .actions position (a :: rest) =>
    match a.perform r.limit k.report (r.found position) s.child with
    | (fds, .ok ()) => { s with childAt := .actions (position + 1) rest, child := fds }
    | (fds, .error e) => { s with childAt := .failed e, child := fds }
  | .execve =>
    match r.execve with
    | none => { s with childAt := .executed, child := s.child.keep fun d => !d.cloexec }
    | some e => { s with childAt := .failed e }
  | .failed e =>
    -- `write(report, &error, sizeof(error))` reaches the pipe only if `report` still does.
    if (s.child.entry k.report).map Descriptor.file = some k.writeEnd then
      { s with childAt := .exiting, buffer := s.buffer ++ [e] }
    else { s with childAt := .exiting }
  | .exiting =>
    { s with childAt := if r.ignored then .reaped else .exited, child := Fds.empty }
  | .executed => s
  | .exited => s
  | .reaped => s

def writers : Bool :=
  s.parent.holds (fun d => d.file = k.writeEnd) || s.child.holds (fun d => d.file = k.writeEnd)

/-- `read(pair[0], &error, sizeof(error))`; none while it blocks. -/
def read : Option (ReadResult × List Errno) :=
  if (s.parent.entry k.readNumber).map Descriptor.file = some k.readEnd then
    match s.buffer with
    | e :: rest => some (.reported e, rest)
    | [] => if writers k s then none else some (.eof, [])
  else some (.failed .EBADF, s.buffer)

/-- The next call of the parent, if it does not block. -/
def parentStep : System :=
  match s.parentAt with
  | .closing => { s with parentAt := .reading, parent := s.parent.close k.report }
  | .reading =>
    match read k s with
    | none => s
    | some (n, buffer) => { s with parentAt := .closingRead n, buffer := buffer }
  | .closingRead (.reported e) =>
    { s with parentAt := .waiting e, parent := s.parent.close k.readNumber }
  | .closingRead (.failed e) =>
    { s with parentAt := .returned (some e), parent := s.parent.close k.readNumber }
  | .closingRead .eof =>
    { s with parentAt := .returned none, parent := s.parent.close k.readNumber,
             result := some k.pid }
  | .waiting e =>
    match s.childAt with
    | .exited => { s with parentAt := .returned (some e), childAt := .reaped }
    | .reaped => { s with parentAt := .returned (some e) }
    | _ => s
  | .returned _ => s

end Steps

/-- Whose turn it is. A call that a signal interrupts is made again; a `read` may also fail
in another way. -/
inductive Turn where
  | child
  | parent
  | interrupted
  | readFails (error : Errno)

def step (r : Request) (k : Forked) (s : System) : Turn → System
  | .child => childStep r k s
  | .parent => parentStep k s
  | .interrupted => s
  | .readFails e =>
    match s.parentAt with
    | .reading => if e = .EINTR then s else { s with parentAt := .closingRead (.failed e) }
    | _ => s

/-! ### What the call is for -/

/-- The actions in their order, from the given position on. -/
def Request.program (r : Request) (reserved : Nat) :
    Nat → List SpawnAction → View → Except Errno View
  | _, [], v => .ok v
  | position, a :: rest, v =>
    match a.apply r.limit reserved (r.found position) v with
    | .error e => .error e
    | .ok v => r.program reserved (position + 1) rest v

/-- What is open after `execve`. -/
def inherited (v : View) : View := fun n => (v n).filter fun d => !d.cloexec

/-- The actions that are left, and then `execve`. -/
def Request.executes (r : Request) (reserved position : Nat) (rest : List SpawnAction)
    (v : View) : Except Errno View :=
  match r.program reserved position rest v with
  | .error e => .error e
  | .ok v =>
    match r.execve with
    | some e => .error e
    | none => .ok (inherited v)

/-- The attributes that are left, and then the actions and `execve`. -/
def Request.configures (r : Request) (reserved : Nat) (rest : List AttributeStep) (v : View) :
    Except Errno View :=
  match rest.findSome? r.attributeFails with
  | some e => .error e
  | none => r.executes reserved 0 r.actions v

/-- The table of the executed program, or the first error. -/
def Request.outcome (r : Request) (reserved : Nat) (v : View) : Except Errno View :=
  r.configures reserved r.steps v

theorem Request.executes_cons_ok (r : Request) {reserved position : Nat} {a : SpawnAction}
    {rest : List SpawnAction} {v v' : View}
    (applied : a.apply r.limit reserved (r.found position) v = .ok v') :
    r.executes reserved position (a :: rest) v = r.executes reserved (position + 1) rest v' := by
  simp only [Request.executes, Request.program, applied]

theorem Request.executes_cons_error (r : Request) {reserved position : Nat} {a : SpawnAction}
    {rest : List SpawnAction} {v : View} {e : Errno}
    (applied : a.apply r.limit reserved (r.found position) v = .error e) :
    r.executes reserved position (a :: rest) v = .error e := by
  simp only [Request.executes, Request.program, applied]

end LashOs.Spawn
