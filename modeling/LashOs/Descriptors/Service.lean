import LashOs.Descriptors.Table

/-!
# Descriptor requests

The requests of `service` that create, replace or remove descriptors. What the kernel and
the guest's memory decide is an argument: whether a pointer or a path is usable, and how a
native call ends. Numbers are never a choice, the lowest free one is used.
-/
namespace LashOs.Descriptors

open Base

/-- The loader after a request and what the request returns; none if it used an index
outside one of the loader's arrays. -/
abbrev Outcome : Type := Option (BridgeHost × Except Errno Int)

def reported : Option Errno → Except Errno Int
  | none => .ok 0
  | some e => .error e

/-- `save_fd(h, call, 0)` behind the checks of its arguments. -/
def createDescriptor (h : BridgeHost) (checked : Except Errno Unit)
    (native : Except Errno Descriptor) : Outcome :=
  match checked with
  | .error e => some (h, .error e)
  | .ok () =>
    let (h, real) := h.openNative 0 native
    let (h, logical) := adoptDescriptor h real 0
    some (h, logical.map Int.ofNat)

/-- `BR_OPEN`; `path` is the outcome of `path_string_mode`. -/
def brOpen (h : BridgeHost) (path : Except Errno Unit) (native : Except Errno Descriptor) : Outcome :=
  createDescriptor h path native

def pxSocket (h : BridgeHost) (native : Except Errno Descriptor) : Outcome :=
  createDescriptor h (.ok ()) native

def pxInotifyInit1 (h : BridgeHost) (native : Except Errno Descriptor) : Outcome :=
  createDescriptor h (.ok ()) native

def pxPosixOpenpt (h : BridgeHost) (native : Except Errno Descriptor) : Outcome :=
  createDescriptor h (.ok ()) native

def pxEpollCreate1 (h : BridgeHost) (native : Except Errno Descriptor) : Outcome :=
  createDescriptor h (.ok ()) native

/-- `SYS_pidfd_open` among the raw calls. -/
def sysPidfdOpen (h : BridgeHost) (native : Except Errno Descriptor) : Outcome :=
  createDescriptor h (.ok ()) native

/-- `name` is the outcome of `string`. -/
def pxMemfdCreate (h : BridgeHost) (name : Except Errno Unit) (native : Except Errno Descriptor) :
    Outcome :=
  createDescriptor h name native

def pxShmOpen (h : BridgeHost) (name : Except Errno Unit) (native : Except Errno Descriptor) :
    Outcome :=
  createDescriptor h name native

/-- `arguments` covers the name and the attributes. -/
def pxMqOpen (h : BridgeHost) (arguments : Except Errno Unit)
    (native : Except Errno Descriptor) : Outcome :=
  createDescriptor h arguments native

/-- `BR_CLOSE`. The slot is chosen by the whole argument, the descriptor by its low half. -/
def brClose (h : BridgeHost) (a : UInt64) (error : Option Errno) : Outcome :=
  match h.fd (toInt a) with
  | .error e => some (h, .error e)
  | .ok actual =>
    ((h.closeNative actual).setSlot a.toNat (-1)).map fun h => (h, reported error)

/-- What a duplicate of `actual` refers to, or the error of the native call. -/
def BridgeHost.duplicate (h : BridgeHost) (actual : Nat) (cloexec : Bool) (error : Option Errno) :
    Except Errno Descriptor :=
  match error, h.native.entry actual with
  | some e, _ => .error e
  | none, none => .error .EBADF
  | none, some d => .ok { d with cloexec }

/-- `BF_DUPFD` and `BF_DUPFD_CLOEXEC` of `BR_FCNTL`. -/
def bfDupfd (h : BridgeHost) (a n : UInt64) (cloexec : Bool) (error : Option Errno) : Outcome :=
  match h.fd (toInt a) with
  | .error e => some (h, .error e)
  | .ok actual =>
    if maxFds ≤ n.toNat then some (h, .error .EINVAL)
    else
      let (h, real) := h.openNative (toInt n).toNat (h.duplicate actual cloexec error)
      let (h, logical) := adoptDescriptor h real (toInt n).toNat
      some (h, logical.map Int.ofNat)

/-- `dup2(actual, target)`: the target is closed and reused in one step, unless it is the
descriptor itself. -/
def BridgeHost.replaceNative (h : BridgeHost) (actual target : Nat) (d : Descriptor) : BridgeHost :=
  if actual = target then h
  else { h with native := h.native.put target d, locks := h.locksWithout target }

/-- `BR_DUP2` -/
def brDup2 (h : BridgeHost) (a b : UInt64) (error : Option Errno) : Outcome :=
  match h.fd (toInt a) with
  | .error e => some (h, .error e)
  | .ok actual =>
    if maxFds ≤ b.toNat then some (h, .error .EBADF)
    else if a = b then some (h, .ok b.toNat)
    else
      match h.duplicate actual false error with
      | .error e => some (h, .error e)
      | .ok d =>
        let rc := toInt b
        ((h.replaceNative actual rc.toNat d).setSlot b.toNat rc).map fun h => (h, .ok b.toNat)

/-- A native call that creates two descriptors, and the two adoptions. When the second
cannot be adopted the first is taken back. -/
def createPair (h : BridgeHost) (mapped : Bool) (native : Except Errno (Descriptor × Descriptor)) :
    Outcome :=
  if mapped = false then some (h, .error .EFAULT)
  else
    match native with
    | .error e => some (h, .error e)
    | .ok pair =>
      let (first, opened) := h.native.allocate 0 pair.1
      let (second, opened) := opened.allocate 0 pair.2
      match adoptDescriptor { h with native := opened } (.ok first) 0 with
      | (h, .error e) => some (h.closeNative second, .error e)
      | (h, .ok first) =>
        match adoptDescriptor h (.ok second) 0 with
        | (h, .error e) => (takeBack h first).map fun h => (h, .error e)
        | (h, .ok _) => some (h, .ok 0)

def brPipe (h : BridgeHost) (mapped : Bool) (native : Except Errno (Descriptor × Descriptor)) :
    Outcome :=
  createPair h mapped native

def pxSocketpair (h : BridgeHost) (mapped : Bool)
    (native : Except Errno (Descriptor × Descriptor)) : Outcome :=
  createPair h mapped native

def BridgeHost.freeDir (h : BridgeHost) : Option (Fin maxDirs) :=
  (List.finRange maxDirs).find? fun i => h.dirs i = none

/-- `BR_OPENDIR` -/
def brOpendir (h : BridgeHost) (path : Except Errno Unit) (native : Except Errno Descriptor) :
    Outcome :=
  match path with
  | .error e => some (h, .error e)
  | .ok () =>
    match h.freeDir with
    | none => some (h, .error .EMFILE)
    | some i =>
      match h.openNative 0 native with
      | (h, .error e) => some (h, .error e)
      | (h, .ok number) =>
        if maxFds ≤ number then some (h.closeNative number, .error .EMFILE)
        else
          ({ h with
            dirs := Function.update h.dirs i (some number)
            dirFds := Function.update h.dirFds i (number : Int) }.setSlot number number).map
            fun h => (h, .ok i.val)

/-- `PX_FDOPENDIR`. Nothing marks the descriptor as belonging to the stream. -/
def pxFdopendir (h : BridgeHost) (a : UInt64) (error : Option Errno) : Outcome :=
  match h.fd (toInt a) with
  | .error e => some (h, .error e)
  | .ok actual =>
    match h.freeDir, error with
    | none, _ => some (h, .error .EMFILE)
    | some _, some e => some (h, .error e)
    | some i, none =>
      some ({ h with
        dirs := Function.update h.dirs i (some actual)
        dirFds := Function.update h.dirFds i (toInt a) }, .ok i.val)

/-- `BR_CLOSEDIR`. The table is cleared by the loader's copy of the number, the native
descriptor is the one inside the stream, whatever it refers to by now. -/
def brClosedir (h : BridgeHost) (a : UInt64) (error : Option Errno) : Outcome :=
  if inside : a.toNat < maxDirs then
    let i : Fin maxDirs := ⟨a.toNat, inside⟩
    match h.dirs i with
    | none => some (h, .error .EBADF)
    | some stream =>
      (h.setSlot (h.dirFds i) (-1)).map fun h =>
        ({ h.closeNative stream with dirs := Function.update h.dirs i none }, reported error)
  else some (h, .error .EBADF)

/-- `PX_ACCEPT`; `checked` covers the address and its length. -/
def pxAccept (h : BridgeHost) (a : UInt64) (checked : Except Errno Unit)
    (native : Except Errno Descriptor) : Outcome :=
  match h.fd (toInt a) with
  | .error e => some (h, .error e)
  | .ok _ => createDescriptor h checked native

/-- `PX_OPENAT`. The directory -2 stands for the working directory; an unusable path is
found after the descriptor, so its error is the one reported. -/
def pxOpenat (h : BridgeHost) (a : UInt64) (path : Except Errno Unit)
    (native : Except Errno Descriptor) : Outcome :=
  match path, (if toInt a = -2 then .ok 0 else h.fd (toInt a)) with
  | .error e, _ => some (h, .error e)
  | .ok (), .error e => some (h, .error e)
  | .ok (), .ok _ => createDescriptor h (.ok ()) native

/-- `PX_SIGNALFD`: a new descriptor for a negative argument, else a change in place. -/
def pxSignalfd (h : BridgeHost) (a : UInt64) (mapped : Bool) (native : Except Errno Descriptor) :
    Outcome :=
  if mapped = false then some (h, .error .EFAULT)
  else if toInt a < 0 then createDescriptor h (.ok ()) native
  else
    match h.fd (toInt a), native with
    | .error e, _ => some (h, .error e)
    | .ok _, .error e => some (h, .error e)
    | .ok _, .ok _ => some (h, .ok (toInt a))

/-- A control message: `SCM_RIGHTS` with what its descriptors refer to, or another one. -/
inductive Cmsg where
  | rights (files : List Descriptor)
  | other

def Cmsg.files : Cmsg → List Descriptor
  | .rights files => files
  | .other => []

/-- The loop over the received descriptors, with `installed[]` (its length is `count`) and
`failed`. After a failure the remaining ones are closed. -/
def receiveRights : List Nat → BridgeHost → List Nat → Bool → Option (BridgeHost × List Nat × Bool)
  | [], h, installed, failed => some (h, installed, failed)
  | real :: rest, h, installed, true => receiveRights rest (h.closeNative real) installed true
  | real :: rest, h, installed, false =>
    match adoptDescriptor h (.ok real) 0 with
    | (h, .error _) => receiveRights rest h installed true
    | (h, .ok logical) =>
      if installed.length < maxFds then receiveRights rest h (installed ++ [logical]) false
      else none

/-- The receiving part of `network_message`, from `recvmsg` on. -/
def receiveMessage (h : BridgeHost) (native : Except Errno (Nat × List Cmsg)) : Outcome :=
  match native with
  | .error e => some (h, .error e)
  | .ok (bytes, messages) =>
    let (numbers, opened) := h.native.allocateAll (messages.flatMap Cmsg.files)
    match receiveRights numbers { h with native := opened } [] false with
    | none => none
    | some (h, _, false) => some (h, .ok bytes)
    | some (h, installed, true) => (installed.foldlM takeBack h).map fun h => (h, .error .EMFILE)

/-- `PX_RECVMSG`; `wire` is the outcome of the access to the message header and `checked`
covers what it points to. -/
def pxRecvmsg (h : BridgeHost) (a : UInt64) (wire checked : Except Errno Unit)
    (native : Except Errno (Nat × List Cmsg)) : Outcome :=
  match wire, h.fd (toInt a), checked with
  | .error e, _, _ => some (h, .error e)
  | .ok (), .error e, _ => some (h, .error e)
  | .ok (), .ok _, .error e => some (h, .error e)
  | .ok (), .ok _, .ok () => receiveMessage h native

/-- The requests, with everything that is decided outside the loader. -/
inductive Request where
  | open_ (path : Except Errno Unit) (native : Except Errno Descriptor)
  | close (a : UInt64) (error : Option Errno)
  | dupfd (a n : UInt64) (cloexec : Bool) (error : Option Errno)
  | dup2 (a b : UInt64) (error : Option Errno)
  | pipe (mapped : Bool) (native : Except Errno (Descriptor × Descriptor))
  | opendir (path : Except Errno Unit) (native : Except Errno Descriptor)
  | fdopendir (a : UInt64) (error : Option Errno)
  | closedir (a : UInt64) (error : Option Errno)
  | socket (native : Except Errno Descriptor)
  | inotifyInit1 (native : Except Errno Descriptor)
  | posixOpenpt (native : Except Errno Descriptor)
  | epollCreate1 (native : Except Errno Descriptor)
  | pidfdOpen (native : Except Errno Descriptor)
  | memfdCreate (name : Except Errno Unit) (native : Except Errno Descriptor)
  | shmOpen (name : Except Errno Unit) (native : Except Errno Descriptor)
  | mqOpen (arguments : Except Errno Unit) (native : Except Errno Descriptor)
  | accept (a : UInt64) (checked : Except Errno Unit) (native : Except Errno Descriptor)
  | openat (a : UInt64) (path : Except Errno Unit) (native : Except Errno Descriptor)
  | signalfd (a : UInt64) (mapped : Bool) (native : Except Errno Descriptor)
  | socketpair (mapped : Bool) (native : Except Errno (Descriptor × Descriptor))
  | recvmsg (a : UInt64) (wire checked : Except Errno Unit)
      (native : Except Errno (Nat × List Cmsg))

/-- The arguments that the guest's wrappers pass as `int`. -/
def Request.SignExtended : Request → Prop
  | .close a _ => Descriptors.SignExtended a
  | .dupfd a n _ _ => Descriptors.SignExtended a ∧ Descriptors.SignExtended n
  | .dup2 a b _ => Descriptors.SignExtended a ∧ Descriptors.SignExtended b
  | .fdopendir a _ => Descriptors.SignExtended a
  | .closedir a _ => Descriptors.SignExtended a
  | .accept a _ _ => Descriptors.SignExtended a
  | .openat a _ _ => Descriptors.SignExtended a
  | .signalfd a _ _ => Descriptors.SignExtended a
  | .recvmsg a _ _ _ => Descriptors.SignExtended a
  | _ => True

def service (h : BridgeHost) : Request → Outcome
  | .open_ path native => brOpen h path native
  | .close a error => brClose h a error
  | .dupfd a n cloexec error => bfDupfd h a n cloexec error
  | .dup2 a b error => brDup2 h a b error
  | .pipe mapped native => brPipe h mapped native
  | .opendir path native => brOpendir h path native
  | .fdopendir a error => pxFdopendir h a error
  | .closedir a error => brClosedir h a error
  | .socket native => pxSocket h native
  | .inotifyInit1 native => pxInotifyInit1 h native
  | .posixOpenpt native => pxPosixOpenpt h native
  | .epollCreate1 native => pxEpollCreate1 h native
  | .pidfdOpen native => sysPidfdOpen h native
  | .memfdCreate name native => pxMemfdCreate h name native
  | .shmOpen name native => pxShmOpen h name native
  | .mqOpen arguments native => pxMqOpen h arguments native
  | .accept a checked native => pxAccept h a checked native
  | .openat a path native => pxOpenat h a path native
  | .signalfd a mapped native => pxSignalfd h a mapped native
  | .socketpair mapped native => pxSocketpair h mapped native
  | .recvmsg a wire checked native => pxRecvmsg h a wire checked native

/-- How `service_exec` ends. -/
inductive ExecEnd where
  | badArguments (e : Errno)
  -- A guest descriptor is not at its own number: `EIO`.
  | misplaced
  | closeRangeFailed (e : Errno)
  | rejected (e : Errno)
  -- The new program runs; these are the descriptors it was started from.
  | replaced (native : Fds Descriptor)

/-- `close_range(MAX_FDS, ~0U, CLOSE_RANGE_CLOEXEC)` -/
def markPrivate (native : Fds Descriptor) : Fds Descriptor where
  entry n := if maxFds ≤ n then (native.entry n).map fun d => { d with cloexec := true }
    else native.entry n
  bound := native.bound
  closed := by
    intro n above
    rw [native.closed n above]
    split <;> rfl

/-- `service_exec`, given how the checks of its arguments and its native calls end. -/
def serviceExec (h : BridgeHost) (arguments : Except Errno Unit)
    (closeRange execve : Option Errno) : BridgeHost × ExecEnd :=
  match arguments with
  | .error e => (h, .badArguments e)
  | .ok () =>
    if ∃ i, 0 ≤ h.fds i ∧ h.fds i ≠ (i.val : Int) then (h, .misplaced)
    else
      match closeRange with
      | some e => (h, .closeRangeFailed e)
      | none =>
        let h := { h with native := markPrivate h.native }
        match execve with
        | some e => (h, .rejected e)
        | none => (h, .replaced h.native)

/-- One event: a request of the guest, or the loader opening or closing a private
descriptor. -/
inductive Event where
  | request (r : Request)
  | loader (n : Nat) (isPrivate : maxFds ≤ n) (file : Option Descriptor)

def Event.SignExtended : Event → Prop
  | .request r => r.SignExtended
  | .loader _ _ _ => True

def step (h : BridgeHost) : Event → Option BridgeHost
  | .request r => (service h r).map Prod.fst
  | .loader n _ (some file) => some { h with native := h.native.put n file }
  | .loader n _ none => some (h.closeNative n)

/-- The loader when the guest starts. Its own descriptors were opened above the guest's
range while that was reserved. -/
def start (before : Fds Descriptor) (fault : Fin maxFds → Option Fault)
    (native : Fds Descriptor) (locks : List Nat) : Option BridgeHost :=
  (inheritDescriptors before fault).map fun fds =>
    { fds, dirs := fun _ => none, dirFds := fun _ => 0, native, locks }

end LashOs.Descriptors
