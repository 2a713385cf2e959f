import LashOs.Base.CInteger

/-!
# The functions with generated adapters

The table of `generate-posix.py`: every function of the C library that the guest calls through a
generated wrapper or that the loader calls in a generated case, with the type of its result, the type
and name of every parameter, and how the loader marshals it.
-/
namespace LashOs.Posix

open Base

/-- The C types of the table. What a pointer points to is in the kind of its parameter. -/
inductive CType where
  | int | unsigned | long | unsignedLong | uint32
  | size | ssize | off | socklen
  | uid | gid | pid | id | mode | dev | key
  | clockid | clock | mqd
  | pointer
  deriving DecidableEq, Repr

def hostType : CType → IntType
  | .int | .pid | .key | .clockid | .mqd => ⟨true, 32⟩
  | .unsigned | .uint32 | .socklen | .uid | .gid | .id | .mode => ⟨false, 32⟩
  | .long | .ssize | .off | .clock => ⟨true, 64⟩
  | .unsignedLong | .size | .dev | .pointer => ⟨false, 64⟩

theorem hostType_narrow (t : CType) : (hostType t).bits ≤ 64 := by cases t <;> decide

/-- The types that a size in the table refers to. -/
inductive Layout where
  | timeval | timespec | itimerval | statvfs | epollEvent | timex | tms | gid | off | statfs | mqAttr
  deriving DecidableEq, Repr

/-- `raw_layouts`: the size that is asserted on both sides, of a type that is passed unchanged. -/
def rawLayouts : Layout → Option Nat
  | .timespec => some 16
  | .tms => some 32
  | .gid => some 4
  | .off => some 8
  | .statfs => some 120
  | .mqAttr => some 64
  | _ => none

/-- The size of a buffer, as an expression over the scalar parameters. -/
inductive Size where
  | name (n : String)
  | number (n : Nat)
  | sizeof (l : Layout)
  | times (a b : Size)
  deriving DecidableEq, Repr

inductive Kind where
  | value | fd | dirfd | string | optstring | path | optpath | clock | atflags | openflags
  | bytes (size : Size)
  | optional (size : Size)
  deriving DecidableEq, Repr

structure Parameter where
  type : CType
  name : String
  kind : Kind
  deriving DecidableEq, Repr

structure Function where
  name : String
  result : CType
  parameters : List Parameter
  deriving DecidableEq, Repr

/-! ### The table -/

def fileFunctions : List Function := [
  ⟨"chown", .int, [⟨.pointer, "path", .string⟩, ⟨.uid, "owner", .value⟩, ⟨.gid, "group", .value⟩]⟩,
  ⟨"lchown", .int, [⟨.pointer, "path", .string⟩, ⟨.uid, "owner", .value⟩, ⟨.gid, "group", .value⟩]⟩,
  ⟨"fchown", .int, [⟨.int, "descriptor", .fd⟩, ⟨.uid, "owner", .value⟩, ⟨.gid, "group", .value⟩]⟩,
  ⟨"truncate", .int, [⟨.pointer, "path", .string⟩, ⟨.off, "length", .value⟩]⟩,
  ⟨"ftruncate", .int, [⟨.int, "descriptor", .fd⟩, ⟨.off, "length", .value⟩]⟩,
  ⟨"pread", .ssize, [⟨.int, "descriptor", .fd⟩, ⟨.pointer, "buffer", .bytes (.name "count")⟩,
      ⟨.size, "count", .value⟩, ⟨.off, "offset", .value⟩]⟩,
  ⟨"pwrite", .ssize, [⟨.int, "descriptor", .fd⟩, ⟨.pointer, "buffer", .bytes (.name "count")⟩,
      ⟨.size, "count", .value⟩, ⟨.off, "offset", .value⟩]⟩,
  ⟨"readlinkat", .ssize, [⟨.int, "directory", .dirfd⟩, ⟨.pointer, "path", .string⟩,
      ⟨.pointer, "buffer", .bytes (.name "size")⟩, ⟨.size, "size", .value⟩]⟩,
  ⟨"unlinkat", .int, [⟨.int, "directory", .dirfd⟩, ⟨.pointer, "path", .string⟩,
      ⟨.int, "flags", .atflags⟩]⟩,
  ⟨"flock", .int, [⟨.int, "descriptor", .fd⟩, ⟨.int, "operation", .value⟩]⟩,
  ⟨"posix_fallocate", .int, [⟨.int, "descriptor", .fd⟩, ⟨.off, "offset", .value⟩,
      ⟨.off, "length", .value⟩]⟩,
  ⟨"mknod", .int, [⟨.pointer, "path", .string⟩, ⟨.mode, "mode", .value⟩, ⟨.dev, "device", .value⟩]⟩,
  ⟨"utimes", .int, [⟨.pointer, "path", .string⟩,
      ⟨.pointer, "times", .optional (.times (.number 2) (.sizeof .timeval))⟩]⟩,
  ⟨"futimens", .int, [⟨.int, "descriptor", .fd⟩,
      ⟨.pointer, "times", .optional (.times (.number 2) (.sizeof .timespec))⟩]⟩,
  ⟨"getsid", .pid, [⟨.pid, "process", .value⟩]⟩,
  ⟨"getpriority", .int, [⟨.int, "which", .value⟩, ⟨.id, "who", .value⟩]⟩,
  ⟨"setpriority", .int, [⟨.int, "which", .value⟩, ⟨.id, "who", .value⟩,
      ⟨.int, "priority", .value⟩]⟩,
  ⟨"sethostname", .int, [⟨.pointer, "name", .bytes (.name "length")⟩, ⟨.size, "length", .value⟩]⟩,
  ⟨"gethostid", .long, []⟩,
  ⟨"sched_get_priority_max", .int, [⟨.int, "policy", .value⟩]⟩,
  ⟨"sched_get_priority_min", .int, [⟨.int, "policy", .value⟩]⟩,
  ⟨"sched_getaffinity", .int, [⟨.pid, "process", .value⟩, ⟨.size, "size", .value⟩,
      ⟨.pointer, "mask", .bytes (.name "size")⟩]⟩,
  ⟨"sched_setaffinity", .int, [⟨.pid, "process", .value⟩, ⟨.size, "size", .value⟩,
      ⟨.pointer, "mask", .bytes (.name "size")⟩]⟩,
  ⟨"socket", .int, [⟨.int, "domain", .value⟩, ⟨.int, "type", .value⟩, ⟨.int, "protocol", .value⟩]⟩,
  ⟨"bind", .int, [⟨.int, "descriptor", .fd⟩, ⟨.pointer, "address", .bytes (.name "length")⟩,
      ⟨.socklen, "length", .value⟩]⟩,
  ⟨"connect", .int, [⟨.int, "descriptor", .fd⟩, ⟨.pointer, "address", .bytes (.name "length")⟩,
      ⟨.socklen, "length", .value⟩]⟩,
  ⟨"listen", .int, [⟨.int, "descriptor", .fd⟩, ⟨.int, "backlog", .value⟩]⟩,
  ⟨"shutdown", .int, [⟨.int, "descriptor", .fd⟩, ⟨.int, "how", .value⟩]⟩,
  ⟨"send", .ssize, [⟨.int, "descriptor", .fd⟩, ⟨.pointer, "buffer", .bytes (.name "size")⟩,
      ⟨.size, "size", .value⟩, ⟨.int, "flags", .value⟩]⟩,
  ⟨"recv", .ssize, [⟨.int, "descriptor", .fd⟩, ⟨.pointer, "buffer", .bytes (.name "size")⟩,
      ⟨.size, "size", .value⟩, ⟨.int, "flags", .value⟩]⟩,
  ⟨"sendto", .ssize, [⟨.int, "descriptor", .fd⟩, ⟨.pointer, "buffer", .bytes (.name "size")⟩,
      ⟨.size, "size", .value⟩, ⟨.int, "flags", .value⟩,
      ⟨.pointer, "address", .optional (.name "length")⟩, ⟨.socklen, "length", .value⟩]⟩,
  ⟨"setsockopt", .int, [⟨.int, "descriptor", .fd⟩, ⟨.int, "level", .value⟩,
      ⟨.int, "option", .value⟩, ⟨.pointer, "value", .bytes (.name "length")⟩,
      ⟨.socklen, "length", .value⟩]⟩,
  ⟨"getrandom", .ssize, [⟨.pointer, "buffer", .bytes (.name "size")⟩, ⟨.size, "size", .value⟩,
      ⟨.unsigned, "flags", .value⟩]⟩,
  ⟨"inotify_init1", .int, [⟨.int, "flags", .openflags⟩]⟩,
  ⟨"inotify_add_watch", .int, [⟨.int, "descriptor", .fd⟩, ⟨.pointer, "path", .string⟩,
      ⟨.uint32, "mask", .value⟩]⟩,
  ⟨"inotify_rm_watch", .int, [⟨.int, "descriptor", .fd⟩, ⟨.int, "watch", .value⟩]⟩,
  ⟨"posix_openpt", .int, [⟨.int, "flags", .openflags⟩]⟩,
  ⟨"grantpt", .int, [⟨.int, "descriptor", .fd⟩]⟩,
  ⟨"unlockpt", .int, [⟨.int, "descriptor", .fd⟩]⟩,
  ⟨"ptsname_r", .int, [⟨.int, "descriptor", .fd⟩, ⟨.pointer, "buffer", .bytes (.name "size")⟩,
      ⟨.size, "size", .value⟩]⟩,
  ⟨"ttyname_r", .int, [⟨.int, "descriptor", .fd⟩, ⟨.pointer, "buffer", .bytes (.name "size")⟩,
      ⟨.size, "size", .value⟩]⟩,
  ⟨"tcflow", .int, [⟨.int, "descriptor", .fd⟩, ⟨.int, "action", .value⟩]⟩,
  ⟨"shm_unlink", .int, [⟨.pointer, "name", .string⟩]⟩,
  ⟨"clock_settime", .int, [⟨.clockid, "clock", .clock⟩,
      ⟨.pointer, "value", .bytes (.sizeof .timespec)⟩]⟩,
  ⟨"adjtime", .int, [⟨.pointer, "delta", .optional (.sizeof .timeval)⟩,
      ⟨.pointer, "old", .optional (.sizeof .timeval)⟩]⟩,
  ⟨"reboot", .int, [⟨.int, "command", .value⟩]⟩,
  ⟨"swapon", .int, [⟨.pointer, "path", .string⟩, ⟨.int, "flags", .value⟩]⟩,
  ⟨"swapoff", .int, [⟨.pointer, "path", .string⟩]⟩,
  ⟨"umount2", .int, [⟨.pointer, "path", .string⟩, ⟨.int, "flags", .value⟩]⟩,
  ⟨"setns", .int, [⟨.int, "descriptor", .fd⟩, ⟨.int, "type", .value⟩]⟩,
  ⟨"unshare", .int, [⟨.int, "flags", .value⟩]⟩]

def systemFunctions : List Function := [
  ⟨"rename", .int, [⟨.pointer, "old", .string⟩, ⟨.pointer, "new", .string⟩]⟩,
  ⟨"memfd_create", .int, [⟨.pointer, "name", .string⟩, ⟨.unsigned, "flags", .value⟩]⟩,
  ⟨"shm_open", .int, [⟨.pointer, "name", .string⟩, ⟨.int, "flags", .openflags⟩,
      ⟨.mode, "mode", .value⟩]⟩,
  ⟨"mount", .int, [⟨.pointer, "source", .optstring⟩, ⟨.pointer, "target", .string⟩,
      ⟨.pointer, "type", .optstring⟩, ⟨.unsignedLong, "flags", .value⟩,
      ⟨.pointer, "data", .optstring⟩]⟩,
  ⟨"initgroups", .int, [⟨.pointer, "user", .string⟩, ⟨.gid, "group", .value⟩]⟩,
  ⟨"setgroups", .int, [⟨.int, "count", .value⟩,
      ⟨.pointer, "groups", .bytes (.times (.name "count") (.sizeof .gid))⟩]⟩,
  ⟨"setuid", .int, [⟨.uid, "id", .value⟩]⟩,
  ⟨"setgid", .int, [⟨.gid, "id", .value⟩]⟩,
  ⟨"setresuid", .int, [⟨.uid, "r", .value⟩, ⟨.uid, "e", .value⟩, ⟨.uid, "s", .value⟩]⟩,
  ⟨"setresgid", .int, [⟨.gid, "r", .value⟩, ⟨.gid, "e", .value⟩, ⟨.gid, "s", .value⟩]⟩,
  ⟨"setitimer", .int, [⟨.int, "which", .value⟩,
      ⟨.pointer, "value", .optional (.sizeof .itimerval)⟩,
      ⟨.pointer, "old", .optional (.sizeof .itimerval)⟩]⟩,
  ⟨"statvfs", .int, [⟨.pointer, "path", .string⟩, ⟨.pointer, "out", .bytes (.sizeof .statvfs)⟩]⟩,
  ⟨"fstatvfs", .int, [⟨.int, "descriptor", .fd⟩, ⟨.pointer, "out", .bytes (.sizeof .statvfs)⟩]⟩,
  ⟨"epoll_create1", .int, [⟨.int, "flags", .openflags⟩]⟩,
  ⟨"epoll_wait", .int, [⟨.int, "descriptor", .fd⟩,
      ⟨.pointer, "events", .bytes (.times (.name "count") (.sizeof .epollEvent))⟩,
      ⟨.int, "count", .value⟩, ⟨.int, "timeout", .value⟩]⟩,
  ⟨"adjtimex", .int, [⟨.pointer, "value", .bytes (.sizeof .timex)⟩]⟩,
  ⟨"sched_yield", .int, []⟩,
  ⟨"pause", .int, []⟩,
  ⟨"mlock", .int, [⟨.pointer, "address", .bytes (.name "size")⟩, ⟨.size, "size", .value⟩]⟩,
  ⟨"munlock", .int, [⟨.pointer, "address", .bytes (.name "size")⟩, ⟨.size, "size", .value⟩]⟩,
  ⟨"mlockall", .int, [⟨.int, "flags", .value⟩]⟩,
  ⟨"munlockall", .int, []⟩,
  ⟨"msgget", .int, [⟨.key, "key", .value⟩, ⟨.int, "flags", .value⟩]⟩,
  ⟨"shmget", .int, [⟨.key, "key", .value⟩, ⟨.size, "size", .value⟩, ⟨.int, "flags", .value⟩]⟩,
  ⟨"semget", .int, [⟨.key, "key", .value⟩, ⟨.int, "count", .value⟩, ⟨.int, "flags", .value⟩]⟩]

def directoryFunctions : List Function := [
  ⟨"chroot", .int, [⟨.pointer, "path", .string⟩]⟩,
  ⟨"utimensat", .int, [⟨.int, "directory", .dirfd⟩, ⟨.pointer, "path", .string⟩,
      ⟨.pointer, "times", .optional (.times (.number 2) (.sizeof .timespec))⟩,
      ⟨.int, "flags", .atflags⟩]⟩,
  ⟨"clock_getres", .int, [⟨.clockid, "clock", .clock⟩,
      ⟨.pointer, "value", .optional (.sizeof .timespec)⟩]⟩,
  ⟨"times", .clock, [⟨.pointer, "value", .optional (.sizeof .tms)⟩]⟩,
  ⟨"faccessat", .int, [⟨.int, "directory", .dirfd⟩, ⟨.pointer, "path", .string⟩,
      ⟨.int, "mode", .value⟩, ⟨.int, "flags", .atflags⟩]⟩]

/-- The functions for extended attributes whose names start with `initial`. -/
def xattrFunctions (initial : String) (leading : Parameter) : List Function := [
  ⟨initial ++ "getxattr", .ssize, [leading, ⟨.pointer, "name", .string⟩,
      ⟨.pointer, "value", .optional (.name "size")⟩, ⟨.size, "size", .value⟩]⟩,
  ⟨initial ++ "setxattr", .int, [leading, ⟨.pointer, "name", .string⟩,
      ⟨.pointer, "value", .optional (.name "size")⟩, ⟨.size, "size", .value⟩,
      ⟨.int, "flags", .value⟩]⟩,
  ⟨initial ++ "listxattr", .ssize, [leading, ⟨.pointer, "list", .optional (.name "size")⟩,
      ⟨.size, "size", .value⟩]⟩,
  ⟨initial ++ "removexattr", .int, [leading, ⟨.pointer, "name", .string⟩]⟩]

def attributeFunctions : List Function :=
  xattrFunctions "" ⟨.pointer, "path", .string⟩ ++
  xattrFunctions "l" ⟨.pointer, "path", .string⟩ ++
  xattrFunctions "f" ⟨.int, "descriptor", .fd⟩

def pathFunctions : List Function := [
  ⟨"renameat", .int, [⟨.int, "old_directory", .dirfd⟩, ⟨.pointer, "old_path", .path⟩,
      ⟨.int, "new_directory", .dirfd⟩, ⟨.pointer, "new_path", .path⟩]⟩,
  ⟨"copy_file_range", .ssize, [⟨.int, "input", .fd⟩,
      ⟨.pointer, "input_offset", .optional (.sizeof .off)⟩, ⟨.int, "output", .fd⟩,
      ⟨.pointer, "output_offset", .optional (.sizeof .off)⟩, ⟨.size, "length", .value⟩,
      ⟨.unsigned, "flags", .value⟩]⟩,
  ⟨"mq_unlink", .int, [⟨.pointer, "name", .string⟩]⟩,
  ⟨"mq_open", .mqd, [⟨.pointer, "name", .string⟩, ⟨.int, "flags", .openflags⟩,
      ⟨.mode, "mode", .value⟩, ⟨.pointer, "attributes", .optional (.sizeof .mqAttr)⟩]⟩,
  ⟨"linkat", .int, [⟨.int, "old_directory", .dirfd⟩, ⟨.pointer, "old_path", .path⟩,
      ⟨.int, "new_directory", .dirfd⟩, ⟨.pointer, "new_path", .path⟩, ⟨.int, "flags", .atflags⟩]⟩,
  ⟨"statfs", .int, [⟨.pointer, "path", .path⟩, ⟨.pointer, "out", .bytes (.sizeof .statfs)⟩]⟩,
  ⟨"mkfifoat", .int, [⟨.int, "directory", .dirfd⟩, ⟨.pointer, "path", .path⟩,
      ⟨.mode, "mode", .value⟩]⟩,
  ⟨"mkdirat", .int, [⟨.int, "directory", .dirfd⟩, ⟨.pointer, "path", .path⟩,
      ⟨.mode, "mode", .value⟩]⟩,
  ⟨"symlinkat", .int, [⟨.pointer, "target", .string⟩, ⟨.int, "directory", .dirfd⟩,
      ⟨.pointer, "path", .path⟩]⟩]

def Function.withPaths (f : Function) : Function where
  name := f.name
  result := f.result
  parameters := f.parameters.map fun p =>
    if p.name = "path" ∨ f.name = "rename" ∨
        (f.name = "mount" ∧ (p.name = "source" ∨ p.name = "target")) then
      { p with kind :=
          match p.kind with
          | .string => .path
          | .optstring => .optpath
          | kind => kind }
    else p

def functions : List Function :=
  (fileFunctions ++ systemFunctions ++ directoryFunctions ++ attributeFunctions ++
    pathFunctions).map Function.withPaths

def nofollowPaths : List String :=
  ["lchown", "readlinkat", "unlinkat", "rename", "renameat", "mkdirat", "mkfifoat", "symlinkat",
    "mknod", "lgetxattr", "lsetxattr", "llistxattr", "lremovexattr"]

def fdReturns : List String :=
  ["socket", "inotify_init1", "posix_openpt", "memfd_create", "shm_open", "epoll_create1", "mq_open"]

def errorReturns : List String := ["posix_fallocate", "ptsname_r", "ttyname_r"]

/-- Functions whose guest wrapper is written by hand, since the layouts differ. -/
def converted : List String :=
  ["utimes", "adjtime", "setitimer", "statvfs", "fstatvfs", "epoll_wait", "adjtimex", "mq_open"]

/-- Functions whose case in the loader is written by hand. -/
def hostConverted : List String := converted.filter (· ≠ "mq_open") ++ ["setsockopt"]

/-! ### What the generator relies on -/

def Size.names : Size → List String
  | .name n => [n]
  | .number _ => []
  | .sizeof _ => []
  | .times a b => a.names ++ b.names

def Size.declared : Size → Bool
  | .name _ => true
  | .number _ => true
  | .sizeof l => (rawLayouts l).isSome
  | .times a b => a.declared && b.declared

def Kind.isPointer : Kind → Bool
  | .string | .optstring | .path | .optpath | .bytes _ | .optional _ => true
  | _ => false

def Kind.size : Kind → Option Size
  | .bytes s => some s
  | .optional s => some s
  | _ => none

def Function.scalars (f : Function) : List String :=
  (f.parameters.filter (·.kind = .value)).map (·.name)

/-- The generated case of a function is a correct C block: there is room for its arguments, no name
is declared twice, and its sizes are expressions over scalars and declared layouts. -/
structure Function.WellFormed (f : Function) : Prop where
  room : f.parameters.length ≤ 6
  distinct : (f.parameters.map (·.name)).Nodup
  sized : ∀ p ∈ f.parameters, ∀ s, p.kind.size = some s → s.declared = true ∧ s.names ⊆ f.scalars
  pointers : ∀ p ∈ f.parameters, (p.type = .pointer ↔ p.kind.isPointer = true)
  -- The generator writes the index of the flags of `linkat` as a number.
  linked : f.name = "linkat" → f.parameters[4]?.map (·.kind) = some .atflags

def Function.wellFormed (f : Function) : Bool :=
  decide (f.parameters.length ≤ 6) && decide (f.parameters.map (·.name)).Nodup &&
  f.parameters.all (fun p => p.kind.size.all fun s => s.declared && s.names.all (· ∈ f.scalars)) &&
  f.parameters.all (fun p => decide (p.type = .pointer) == p.kind.isPointer) &&
  decide (f.name = "linkat" → f.parameters[4]?.map (·.kind) = some .atflags)

theorem Function.wellFormed_iff (f : Function) : f.wellFormed = true ↔ f.WellFormed := by
  simp only [wellFormed, Bool.and_eq_true, decide_eq_true_eq, List.all_eq_true, Option.all_eq_true,
    beq_iff_eq]
  constructor
  · rintro ⟨⟨⟨⟨room, distinct⟩, sized⟩, pointers⟩, linked⟩
    refine ⟨room, distinct, fun p member s size => ?_, fun p member => ?_, linked⟩
    · exact ⟨(sized p member s size).1, (sized p member s size).2⟩
    · rw [← pointers p member, decide_eq_true_iff]
  · rintro ⟨room, distinct, sized, pointers, linked⟩
    refine ⟨⟨⟨⟨room, distinct⟩, fun p member s size => ?_⟩, fun p member => ?_⟩, linked⟩
    · exact ⟨(sized p member s size).1, (sized p member s size).2⟩
    · rw [Bool.eq_iff_iff, decide_eq_true_iff, pointers p member]

theorem functions_wellFormed {f : Function} (listed : f ∈ functions) (hosted : f.name ∉ hostConverted) :
    f.WellFormed := by
  have all : functions.all (fun f => decide (f.name ∈ hostConverted) || f.wellFormed) = true := by
    decide +kernel
  have here := List.all_eq_true.mp all f listed
  rw [Bool.or_eq_true, decide_eq_true_iff] at here
  exact f.wellFormed_iff.mp (here.resolve_left hosted)

theorem functions_distinct : (functions.map (·.name)).Nodup := by decide +kernel

end LashOs.Posix
