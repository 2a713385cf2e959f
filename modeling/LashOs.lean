import LashOs.Boot.Modules
import LashOs.Bridge.Refinement
import LashOs.Calendar.Rendering
import LashOs.Compiler.ForwardPaths
import LashOs.Compiler.Reachability
import LashOs.Compiler.WideIntegers
import LashOs.Console.Decoding
import LashOs.Console.Delivery
import LashOs.Console.Fifo
import LashOs.Console.Log
import LashOs.Console.Output
import LashOs.Console.Input
import LashOs.Descriptors.Bounds
import LashOs.Descriptors.Exec
import LashOs.Descriptors.Locks
import LashOs.Descriptors.Reservation
import LashOs.Bundle.RoundTrip
import LashOs.Guest.RawCalls
import LashOs.Isolation.Reachable
import LashOs.Isolation.SocketFilter
import LashOs.Isolation.Unescape
import LashOs.Launch.BootImage
import LashOs.Launch.Identity
import LashOs.Launch.Numbers
import LashOs.Launch.Transparency
import LashOs.Memory.Remap
import LashOs.Network.Message
import LashOs.Network.Receive
import LashOs.Paths.Translation
import LashOs.Poll.Timeout
import LashOs.Posix.Wrapper
import LashOs.Process.Snapshot
import LashOs.Release.Provenance
import LashOs.Runtime.Prepared
import LashOs.Semaphores.Named
import LashOs.Signals.Dispatch
import LashOs.Signals.Fork
import LashOs.Signals.Masks
import LashOs.Signals.Transfer
import LashOs.SourceTree.Mirror
import LashOs.Spawn.Refinement
import LashOs.Sysroot.Rooted
import LashOs.Base.Ownership
import LashOs.Launcher.Exec
