import Avp64.Lib.TimedEvent
import Avp64.Lib.WrappingClock
import Avp64.Lib.ReadThrough
import Avp64.Lib.ByteRange
import Avp64.Lib.CoherentCache
import Avp64.Lib.Locality
import Avp64.Lib.Ownership
import Avp64.Lib.Views
import Avp64.Lib.AddressMap
import Avp64.Lib.Tokens
import Avp64.Lib.MappedMemory
import Avp64.Psp.MemProtector.WriteTrap
import Avp64.Psp.MemProtector.Atomicity
import Avp64.Psp.MemProtector.Reclaim
import Avp64.Psp.MemProtector.TargetPages
import Avp64.Psp.MemProtector.Sweeps
import Avp64.Psp.MemProtector.Clients
import Avp64.Psp.MemProtector.FaultClaim
import Avp64.Psp.MemProtector.HostPages
import Avp64.Psp.Core.Transport
import Avp64.Psp.Core.Registers
import Avp64.Psp.Core.Debug
import Avp64.Psp.Core.Thread
import Avp64.Psp.Core.Interrupts
import Avp64.Psp.Core.Timer
import Avp64.Psp.Core.TimerLines
import Avp64.Psp.Core.Deadline
import Avp64.Psp.Core.Cycles
import Avp64.Psp.Core.PagePtr
import Avp64.Psp.Core.WatchpointHit
import Avp64.Psp.Core.Watchpoints
import Avp64.Psp.Platform.Def
import Avp64.Psp.Platform.Operations
import Avp64.Psp.Platform.Runs
import Avp64.Psp.Platform.Lifetime
import Avp64.Psp.Platform.Cluster
import Avp64.Psp.Platform.Coherence
import Avp64.Psp.Platform.Cycles
import Avp64.Psp.Platform.Replay
import Avp64.Psp.Platform.Syscalls
import Avp64.Psp.Platform.Service
import Avp64.Psp.Platform.Instances
import Avp64.Psp.Platform.HandlerWork
import Avp64.Psp.Platform.FaultBudget
import Avp64.Psp.Platform.Identity
import Avp64.Psp.Platform.Translations
import Avp64.Psp.Platform.Pointers
import Avp64.Psp.Platform.Watches
import Avp64.Psp.Platform.GuestStores
import Avp64.Psp.Platform.GuestMemory
import Avp64.System.MemoryMap
