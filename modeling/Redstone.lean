import Redstone.BacklogRefinement
import Redstone.DiskRuns
import Redstone.SharedDisk
import Redstone.Cursor
import Redstone.SplitTransfers
import Redstone.EmptyWrites
import Redstone.ChildMemory
import Redstone.FaultSchedule
import Redstone.ParseAddr
import Redstone.StackBytes
import Redstone.FdRecycling
import Redstone.SocketSeeds
import Redstone.TraceLoop
import Redstone.Syscalls
import Redstone.HookOutcomes
import Redstone.FailedCalls
import Redstone.LiveGenerators
import Redstone.EndToEnd
import Redstone.Monitors
import Redstone.StreamBytes
import Redstone.Barriers
import Redstone.PipeWakeup
import Redstone.ConstantLatency
import Redstone.SamplingSafety
import Redstone.StartUp
import Redstone.WordCounts
import Redstone.SeedCollisions
import Redstone.UniformSampling
import Redstone.ChanceThreshold
import Redstone.VirtualClock
import Redstone.FailedReceives
import Redstone.FragmentCallbacks
import Redstone.StreamSends
import Redstone.ListeningPeers
import Redstone.StdoutWrites
import Redstone.RemoveVdso
import Redstone.AddrOrder
import Redstone.ExactTransfers
import Redstone.HookTable
import Redstone.SignalStops
import Redstone.StrandedLauncher
import Redstone.PacketOrigins
import Redstone.SocketLinks
import Redstone.OwnNumbers
import Redstone.TracedSystem
import Redstone.ConcurrentDisk
import Redstone.BurstOrder
import Redstone.Shutdown
import Redstone.OwnedFiles
import Redstone.StreamLiveness
import Redstone.GeneratorBytes
import Redstone.NoDeadlock
import Redstone.OverlappingHooks
