import ZnsBase.Library.Effect
import ZnsBase.Library.Bytes
import ZnsBase.Library.SearchTree
import ZnsBase.Library.Layers
import ZnsBase.Library.Snapshots
import ZnsBase.Library.Counting
import ZnsBase.Library.Cleaning
import ZnsBase.Library.Metering
import ZnsBase.Library.Crc
import ZnsBase.Zone
import ZnsBase.Allocator
import ZnsBase.World
import ZnsBase.Memtable
import ZnsBase.Sstable
import ZnsBase.Super
import ZnsBase.Append4k
import ZnsBase.GcPolicy
import ZnsBase.Lsm
import ZnsBase.LsmWrite
import ZnsBase.LsmInit
import ZnsBase.Target
import ZnsBase.Append4kMap
import ZnsBase.Workers
import ZnsBase.Proofs.WorldFrame
import ZnsBase.Proofs.Memtables
import ZnsBase.Proofs.MemtableCalls
import ZnsBase.Proofs.SstLookup
import ZnsBase.Proofs.SstImage
import ZnsBase.Proofs.SstGeometry
import ZnsBase.Proofs.SstDisk
import ZnsBase.Proofs.SuperBlock
import ZnsBase.Proofs.AllocatorSpec
import ZnsBase.Proofs.AllocatorRuns
import ZnsBase.Proofs.Attach
import ZnsBase.Proofs.Discipline
import ZnsBase.Proofs.FlushFrame
import ZnsBase.Proofs.Requests
import ZnsBase.Proofs.Lifting
import ZnsBase.Proofs.Opening
import ZnsBase.Proofs.StartupFrame
import ZnsBase.Proofs.GcIndex
import ZnsBase.Proofs.Coherence
import ZnsBase.Proofs.WriteSteps
import ZnsBase.Proofs.Mirror
import ZnsBase.Proofs.WritePath
import ZnsBase.Proofs.Policies
import ZnsBase.Proofs.Collection
import ZnsBase.Proofs.FlushPath
import ZnsBase.Proofs.Moments
import ZnsBase.Proofs.Rebuild
import ZnsBase.Proofs.Startup
import ZnsBase.Proofs.Sessions
import ZnsBase.Proofs.GcSlots
import ZnsBase.Proofs.SequentialWrites
import ZnsBase.Proofs.ReadPath
import ZnsBase.Proofs.Bookkeeping
import ZnsBase.Proofs.GcRuns
import ZnsBase.Proofs.SstRoundTrip
import ZnsBase.Proofs.LogWalk
import ZnsBase.Proofs.MetadataLog
import ZnsBase.Proofs.FlushQueue
import ZnsBase.Proofs.LookupRaces
import ZnsBase.Proofs.FlatDisk
import ZnsBase.Proofs.Fragments
import ZnsBase.Proofs.ShutdownLog
import ZnsBase.Proofs.Recovery
import ZnsBase.Proofs.Splitting
import ZnsBase.Proofs.Restarts
import ZnsBase.Proofs.BurnedLog
import ZnsBase.Proofs.HealthyRuns
import ZnsBase.Proofs.Crashes
import ZnsBase.Proofs.Stopped
import ZnsBase.Proofs.ReadOnly
import ZnsBase.Proofs.InFlight
import ZnsBase.Proofs.Capacity
import ZnsBase.Proofs.Amplification
import ZnsBase.Proofs.FullLog
import ZnsBase.Proofs.FlatTarget
import ZnsBase.Proofs.Costs
import ZnsBase.Proofs.Resident
import ZnsBase.Proofs.AnyBytes
import ZnsBase.Proofs.LockSplit
import ZnsBase.Proofs.Append4kDisk
