import PartitionAlloc.AddressPoolManager.Pool
import PartitionAlloc.AddressPoolManager.FindChunk
import PartitionAlloc.AddressPoolManager.Runs
import PartitionAlloc.PoolOffsetFreelist.Entry
import PartitionAlloc.PoolOffsetFreelist.Chain
import PartitionAlloc.SizeT
import PartitionAlloc.SchedulerLoopQuarantine.Branch
import PartitionAlloc.SchedulerLoopQuarantine.World
import PartitionAlloc.SchedulerLoopQuarantine.Invariants
import PartitionAlloc.SchedulerLoopQuarantine.Runs
import PartitionAlloc.SchedulerLoopQuarantine.Capacity
import PartitionAlloc.SchedulerLoopQuarantine.Concurrent
import PartitionAlloc.SchedulerLoopQuarantine.Ownership
import PartitionAlloc.LightweightQuarantine.Branch
import PartitionAlloc.LightweightQuarantine.Runs
import PartitionAlloc.SchedulerLoopQuarantineRuntimeStats.BucketStats
import PartitionAlloc.SchedulerLoopQuarantineRuntimeStats.AddStats
import PartitionAlloc.SchedulerLoopQuarantine.Purge
import PartitionAlloc.AddressPoolManager.FirstFit
import PartitionAlloc.PoolOffsetFreelist.Corruption
import PartitionAlloc.LightweightQuarantine.Concurrent
import PartitionAlloc.Shim.LeakySingleton
import PartitionAlloc.AddressPoolManager.Registry
import PartitionAlloc.PartitionAddressSpace.Pools
import PartitionAlloc.PartitionAddressSpace.Reservation
import PartitionAlloc.AddressPoolManager.Manager
import PartitionAlloc.PartitionAddressSpace.Serving
import PartitionAlloc.Shim.Partitions
import PartitionAlloc.LightweightQuarantine.Ledger
import PartitionAlloc.LightweightQuarantine.Serial
import PartitionAlloc.SchedulerLoopQuarantine.Serial
