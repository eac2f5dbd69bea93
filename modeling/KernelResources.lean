import KernelResources.Buffer.BucketBench
import KernelResources.Buffer.Counters
import KernelResources.Lock.SleepRoom
import KernelResources.Lock.Spin
import KernelResources.Lock.Wakeup
import KernelResources.Page.Holder
import KernelResources.Page.ListBench
import KernelResources.Page.RamBytes
import KernelResources.Proofs.Buffer.BucketLists
import KernelResources.Proofs.Buffer.PoolStructure
import KernelResources.Proofs.Buffer.PoolAudit
import KernelResources.Proofs.OperationEnds
import KernelResources.Proofs.Buffer.CacheEnds
import KernelResources.Proofs.Buffer.Ledger
import KernelResources.Proofs.Buffer.CacheStructure
import KernelResources.Proofs.Buffer.Moves
import KernelResources.Proofs.Buffer.Accounted
import KernelResources.Proofs.Buffer.StepMoves
import KernelResources.Proofs.Buffer.References
import KernelResources.Proofs.Buffer.Identity
import KernelResources.Proofs.Buffer.WriteThrough
import KernelResources.Proofs.Buffer.RoundRobin
import KernelResources.Proofs.Page.Carving
import KernelResources.Proofs.Page.Partition
import KernelResources.Proofs.Page.Refinement
import KernelResources.Proofs.Page.Isolation
import KernelResources.Proofs.Lock.GuardBooks
import KernelResources.Proofs.Buffer.Exchanges
import KernelResources.Proofs.Buffer.LeastRecent
import KernelResources.Proofs.Buffer.Losses
import KernelResources.Proofs.Buffer.Rejections
import KernelResources.Proofs.Buffer.Residence
import KernelResources.Proofs.Buffer.Sources
import KernelResources.Proofs.Buffer.Contents
import KernelResources.Proofs.Lock.FirstCome
import KernelResources.Proofs.Lock.LostWakeups
import KernelResources.Proofs.Buffer.LockWaits
import KernelResources.Proofs.Buffer.InterleavedClaims
import KernelResources.Proofs.InterruptFlags
import KernelResources.Proofs.Buffer.PoolDefects
import KernelResources.Proofs.Buffer.Claiming
import KernelResources.Proofs.Page.Freed
import KernelResources.Proofs.Buffer.Rollback
import KernelResources.Proofs.Page.FreeRanges
import KernelResources.Proofs.Page.Founding
import KernelResources.Proofs.Buffer.UnusedFirst
import KernelResources.Proofs.Page.Boundaries
import KernelResources.Proofs.GuardOrders
import KernelResources.Proofs.Buffer.LinkTables
import KernelResources.Proofs.Buffer.MisusedBuckets
import KernelResources.Proofs.Buffer.BucketMoves
