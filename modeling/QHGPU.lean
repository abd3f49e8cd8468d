import QHGPU.Library.StepRun
import QHGPU.Library.ByteArea
import QHGPU.Library.Decimal
import QHGPU.Library.CString
import QHGPU.Base.Header
import QHGPU.Kernel.Mempool
import QHGPU.Kernel.PoolAddressing
import QHGPU.Library.RunTable
import QHGPU.Kernel.PoolAlloc
import QHGPU.Library.HandOff
import QHGPU.Kernel.Driver
import QHGPU.Kernel.Transitions
import QHGPU.Kernel.Queues
import QHGPU.Kernel.Objects
import QHGPU.Kernel.OpenItems
import QHGPU.Library.SlotTable
import QHGPU.Kernel.SlotExclusion
import QHGPU.Kernel.SyncCall
import QHGPU.Connector.MainLoop
import QHGPU.Connector.Fidelity
import QHGPU.Connector.StageInvariant
import QHGPU.Connector.Passes
import QHGPU.Connector.Steps
import QHGPU.Connector.Drain
import QHGPU.Connector.StageOrder
import QHGPU.Connector.FailedCalls
import QHGPU.Library.LinkedRing
import QHGPU.Connector.Memory
import QHGPU.Connector.MemoryLists
import QHGPU.Connector.StageLists
import QHGPU.Connector.MemoryAccount
import QHGPU.Library.Correlation
import QHGPU.Kernel.Frames
import QHGPU.Kernel.Mapping
import QHGPU.Kernel.Isolation
import QHGPU.Kernel.Session
import QHGPU.Kernel.Lifecycle
import QHGPU.Kernel.SlotRelease
import QHGPU.Kernel.Leftovers
import QHGPU.System.Machine
import QHGPU.System.RoutingInvariant
import QHGPU.System.RoutingSteps
import QHGPU.System.Routing
import QHGPU.System.Batch
import QHGPU.System.Polling
import QHGPU.System.Progress
import QHGPU.System.RemoteCall
import QHGPU.System.ServiceSteps
import QHGPU.Services.SortCall
import QHGPU.System.Stopping
import QHGPU.Library.Tiling
import QHGPU.Library.WorkItems
import QHGPU.Library.OneShot
import QHGPU.Library.Schedules
import QHGPU.Library.AtomicSteps
import QHGPU.Base.OpenCL
import QHGPU.Services.FloydWarshall
import QHGPU.Services.QueueOrder
import QHGPU.Kernel.PoolOwnership
import QHGPU.Kernel.PoolReclaim
import QHGPU.Kernel.PoolRegistration
import QHGPU.Kernel.SetUpErrors
import QHGPU.Kernel.CallErrors
import QHGPU.Kernel.Transfers
import QHGPU.Kernel.ConcurrentClaims
import QHGPU.Services.BatchLaunch
import QHGPU.Services.Firewall
import QHGPU.Services.FirewallSwitch
import QHGPU.Services.PacketMatching
import QHGPU.Services.MatchingOrders
import QHGPU.Library.Phases
import QHGPU.Library.CountingSort
import QHGPU.Library.Scan
import QHGPU.Services.RadixSort
import QHGPU.Services.RadixHistogram
import QHGPU.Services.RadixReorder
import QHGPU.Services.RadixScan
import QHGPU.Services.RadixPrefixSums
import QHGPU.Services.RadixPasses
import QHGPU.Services.RadixService
import QHGPU.Library.Levels
import QHGPU.Library.WordStream
import QHGPU.Library.WalkSums
import QHGPU.Services.Bfs
import QHGPU.Services.BfsTurns
import QHGPU.Services.BfsLevels
import QHGPU.Services.BfsAgreement
import QHGPU.Services.BfsDistances
import QHGPU.Services.BfsRounds
import QHGPU.Services.BfsEncoding
import QHGPU.Services.BfsLaunch
import QHGPU.Services.FloydWarshallWalks
import QHGPU.Services.CommandOrder
import QHGPU.Services.FloydWarshallPass
import QHGPU.Services.FloydWarshallSentinel
import QHGPU.Services.MatchingSteps
import QHGPU.Services.RxSort
import QHGPU.Services.SortServices
import QHGPU.Services.FirewallStream
import QHGPU.Services.NetfilterFirewall
import QHGPU.Services.InetAddress
import QHGPU.Connector.Registry
import QHGPU.Connector.Unloading
import QHGPU.Connector.Loading
import QHGPU.Kernel.ExclusiveOpen
