import Tempo.Runs
import Tempo.PhaseMonitor
import Tempo.Collectives
import Tempo.PhaseBlocks
import Tempo.PhaseCallbacks
import Tempo.PhaseTimes
import Tempo.Decimal
import Tempo.CheckpointNames
import Tempo.BufferedReader
import Tempo.CheckpointManager
import Tempo.CheckpointDurability
import Tempo.CheckpointRuns
import Tempo.FlushWait
import Tempo.PendingBytes
import Tempo.PacedFlush
import Tempo.ChunkWrites
import Tempo.CheckpointBlock
import Tempo.FlushCopy
import Tempo.FlushBudget
import Tempo.FifoLog
import Tempo.SpikeAbsorber
import Tempo.SpikeAbsorberFifo
import Tempo.AbsorberCounts
import Tempo.PacingDaemon
import Tempo.PacingAccount
import Tempo.PacingRuns
import Tempo.PacingOrder
import Tempo.PacingProcess
import Tempo.PacingLifecycle
import Tempo.PacingShutdown
import Tempo.RateLedger
import Tempo.PacingRate
import Tempo.AttentionGate
import Tempo.SoftAbsorber
import Tempo.SoftRate
import Tempo.KeyStore
import Tempo.StorageBackend
import Tempo.StoragePaths
import Tempo.GpuDriven
import Tempo.OrderedDict
import Tempo.RingWalk
import Tempo.ConsistentHashRing
import Tempo.RingLookup
import Tempo.P2PCache
import Tempo.P2PFreshness
import Tempo.TierBytes
import Tempo.DramBudget
import Tempo.DiskBudget
import Tempo.ReadFrame
import Tempo.ByteStream
import Tempo.RemoteGet
import Tempo.ServiceGain
import Tempo.GainScore
import Tempo.PriorityRace
import Tempo.TopologyRouter
import Tempo.NetworkMonitor
import Tempo.MonitorStop
import Tempo.InterleavingEngine
import Tempo.Scheduler
import Tempo.SchedulerRuns
import Tempo.MilestoneGate
import Tempo.JobCount
import Tempo.CommitRecord
import Tempo.StableOrder
import Tempo.BinaryRounding
import Tempo.NexusCoordinator
import Tempo.WindowPositions
import Tempo.LayerGates
import Tempo.CallBinding
import Tempo.SchedulerClasses
import Tempo.NanoOverlap
import Tempo.NanoStores
import Tempo.NanoOrder
import Tempo.SchedulerLayers
import Tempo.RouteRates
import Tempo.BucketGrants
import Tempo.RateChange
import Tempo.BlockOffsets
import Tempo.FfnWait
import Tempo.PhaseHooks
import Tempo.BaselineSync
import Tempo.MetadataReuse
import Tempo.NumberText
import Tempo.CassiniCounter
import Tempo.EndpointQos
import Tempo.DescriptorTable
import Tempo.HeldReadings
import Tempo.CounterTotals
import Tempo.PeerGroups
import Tempo.NvlinkRouter
import Tempo.GatherScatter
import Tempo.TopScores
import Tempo.SparseTransfer
import Tempo.SparseSelection
import Tempo.BitFields
import Tempo.DoorbellToken
import Tempo.Interleaving
import Tempo.PipelineEff
import Tempo.ThresholdLevels
import Tempo.QosMapper
import Tempo.SortedWindows
import Tempo.TraceLoader
import Tempo.PeakRate
import Tempo.Csv
import Tempo.TraceCsv
import Tempo.PositionedWrites
import Tempo.FlushedFile
import Tempo.MachineFamily
import Tempo.FabricQos
import Tempo.EgressClass
import Tempo.FlushOrder
import Tempo.LevelIntervals
import Tempo.MovingAverage
import Tempo.CongestionStats
import Tempo.MonitorForecast
import Tempo.Recency
import Tempo.CacheRecency
import Tempo.ReplicaLoss
import Tempo.ReadThrough
import Tempo.WindowOverlap
import Tempo.InterleavingWindows
import Tempo.RerouteGain
import Tempo.RunningMean
import Tempo.PoolStats
import Tempo.PriorityHeap
import Tempo.SubmitRace
import Tempo.KernelPhases
import Tempo.StoreHooks
import Tempo.TopWeights
import Tempo.SparseProbe
import Tempo.TraceSources
import Tempo.EndpointLifecycle
import Tempo.RingSize
import Tempo.HostGroups
