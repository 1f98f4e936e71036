import DualMap.Foundation.Heapq
import DualMap.Foundation.OrderedDict
import DualMap.Foundation.RadixTree
import DualMap.Foundation.WindowSums
import DualMap.Foundation.GroupTotals
import DualMap.Foundation.GroupLoads
import DualMap.Foundation.RadixWalk
import DualMap.Foundation.PyEffect
import DualMap.Preble.LPRadixCache
import DualMap.Preble.RadixGrowth
import DualMap.Preble.RadixInsert
import DualMap.Preble.InsertedSequences
import DualMap.Preble.CacheEviction
import DualMap.Preble.CacheMetadata
import DualMap.Preble.AllocatedSize
import DualMap.Preble.ReferenceCounts
import DualMap.Preble.SlidingWindowHistogram
import DualMap.Preble.PrebleGlobalSchedulerUtils
import DualMap.Preble.OverloadDetection
import DualMap.Preble.PrebleGlobalScheduler
import DualMap.Preble.WindowInvariants
import DualMap.Preble.WindowChanges
import DualMap.Preble.RememberedCosts
import DualMap.Preble.SchedulerInvariant
import DualMap.Foundation.BatchLru
import DualMap.Foundation.Coroutine
import DualMap.Foundation.RelyGuarantee
import DualMap.Cache.PrefixKVCacheMgr
import DualMap.Cache.Integrity
import DualMap.Cache.BlockPool
import DualMap.Cache.SavedPrompts
import DualMap.Cache.CacheHits
import DualMap.Cache.EvictionOrder
import DualMap.Scheduler.GlobalRequestQueue
import DualMap.Scheduler.QueueAccounting
import DualMap.Scheduler.QueueOrder
import DualMap.Foundation.HeapqRaising
import DualMap.Scheduler.QueueTies
import DualMap.Cache.PrefixKvCacheStore
import DualMap.Entities.Replica
import DualMap.Foundation.Ledger
import DualMap.Entities.ReplicaAccounting
import DualMap.Foundation.PurgedWindow
import DualMap.Entities.RequestRate
import DualMap.Client.OpenAI
import DualMap.Client.Lifecycle
import DualMap.Client.Release
import DualMap.Client.ConcurrentCalls
import DualMap.Client.Report
import DualMap.Scheduler.DoubleHashScheduler
import DualMap.Scheduler.QueuedRequests
import DualMap.Scheduler.Readings
import DualMap.Scheduler.RebalanceSafety
import DualMap.Scheduler.Conservation
import DualMap.Scheduler.DispatchCap
import DualMap.Scheduler.PlacementRoom
import DualMap.Scheduler.DispatchCoherence
import DualMap.Scheduler.CallSteps
import DualMap.Scheduler.Progress
import DualMap.Preble.SplitNodes
import DualMap.Preble.Stealing
import DualMap.Preble.SchedulingSafety
import DualMap.Preble.SplitPaths
import DualMap.Preble.InsertedRequest
import DualMap.Preble.RequestPath
import DualMap.Preble.NodeDepths
import DualMap.Preble.SchedulerRuns
import DualMap.Preble.PrefillCosts
import DualMap.Preble.WindowAttribution
import DualMap.Preble.PathAllocation
import DualMap.Preble.ReplicaChoice
import DualMap.Preble.RequestRouterProxy
import DualMap.Preble.Reservations
import DualMap.Preble.ExactSums
import DualMap.Preble.WindowRuns
import DualMap.Foundation.HeapOrder
import DualMap.Scheduler.AdmissionBatch
import DualMap.Scheduler.WaitPrediction
import DualMap.Scheduler.SloPlacement
import DualMap.Scheduler.CacheAffinity
import DualMap.Scheduler.LazyPrefixTable
import DualMap.Scheduler.PrefixExpansion
import DualMap.Scheduler.HotPrefixWindow
import DualMap.Scheduler.PrefixLookup
import DualMap.Foundation.ObservedWindow
import DualMap.Scheduler.EarnedExpansion
import DualMap.Foundation.PyInt
import DualMap.RequestGenerator.RequestGenerator
import DualMap.RequestGenerator.TraceReplay
import DualMap.Cache.EvictionTermination
import DualMap.Metrics.MetricsStore
import DualMap.Metrics.CleanFlag
import DualMap.Foundation.QuotaDrain
import DualMap.Preble.EvictionVictims
import DualMap.Preble.EvictionOutcome
import DualMap.Preble.AccessTimes
import DualMap.Preble.CachedPrefixes
import DualMap.Preble.VirtualEviction
import DualMap.Preble.StolenNodes
import DualMap.Preble.LoadInversion
import DualMap.Foundation.BlockExpansion
import DualMap.Evaluation.ProcessDataset
import DualMap.Evaluation.PromptSharing
import DualMap.Evaluation.ReplayedTrace
import DualMap.Router.Handshake
import DualMap.Router.RoundRobin
import DualMap.Router.PostingTasks
import DualMap.Router.PostingRegister
import DualMap.Router.Serving
import DualMap.Foundation.Csv
import DualMap.Metrics.LoadCache
import DualMap.Metrics.SavedMetrics
import DualMap.Foundation.BatchLruInclusion
import DualMap.Cache.CacheSizes
import DualMap.Foundation.GreedyLoads
import DualMap.Scheduler.MinLoadSchedulers
import DualMap.Scheduler.LoadBalance
