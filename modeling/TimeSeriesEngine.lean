import TimeSeriesEngine.Library.EventLog
import TimeSeriesEngine.Library.OrderedSeries
import TimeSeriesEngine.Library.KeyedTable
import TimeSeriesEngine.Library.Transition
import TimeSeriesEngine.Library.SlidingWindows
import TimeSeriesEngine.Library.PiecewiseLinear
import TimeSeriesEngine.Library.MonotoneDeque
import TimeSeriesEngine.Library.LockScripts
import TimeSeriesEngine.Types
import TimeSeriesEngine.SequenceWindow
import TimeSeriesEngine.SequenceContent
import TimeSeriesEngine.SequenceStatistics
import TimeSeriesEngine.WindowService
import TimeSeriesEngine.WindowContent
import TimeSeriesEngine.WindowUpdate
import TimeSeriesEngine.WindowRefinement
import TimeSeriesEngine.Watermark
import TimeSeriesEngine.WindowRuns
import TimeSeriesEngine.ConstraintCheck
import TimeSeriesEngine.Registry
import TimeSeriesEngine.ExternalIndex
import TimeSeriesEngine.UpdateRange
import TimeSeriesEngine.UpdateReport
import TimeSeriesEngine.WindowStatistics
import TimeSeriesEngine.Alignment
import TimeSeriesEngine.GapFilling
import TimeSeriesEngine.GridSlice
import TimeSeriesEngine.RangeAlignment
import TimeSeriesEngine.AffectedRange
import TimeSeriesEngine.DerivedSeries
import TimeSeriesEngine.FormulaValue
import TimeSeriesEngine.HotIngest
import TimeSeriesEngine.IngestFrame
import TimeSeriesEngine.ConstraintScan
import TimeSeriesEngine.AggregatePaths
import TimeSeriesEngine.ComputedViolations
import TimeSeriesEngine.RuleGroups
import TimeSeriesEngine.GroupScan
import TimeSeriesEngine.IngestStep
import TimeSeriesEngine.ConstraintCache
import TimeSeriesEngine.CoreRun
import TimeSeriesEngine.FirstEvaluation
import TimeSeriesEngine.FailingRule
import TimeSeriesEngine.ProjectView
import TimeSeriesEngine.DerivedPublish
import TimeSeriesEngine.DerivedIsolation
import TimeSeriesEngine.DerivedPatch
import TimeSeriesEngine.DerivedRefresh
import TimeSeriesEngine.DerivedStep
import TimeSeriesEngine.FullRefresh
import TimeSeriesEngine.DerivedAgreement
import TimeSeriesEngine.ServiceSlice
import TimeSeriesEngine.RegistrySlice
import TimeSeriesEngine.ProjectIsolation
import TimeSeriesEngine.RegistryReferences
import TimeSeriesEngine.IngestExecutor
import TimeSeriesEngine.ExecutorOwnership
import TimeSeriesEngine.ExecutorCounts
import TimeSeriesEngine.ExecutorHotOrder
import TimeSeriesEngine.ExecutorCompletion
import TimeSeriesEngine.ExecutorRouting
import TimeSeriesEngine.PersistentReport
import TimeSeriesEngine.SilencedClause
import TimeSeriesEngine.TaosClient
import TimeSeriesEngine.ColdQuery
import TimeSeriesEngine.ColdRoundTrip
import TimeSeriesEngine.IngestService
import TimeSeriesEngine.LinearFill
import TimeSeriesEngine.BucketReference
import TimeSeriesEngine.RelationAlignment
import TimeSeriesEngine.AlignmentReference
import TimeSeriesEngine.AnchorReference
import TimeSeriesEngine.ClauseSemantics
import TimeSeriesEngine.OutdatedRules
import TimeSeriesEngine.ConcurrentUpdates
import TimeSeriesEngine.RetainedAnchors
import TimeSeriesEngine.LockedOperations
import TimeSeriesEngine.LockDiscipline
import TimeSeriesEngine.StoredPoints
import TimeSeriesEngine.IngestResolution
import TimeSeriesEngine.ContextQuery
import TimeSeriesEngine.BucketArithmetic
import TimeSeriesEngine.BucketGrid
import TimeSeriesEngine.OffsetSafety
import TimeSeriesEngine.Library.StableSort
import TimeSeriesEngine.HistoryOrder
import TimeSeriesEngine.ProtoConversion
import TimeSeriesEngine.InstanceSync
import TimeSeriesEngine.DerivedReference
import TimeSeriesEngine.FormulaSafety
import TimeSeriesEngine.Library.GreedyGroups
import TimeSeriesEngine.GroupBalance
import TimeSeriesEngine.IntervalInference
import TimeSeriesEngine.Library.BinarySearch
import TimeSeriesEngine.StoredBounds
import TimeSeriesEngine.Library.QuotedText
import TimeSeriesEngine.SqlText
import TimeSeriesEngine.StorageMerge
import TimeSeriesEngine.Library.NestedLocks
import TimeSeriesEngine.ResultReceiver
import TimeSeriesEngine.NotificationExecutor
import TimeSeriesEngine.IngestHandler
import TimeSeriesEngine.BatchSections
import TimeSeriesEngine.ViolationDelivery
import TimeSeriesEngine.ColdLocks
import TimeSeriesEngine.SchemaProtocol
import TimeSeriesEngine.Library.SampleMoments
import TimeSeriesEngine.StatisticsService
import TimeSeriesEngine.RelationStatistics
import TimeSeriesEngine.ServedWindows
import TimeSeriesEngine.StatisticsAgreement
import TimeSeriesEngine.Library.InOrder
import TimeSeriesEngine.ColdWriteOrder
import TimeSeriesEngine.StoreAgreement
import TimeSeriesEngine.AnalysisHandlers
import TimeSeriesEngine.HistoryOverview
import TimeSeriesEngine.HistoryQueryService
