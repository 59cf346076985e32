import CtvAttribution.Models
import CtvAttribution.Library.WatermarkJoin
import CtvAttribution.Resolver
import CtvAttribution.Attribution
import CtvAttribution.Library.Fallible
import CtvAttribution.Library.PartialAgreement
import CtvAttribution.LastTouch
import CtvAttribution.ResolvedStreams
import CtvAttribution.Dataflow
import CtvAttribution.StreamingPass
import CtvAttribution.EngineRows
import CtvAttribution.CheckedTimes
import CtvAttribution.EngineParity
import CtvAttribution.OrderIndependence
import CtvAttribution.DeviceGraph
import CtvAttribution.HotPathRows
import CtvAttribution.Lake
import CtvAttribution.Library.Script
import CtvAttribution.Library.Interleaving
import CtvAttribution.Reconcile
import CtvAttribution.CheckedReconcile
import CtvAttribution.HotAgreement
import CtvAttribution.CurrentRows
import CtvAttribution.ReconcileMatcher
import CtvAttribution.DayRecovery
import CtvAttribution.Settlement
import CtvAttribution.BucketedReconcile
import CtvAttribution.LandedRun
import CtvAttribution.EndToEnd
import CtvAttribution.Rollup
import CtvAttribution.Serving
import CtvAttribution.Orchestration
import CtvAttribution.SystemRuns
import CtvAttribution.SoundStates
import CtvAttribution.TableLoads
import CtvAttribution.ReconcilePass
import CtvAttribution.PassConvergence
import CtvAttribution.RollupKeys
import CtvAttribution.CheckedMoney
import CtvAttribution.ReachableStates
import CtvAttribution.InterruptedPass
import CtvAttribution.CorrectionOrder
import CtvAttribution.RollupBookkeeping
import CtvAttribution.RollupFreshness
import CtvAttribution.ServingProjection
import CtvAttribution.ServingReplay
import CtvAttribution.DayLoadRuns
import CtvAttribution.ServerCalendar
import CtvAttribution.RepeatedLoads
import CtvAttribution.EngineRetries
import CtvAttribution.RefreshRaces
import CtvAttribution.LogVersions
import CtvAttribution.Generator
import CtvAttribution.GeneratedStreams
import CtvAttribution.TrueCredits
import CtvAttribution.DestructiveReplay
import CtvAttribution.Library.Stopping
import CtvAttribution.MarkerRuns
import CtvAttribution.ReportHistory
import CtvAttribution.SnapshotTwins
import CtvAttribution.Restatement
import CtvAttribution.StreamStates
import CtvAttribution.EvictionFree
import CtvAttribution.CampaignReport
import CtvAttribution.CheckedReport
import CtvAttribution.GraphCompaction
import CtvAttribution.ReconciledPicks
import CtvAttribution.AgentTranscripts
import CtvAttribution.AgentOutcomes
import CtvAttribution.WindowWidening
import CtvAttribution.TopicDrain
import CtvAttribution.ProfileGrammar
import CtvAttribution.WindowEdge
import CtvAttribution.ObservationBuilt
import CtvAttribution.Library.DateTimes
import CtvAttribution.RowTimes
import CtvAttribution.LandedRows
import CtvAttribution.RowTrips
import CtvAttribution.LakeFiles
import CtvAttribution.Library.PartitionedTable
import CtvAttribution.PassParity
import CtvAttribution.PassCounts
import CtvAttribution.Accuracy
import CtvAttribution.AccuracyRuns
import CtvAttribution.Library.StopTriples
import CtvAttribution.EngineMetrics
import CtvAttribution.Library.MergeTree
import CtvAttribution.Library.Parties
import CtvAttribution.MigrationCrashes
import CtvAttribution.MigrationRaces
import CtvAttribution.AgentContext
import CtvAttribution.StorageMerges
import CtvAttribution.RollupBench
import CtvAttribution.Library.JsonText
import CtvAttribution.Library.JsonLines
import CtvAttribution.Serialize
import CtvAttribution.Replays
import CtvAttribution.SeedWire
