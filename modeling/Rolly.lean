import Rolly.Lib.Binary64
import Rolly.Lib.Proto3
import Rolly.Lib.Machine
import Rolly.Lib.Fairness
import Rolly.Proto
import Rolly.ProtoLaws
import Rolly.ProtoVarints
import Rolly.ProtoReads
import Rolly.OtlpTrace
import Rolly.OtlpLog
import Rolly.MetricSnapshot
import Rolly.OtlpMetrics
import Rolly.OtlpTrees
import Rolly.OtlpDecode
import Rolly.OtlpRoundTrip
import Rolly.LogRoundTrip
import Rolly.TraceRoundTrip
import Rolly.MetricsRoundTrip
import Rolly.AttributeRoundTrip
import Rolly.ExporterChannel
import Rolly.ExporterTasks
import Rolly.Exporter
import Rolly.ExporterLaws
import Rolly.ExporterConservation
import Rolly.ExporterReplies
import Rolly.ExporterPermits
import Rolly.ExporterWork
import Rolly.ExporterLiveness
import Rolly.ExporterDelivery
import Rolly.ExporterControl
import Rolly.ExporterBounds
import Rolly.Batching
import Rolly.Lib.KeyedTable
import Rolly.Lib.Dedup
import Rolly.Lib.Tally
import Rolly.Lib.Words
import Rolly.Metrics
import Rolly.MetricsRegistry
import Rolly.MetricsLaws
import Rolly.MetricsThreads
import Rolly.MetricsLinearized
import Rolly.MetricsReference
import Rolly.MetricsSortedKeys
import Rolly.MetricsRefinement
import Rolly.MetricsPermuted
import Rolly.MetricsHashKeys
import Rolly.MetricsAccepted
import Rolly.MetricsCaptured
import Rolly.MetricsMonotonic
import Rolly.MetricsBuckets
import Rolly.MetricsStatistics
import Rolly.MetricsUnordered
import Rolly.TraceId
import Rolly.TraceIdLaws
import Rolly.TraceIdCodec
import Rolly.Lib.Binary64Rounding
import Rolly.SamplingRate
import Rolly.OtlpLayer
import Rolly.OtlpLayerLaws
import Rolly.OtlpLayerForest
import Rolly.OtlpLayerSampling
import Rolly.OtlpLayerEvents
import Rolly.OtlpLayerRecords
import Rolly.OtlpLayerIntegers
import Rolly.OtlpLayerReentry
import Rolly.OtlpLayerReentryLaws
import Rolly.MetricsExemplars
import Rolly.MetricsCollecting
import Rolly.Lib.Locks
import Rolly.MetricsLocks
import Rolly.MetricsLocksLaws
import Rolly.MetricsDeadlock
import Rolly.MetricsTermination
import Rolly.MetricsSections
import Rolly.Telemetry
import Rolly.TelemetryLaws
import Rolly.TelemetryShutdown
import Rolly.TelemetryDrop
import Rolly.TelemetryDelivery
import Rolly.TelemetryStream
import Rolly.CfRequestId
import Rolly.RequestFuture
import Rolly.RequestFutureLaws
import Rolly.Propagation
import Rolly.UseMetrics
import Rolly.UseMetricsLaws
import Rolly.Pipeline
import Rolly.PipelineLaws
