import VllmObserver.Lib.Dict
import VllmObserver.Lib.Tiling
import VllmObserver.Lib.StableSort
import VllmObserver.Lib.Runs
import VllmObserver.Lib.Num
import VllmObserver.Lib.Climb
import VllmObserver.Lib.Layered
import VllmObserver.Lib.Ledger
import VllmObserver.Lib.Interleave
import VllmObserver.Core.Plain
import VllmObserver.Core.Trace
import VllmObserver.Core.Text
import VllmObserver.Core.Utf8
import VllmObserver.Core.JsonText
import VllmObserver.Core.JsonScan
import VllmObserver.Core.JsonLiteral
import VllmObserver.Core.JsonDump
import VllmObserver.Core.JsonRoundTrip
import VllmObserver.Core.JsonLine
import VllmObserver.Exporter.Timeline
import VllmObserver.Exporter.TimelineShape
import VllmObserver.Exporter.TimelineDetails
import VllmObserver.Exporter.TimelineResult
import VllmObserver.Exporter.TimelinePartition
import VllmObserver.Exporter.TimelineTree
import VllmObserver.Exporter.TimelineOrder
import VllmObserver.Exporter.TimelineSegments
import VllmObserver.Exporter.TimelineLabels
import VllmObserver.Exporter.TimelineAttribution
import VllmObserver.Exporter.TimelineContainment
import VllmObserver.Exporter.TimelineIntervals
import VllmObserver.Exporter.Sink
import VllmObserver.Exporter.SinkGenerations
import VllmObserver.Exporter.AsyncExport
import VllmObserver.Exporter.ExportShutdown
import VllmObserver.Exporter.Threshold
import VllmObserver.Stages.Collect
import VllmObserver.Stages.TimedCalls
import VllmObserver.Adapter.Record
import VllmObserver.Adapter.Traced
import VllmObserver.Adapter.Accepted
import VllmObserver.Adapter.Fidelity
import VllmObserver.Adapter.Growth
import VllmObserver.Adapter.Recorders
import VllmObserver.Adapter.Delivery
import VllmObserver.Adapter.Correlation
import VllmObserver.Adapter.SecondCall
import VllmObserver.Adapter.TraceRuns
import VllmObserver.Stages.Executor
import VllmObserver.Stages.Registry
import VllmObserver.Stages.Deadline
import VllmObserver.Stages.DeadlineRuns
import VllmObserver.Stages.Lifetime
import VllmObserver.Stages.RecordInvariant
import VllmObserver.Stages.EngineClock
import VllmObserver.Stages.Transport
import VllmObserver.Stages.Contention
import VllmObserver.Stages.Classification
import VllmObserver.Adapter.FinalOutput
import VllmObserver.Adapter.Calibration
import VllmObserver.Adapter.StageTransport
import VllmObserver.Adapter.StagePayload
import VllmObserver.Adapter.Judged
import VllmObserver.Adapter.TimelineCalls
import VllmObserver.Adapter.BadClock
import VllmObserver.Adapter.FinishOrder
import VllmObserver.Adapter.Aggregates
import VllmObserver.Middleware.Headers
import VllmObserver.Middleware.Content
import VllmObserver.Middleware.Call
import VllmObserver.Middleware.Concurrent
import VllmObserver.Middleware.Status
import VllmObserver.Middleware.Capture
import VllmObserver.Middleware.Stream
import VllmObserver.Middleware.Instrumented
import VllmObserver.Middleware.TraceIdentity
import VllmObserver.Metrics.Registry
import VllmObserver.Metrics.Filter
import VllmObserver.Metrics.Sound
import VllmObserver.Metrics.Complete
import VllmObserver.Metrics.Accounting
import VllmObserver.Filters.Chain
import VllmObserver.Filters.Console
import VllmObserver.Filters.Pipeline
import VllmObserver.Scripts.Speedscope
import VllmObserver.Scripts.Audit
import VllmObserver.Scripts.AuditedRequest
import VllmObserver.RemoteWrite.Push
import VllmObserver.RemoteWrite.Encode
import VllmObserver.Bootstrap.Objects
import VllmObserver.Bootstrap.Install
import VllmObserver.Bootstrap.Loading
import VllmObserver.Bootstrap.Effects
import VllmObserver.Bootstrap.Growth
import VllmObserver.Bootstrap.Once
import VllmObserver.Bootstrap.Steps
import VllmObserver.Bootstrap.Coverage
import VllmObserver.Bootstrap.Idempotence
import VllmObserver.Bootstrap.Startup
import VllmObserver.Lib.AsyncGen
import VllmObserver.Adapter.ObservedGenerate
import VllmObserver.Adapter.GenerateCalls
import VllmObserver.Adapter.CallLifecycle
import VllmObserver.Middleware.Lifespan
import VllmObserver.Stages.ObservedEngine
