import Rolly.Exporter
import Rolly.MetricsThreads
import Rolly.OtlpMetrics

/-!
# The telemetry stack

What `init` builds for the metrics: the shared registry, the exporter, the
task that collects the one and sends to the other, and the guard. The layer
and the threads of the program do what they like.
-/

namespace Rolly.Telemetry

open Proto3 (Bytes)
open Exporter (ExporterConfig BackpressureStrategy Call)
open Metrics (MetricsRegistry Pc)

structure TelemetryConfig where
  serviceName : String
  serviceVersion : String
  environment : String
  otlpTracesEndpoint : Option String
  otlpLogsEndpoint : Option String
  otlpMetricsEndpoint : Option String
  backpressureStrategy : BackpressureStrategy := .drop
  resourceAttributes : List (String × String)

def exporterConfig (config : TelemetryConfig) : ExporterConfig where
  tracesUrl := config.otlpTracesEndpoint.map fun ep => ep ++ "/v1/traces"
  logsUrl := config.otlpLogsEndpoint.map fun ep => ep ++ "/v1/logs"
  metricsUrl := config.otlpMetricsEndpoint.map fun ep => ep ++ "/v1/metrics"
  channelCapacity := 1024
  batchSize := 512
  maxConcurrentExports := 4
  backpressureStrategy := config.backpressureStrategy

def resourceAttrs (config : TelemetryConfig) : List KeyValue :=
  [⟨"service.name", .string config.serviceName⟩,
    ⟨"service.version", .string config.serviceVersion⟩,
    ⟨"deployment.environment", .string config.environment⟩] ++
  config.resourceAttributes.map fun (k, v) => ⟨k, .string v⟩

-- ---------------------------------------------------------------------------
-- States
-- ---------------------------------------------------------------------------

structure MetricsRequest where
  snapshots : List MetricSnapshot
  startTime : UInt64
  now : UInt64
  deriving DecidableEq, Repr

def MetricsRequest.encode (config : TelemetryConfig) (request : MetricsRequest) : Option Bytes :=
  encodeExportMetricsRequest (resourceAttrs config) "rolly" config.serviceVersion
    request.snapshots request.startTime request.now

/-- `metrics_aggregation_loop`: before its clock starts, between two ticks, in
`registry.collect()` or about to send what that returned. It is gone if it was
never spawned, or after a panic. -/
inductive Loop
  | starting
  | waiting
  | collecting
  | sending (snapshots : List MetricSnapshot)
  | gone
  deriving DecidableEq, Repr

/-- The guard: alive, or in `drop` before its flush has a slot, waiting for the
answer to flush `done`, with that answer, after its `shutdown`, or dropped. -/
inductive Guard
  | held
  | dropping
  | flushing (done : Nat)
  | acknowledged (done : Nat)
  | stopping
  | gone
  deriving DecidableEq, Repr

/-- The last four fields are history that no step reads. -/
structure State where
  shared : Metrics.State
  exporter : Exporter.State
  loop : Loop
  guard : Guard := .held
  startTime : UInt64 := 0
  -- what was passed to `send_metrics`, the registry's log when the last tick
  -- was over and when the drop of the guard began, and if that panicked
  handed : List MetricsRequest := []
  ticked : List Metrics.Event := []
  dropped : List Metrics.Event := []
  panicked : Bool := false
  deriving DecidableEq, Repr

/-- The aggregation loop is thread 0 of the registry. -/
def loopThread : Nat := 0

/-- `init` clones a handle for the layer if there is one, and one for the loop;
the guard has the first. There is no stack without an endpoint. -/
def init (config : TelemetryConfig) (threads : Nat) : Option State :=
  let exportTraces := config.otlpTracesEndpoint.isSome
  let exportLogs := config.otlpLogsEndpoint.isSome
  let exportMetrics := config.otlpMetricsEndpoint.isSome
  let clone (wanted : Bool) (exporter : Exporter.State) : Option Exporter.State :=
    if wanted then Exporter.step (exporterConfig config) (.call .clone) exporter else some exporter
  if exportTraces || exportLogs || exportMetrics then do
    let exporter ← Exporter.start (exporterConfig config)
    let exporter ← clone (exportTraces || exportLogs) exporter
    let exporter ← clone exportMetrics exporter
    return { shared := Metrics.start MetricsRegistry.new.defaultMaxCardinality (threads + 1)
             exporter, loop := if exportMetrics then .starting else .gone }
  else none

-- ---------------------------------------------------------------------------
-- Steps
-- ---------------------------------------------------------------------------

namespace State

def onRegistry (a : Metrics.Action) (s : State) : Option State :=
  (Metrics.step a s.shared).map fun shared => { s with shared }

def onExporter (config : TelemetryConfig) (a : Exporter.Action) (s : State) : Option State :=
  (Exporter.step (exporterConfig config) a s.exporter).map fun exporter => { s with exporter }

/-- `encode_export_metrics_request` and `send_metrics`. A panic takes the loop
and its handle. -/
def send (config : TelemetryConfig) (request : MetricsRequest) (s : State) : Option State :=
  match request.encode config with
  | some data => (s.onExporter config (.call (.sendMetrics data))).map fun t =>
    { t with loop := .waiting, handed := s.handed ++ [request], ticked := s.shared.log }
  | none => (s.onExporter config (.call .drop)).map fun t => { t with loop := .gone }

end State

def afterStep (pc : Option Pc) (a : Metrics.Action) : Loop :=
  match pc, a with
  | some (.visit .histogram [] snapshots), .release _ => .sending snapshots
  | _, _ => .collecting

/-- What the exporter and the layer do by themselves. A pending `send` is the
guard's, and fills its slot when it is polled. -/
def unattended (config : TelemetryConfig) : Exporter.Action → Bool
  | .call (.sendTraces _) => config.otlpTracesEndpoint.isSome
  | .call (.sendLogs _) => config.otlpLogsEndpoint.isSome
  | .call (.push _) => true
  | .call _ => false
  | _ => true

inductive Action
  -- the threads of the program; the exporter and the layer
  | program (a : Metrics.Action)
  | exporter (a : Exporter.Action)
  -- the aggregation loop
  | start (now : UInt64)
  | tick
  | collect (a : Metrics.Action)
  | send (now : UInt64)
  -- the guard
  | drop (runtime inside : Bool)
  | flush
  | acknowledge
  | shutdown
  | release
  deriving DecidableEq, Repr

/-- The guard flushes only if it can build a runtime and wait in it: `block_on`
panics on a thread that is inside a runtime already. -/
def step (config : TelemetryConfig) : Action → State → Option State
  | .program a, s => if a.thread = loopThread then none else s.onRegistry a
  | .exporter a, s => if unattended config a then s.onExporter config a else none
  | .start now, s =>
    match s.loop with
    | .starting => some { s with loop := .waiting, startTime := now }
    | _ => none
  | .tick, s =>
    match s.loop with
    | .waiting => (s.onRegistry (.collect loopThread)).map fun t => { t with loop := .collecting }
    | _ => none
  | .collect a, s =>
    match s.loop with
    | .collecting =>
      if a.thread = loopThread then
        (s.onRegistry a).map fun t =>
          { t with loop := afterStep s.shared.threads[loopThread]? a }
      else none
    | _ => none
  | .send now, s =>
    match s.loop with
    | .sending snapshots =>
      if snapshots.isEmpty then some { s with loop := .waiting, ticked := s.shared.log }
      else s.send config ⟨snapshots, s.startTime, now⟩
    | _ => none
  | .drop runtime inside, s =>
    match s.guard with
    | .held =>
      if runtime && !inside then some { s with guard := .dropping, dropped := s.shared.log }
      -- the handle of the guard goes, also when the panic unwinds
      else (s.onExporter config (.call .drop)).map fun t =>
        { t with guard := .gone, panicked := runtime }
    | _ => none
  | .flush, s =>
    match s.guard with
    | .dropping => (s.onExporter config (.call .flush)).map fun t =>
      { t with guard := .flushing s.exporter.channel.nextDone }
    | _ => none
  | .acknowledge, s =>
    match s.guard with
    | .flushing done =>
      if done ∈ s.exporter.replies then some { s with guard := .acknowledged done } else none
    | _ => none
  | .shutdown, s =>
    match s.guard with
    | .acknowledged _ => (s.onExporter config (.call .shutdown)).map fun t =>
      { t with guard := .stopping }
    | _ => none
  | .release, s =>
    match s.guard with
    | .stopping =>
      if .shutdown ∈ s.exporter.channel.pending then none
      else (s.onExporter config (.call .drop)).map fun t => { t with guard := .gone }
    | _ => none

def telemetry (config : TelemetryConfig) : Machine State Action where
  init s := ∃ threads, init config threads = some s
  step := step config

end Rolly.Telemetry
