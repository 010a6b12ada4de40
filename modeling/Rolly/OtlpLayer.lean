import Rolly.Lib.Machine
import Rolly.OtlpLog
import Rolly.TraceId

/-!
# The tracing layer

`tracing` keeps the spans, who their parents are and which span is current on
each thread; the layer keeps two extensions on each span and exports a span
when it closes and an event when it happens. Times and random span IDs are
inputs of the callbacks.
-/

namespace Rolly.Layer

open Proto3 (Bytes)

-- ---------------------------------------------------------------------------
-- Fields
-- ---------------------------------------------------------------------------

/-- A field's value by the method of `Visit` that it comes through. A value
with the `%` or `?` sigil comes as the text that its `Debug` writes. -/
inductive FieldValue
  | debug (text : String)
  | str (text : String)
  | i64 (value : Int64)
  | u64 (value : UInt64)
  | bool (value : Bool)
  | f64 (value : F64)
  deriving DecidableEq, Repr

structure FieldCollector where
  attrs : List KeyValue := []
  traceId : Option TraceId := none
  message : Option String := none
  deriving DecidableEq, Repr

namespace FieldCollector

def push (c : FieldCollector) (field : String) (value : AnyValue) : FieldCollector :=
  { c with attrs := c.attrs ++ [⟨field, value⟩] }

def recordDebug (c : FieldCollector) (field text : String) : FieldCollector :=
  if field = "message" then { c with message := some text }
  else c.push field (.string text)

def recordStr (c : FieldCollector) (field value : String) : FieldCollector :=
  if field = "message" then { c with message := some value }
  else
    let c :=
      if field = "trace_id" then
        match hexToBytes16 value with
        | some bytes => { c with traceId := some bytes }
        | none => c
      else c
    c.push field (.string value)

def recordI64 (c : FieldCollector) (field : String) (value : Int64) : FieldCollector :=
  c.push field (.int value)

def recordU64 (c : FieldCollector) (field : String) (value : UInt64) : FieldCollector :=
  c.push field (.int value.toInt64)

def recordBool (c : FieldCollector) (field : String) (value : Bool) : FieldCollector :=
  c.push field (.bool value)

def recordF64 (c : FieldCollector) (field : String) (value : F64) : FieldCollector :=
  c.push field (.double value)

def record (c : FieldCollector) : String × FieldValue → FieldCollector
  | (field, .debug text) => c.recordDebug field text
  | (field, .str text) => c.recordStr field text
  | (field, .i64 value) => c.recordI64 field value
  | (field, .u64 value) => c.recordU64 field value
  | (field, .bool value) => c.recordBool field value
  | (field, .f64 value) => c.recordF64 field value

/-- `record` of a set of values on a new collector. -/
def ofFields (fields : List (String × FieldValue)) : FieldCollector :=
  fields.foldl record {}

end FieldCollector

-- ---------------------------------------------------------------------------
-- Spans
-- ---------------------------------------------------------------------------

structure SpanTiming where
  startNanos : UInt64
  deriving DecidableEq, Repr

structure SpanFields where
  attrs : List KeyValue
  traceId : TraceId
  spanId : SpanId
  parentSpanId : SpanId
  sampled : Bool
  deriving DecidableEq, Repr

/-- A span of the registry; its ID is its place there. `given` are the values it
was created with. -/
structure Span where
  name : String
  parent : Option Nat
  given : List (String × FieldValue)
  closed : Bool := false
  -- extensions
  timing : Option SpanTiming := none
  fields : Option SpanFields := none
  deriving DecidableEq, Repr

inductive Level
  | trace | debug | info | warn | error
  deriving DecidableEq, Repr

def Level.severity : Level → SeverityNumber
  | .trace => .trace
  | .debug => .debug
  | .info => .info
  | .warn => .warn
  | .error => .error

def Level.text : Level → String
  | .trace => "TRACE"
  | .debug => "DEBUG"
  | .info => "INFO"
  | .warn => "WARN"
  | .error => "ERROR"

-- ---------------------------------------------------------------------------
-- Callbacks
-- ---------------------------------------------------------------------------

structure OtlpLayer where
  resourceAttrs : List KeyValue
  scopeName : String
  scopeVersion : String
  exportTraces : Bool
  exportLogs : Bool
  samplingRate : F64
  deriving DecidableEq, Repr

structure OtlpLayerConfig where
  serviceName : String
  serviceVersion : String
  environment : String
  resourceAttributes : List (String × String)
  exportTraces : Bool
  exportLogs : Bool
  samplingRate : F64
  deriving DecidableEq, Repr

/-- A message for the exporter, before it is encoded. -/
inductive Export
  | traces (span : SpanData)
  | logs (log : LogData)
  deriving DecidableEq, Repr

def Export.traceId : Export → TraceId
  | .traces span => span.traceId
  | .logs log => log.traceId

namespace OtlpLayer

/-- `packageVersion` is set when the crate is built. -/
def new (config : OtlpLayerConfig) (packageVersion : String) : OtlpLayer where
  resourceAttrs :=
    [⟨"service.name", .string config.serviceName⟩,
      ⟨"service.version", .string config.serviceVersion⟩,
      ⟨"deployment.environment", .string config.environment⟩] ++
    config.resourceAttributes.map fun (key, value) => ⟨key, .string value⟩
  scopeName := "pz-o11y"
  scopeVersion := packageVersion
  exportTraces := config.exportTraces
  exportLogs := config.exportLogs
  samplingRate := config.samplingRate

def encode (layer : OtlpLayer) : Export → Option Bytes
  | .traces span =>
    encodeExportTraceRequest layer.resourceAttrs layer.scopeName layer.scopeVersion [span]
  | .logs log =>
    encodeExportLogsRequest layer.resourceAttrs layer.scopeName layer.scopeVersion [log]

/-- The extensions that `on_new_span` inserts. -/
def onNewSpan (layer : OtlpLayer) (parent : Option Span) (given : List (String × FieldValue))
    (spanId : SpanId) (now : UInt64) : SpanTiming × SpanFields :=
  let visitor := FieldCollector.ofFields given
  let traceId := visitor.traceId.getD zeroTraceId
  let parentFields := (parent.bind (·.fields)).map fun f => (f.spanId, f.sampled)
  let parentSpanId := (parentFields.map (·.1)).getD zeroSpanId
  let sampled :=
    match parentFields with
    | some (_, parentSampled) => parentSampled
    | none => shouldSample traceId layer.samplingRate
  (⟨now⟩, { attrs := visitor.attrs, traceId, spanId, parentSpanId, sampled })

def onRecord (fields : Option SpanFields) (values : List (String × FieldValue)) :
    Option SpanFields :=
  fields.map fun fields =>
    { fields with attrs := fields.attrs ++ (FieldCollector.ofFields values).attrs }

/-- The log record that an event is exported as. -/
def onEvent (layer : OtlpLayer) (current : Option Span) (level : Level)
    (fields : List (String × FieldValue)) (now : UInt64) : Option LogData :=
  if !layer.exportLogs then none
  else
    let visitor := FieldCollector.ofFields fields
    let (traceId, spanId, sampled) :=
      ((current.bind (·.fields)).map fun f => (f.traceId, f.spanId, f.sampled)).getD
        (zeroTraceId, zeroSpanId, true)
    if !sampled then none
    else some {
      timeUnixNano := now
      severityNumber := level.severity
      severityText := level.text
      body := .string (visitor.message.getD "")
      attributes := visitor.attrs
      traceId := traceId
      spanId := spanId }

/-- The data that a closing span is exported as. -/
def onClose (layer : OtlpLayer) (span : Span) (now : UInt64) : Option SpanData :=
  if !layer.exportTraces then none
  else
    match span.timing, span.fields with
    | some timing, some fields =>
      if !fields.sampled then none
      else some {
        traceId := fields.traceId
        spanId := fields.spanId
        parentSpanId := fields.parentSpanId
        name := span.name
        kind := .internal
        startTimeUnixNano := timing.startNanos
        endTimeUnixNano := now
        attributes := fields.attrs
        status := none }
    | _, _ => none

end OtlpLayer

-- ---------------------------------------------------------------------------
-- The subscriber
-- ---------------------------------------------------------------------------

/-- What was handed to the exporter, and for which span: the one that closed, or
the one that was current at the event. -/
structure Sent where
  span : Option Nat
  message : Export
  data : Option Bytes
  deriving DecidableEq, Repr

/-- How the parent of a new span is given. -/
inductive Parent
  | root
  | contextual
  | explicit (id : Nat)
  deriving DecidableEq, Repr

/-- Each thread's stack of entered spans has its newest entry first; an entry is a duplicate if
its span was entered already. -/
structure State where
  spans : List Span := []
  entered : List (List (Nat × Bool))
  sent : List Sent := []
  deriving DecidableEq, Repr

inductive Action
  | newSpan (thread : Nat) (parent : Parent) (name : String) (given : List (String × FieldValue))
      (spanId : SpanId) (now : UInt64)
  | record (id : Nat) (values : List (String × FieldValue))
  | enter (thread : Nat) (id : Nat)
  | exit (thread : Nat) (id : Nat)
  | event (thread : Nat) (level : Level) (fields : List (String × FieldValue)) (now : UInt64)
  | close (id : Nat) (now : UInt64)
  deriving DecidableEq, Repr

namespace State

def isOpen (s : State) (id : Nat) : Bool := s.spans[id]?.any (!·.closed)

/-- The newest entry that is no duplicate. -/
def current (stack : List (Nat × Bool)) : Option Nat :=
  (stack.find? (!·.2)).map (·.1)

def parentOf (s : State) (stack : List (Nat × Bool)) : Parent → Option (Option Nat)
  | .root => some none
  | .contextual => some (current stack)
  | .explicit id => if s.isOpen id then some (some id) else none

/-- A span stays until it was left everywhere and its children are closed. -/
def closable (s : State) (id : Nat) : Bool :=
  s.isOpen id && s.entered.all (·.all (·.1 ≠ id)) &&
    s.spans.all fun span => span.parent ≠ some id || span.closed

def send (s : State) (layer : OtlpLayer) (span : Option Nat) (message : Option Export) : State :=
  let sent := message.map fun message => { span, message, data := layer.encode message }
  { s with sent := s.sent ++ sent.toList }

end State

def step (layer : OtlpLayer) : Action → State → Option State
  | .newSpan thread parent name given spanId now, s => do
    let stack ← s.entered[thread]?
    let parent ← s.parentOf stack parent
    let (timing, fields) := layer.onNewSpan (parent.bind (s.spans[·]?)) given spanId now
    let span := { name, parent, given, timing := some timing, fields := some fields }
    return { s with spans := s.spans ++ [span] }
  | .record id values, s =>
    if s.isOpen id then
      some { s with
        spans := s.spans.modify id fun span =>
          { span with fields := OtlpLayer.onRecord span.fields values } }
    else none
  | .enter thread id, s => do
    let stack ← s.entered[thread]?
    if s.isOpen id then
      return { s with entered := s.entered.set thread ((id, stack.any (·.1 = id)) :: stack) }
    else none
  | .exit thread id, s => do
    let stack ← s.entered[thread]?
    return { s with entered := s.entered.set thread (stack.eraseP (·.1 = id)) }
  | .event thread level fields now, s => do
    let stack ← s.entered[thread]?
    let current := State.current stack
    let log := layer.onEvent (current.bind (s.spans[·]?)) level fields now
    return s.send layer current (log.map .logs)
  | .close id now, s => do
    let span ← s.spans[id]?
    if s.closable id then
      let s := s.send layer (some id) ((layer.onClose span now).map .traces)
      return { s with spans := s.spans.modify id fun span => { span with closed := true } }
    else none

/-- Any number of threads and no span yet. -/
def tracing (layer : OtlpLayer) : Machine State Action where
  init s := ∃ threads, s = { entered := List.replicate threads [] }
  step := step layer

end Rolly.Layer
