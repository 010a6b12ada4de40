import Mathlib.Algebra.GroupWithZero.Nat
import Rolly.MetricSnapshot
import Rolly.OtlpLog
import Rolly.Lib.Proto3

/-!
# Reading OTLP requests

A strict proto3 decoder for the messages the encoders name in their comments,
by field number and wire type. Embedded messages merge, repeated fields
append, of a oneof the last member read stays, unknown fields are skipped. A
known field with another wire type, invalid UTF-8 and an unknown enumeration
number are errors.
-/

namespace Rolly.Otlp

open Proto3

/-- A field the message does not know; `known` lists those it does. -/
def skipUnknown (known : List Nat) (s : σ) (f : Field) : Option σ :=
  if f.number ∈ known then none else some s

-- ---------------------------------------------------------------------------
-- Common messages
-- ---------------------------------------------------------------------------

/-- The `value` oneof of an AnyValue message. -/
abbrev OneofValue := Option AnyValue

def mergeAnyValue (v : OneofValue) (f : Field) : Option OneofValue :=
  match f.number, f.payload with
  | 1, .len b => do
    let s ← decodeUtf8 b
    some (some (.string s))
  | 2, .varint w => some (some (.bool (w != 0)))
  | 3, .varint w => some (some (.int w.toInt64))
  | 4, .fixed64 w => some (some (.double ⟨w⟩))
  | 7, .len b => some (some (.bytes b))
  | _, _ => skipUnknown [1, 2, 3, 4, 7] v f

structure KeyValue where
  key : String := ""
  value : Option OneofValue := none
  deriving DecidableEq, Repr

def mergeKeyValue (kv : KeyValue) (f : Field) : Option KeyValue :=
  match f.number, f.payload with
  | 1, .len b => do
    let key ← decodeUtf8 b
    some { kv with key }
  | 2, .len b => do
    let value ← decodeMessage mergeAnyValue (kv.value.getD none) b
    some { kv with value := some value }
  | _, _ => skipUnknown [1, 2] kv f

structure Resource where
  attributes : List KeyValue := []
  deriving DecidableEq, Repr

def mergeResource (r : Resource) (f : Field) : Option Resource :=
  match f.number, f.payload with
  | 1, .len b => do
    let kv ← decodeMessage mergeKeyValue {} b
    some { r with attributes := r.attributes ++ [kv] }
  | _, _ => skipUnknown [1] r f

structure Scope where
  name : String := ""
  version : String := ""
  deriving DecidableEq, Repr

def mergeScope (s : Scope) (f : Field) : Option Scope :=
  match f.number, f.payload with
  | 1, .len b => do
    let name ← decodeUtf8 b
    some { s with name }
  | 2, .len b => do
    let version ← decodeUtf8 b
    some { s with version }
  | _, _ => skipUnknown [1, 2] s f

-- ---------------------------------------------------------------------------
-- The envelope
-- ---------------------------------------------------------------------------

/-- ScopeSpans, ScopeLogs or ScopeMetrics. -/
structure ScopeItems (α : Type) where
  scope : Option Scope := none
  items : List α := []
  deriving DecidableEq, Repr

/-- ResourceSpans, ResourceLogs or ResourceMetrics. -/
structure ResourceItems (α : Type) where
  resource : Option Resource := none
  scopes : List (ScopeItems α) := []
  deriving DecidableEq, Repr

/-- ExportTraceServiceRequest, ExportLogsServiceRequest or
ExportMetricsServiceRequest. -/
structure Request (α : Type) where
  resources : List (ResourceItems α) := []
  deriving DecidableEq, Repr

section
variable (mergeItem : α → Field → Option α) (init : α)

def mergeScopeItems (s : ScopeItems α) (f : Field) : Option (ScopeItems α) :=
  match f.number, f.payload with
  | 1, .len b => do
    let scope ← decodeMessage mergeScope (s.scope.getD {}) b
    some { s with scope := some scope }
  | 2, .len b => do
    let item ← decodeMessage mergeItem init b
    some { s with items := s.items ++ [item] }
  | _, _ => skipUnknown [1, 2] s f

def mergeResourceItems (r : ResourceItems α) (f : Field) : Option (ResourceItems α) :=
  match f.number, f.payload with
  | 1, .len b => do
    let resource ← decodeMessage mergeResource (r.resource.getD {}) b
    some { r with resource := some resource }
  | 2, .len b => do
    let scope ← decodeMessage (mergeScopeItems mergeItem init) {} b
    some { r with scopes := r.scopes ++ [scope] }
  | _, _ => skipUnknown [1, 2] r f

def mergeRequest (r : Request α) (f : Field) : Option (Request α) :=
  match f.number, f.payload with
  | 1, .len b => do
    let resource ← decodeMessage (mergeResourceItems mergeItem init) {} b
    some { r with resources := r.resources ++ [resource] }
  | _, _ => skipUnknown [1] r f

def decodeRequest (bs : Bytes) : Option (Request α) :=
  decodeMessage (mergeRequest mergeItem init) {} bs

end

-- ---------------------------------------------------------------------------
-- Spans
-- ---------------------------------------------------------------------------

def decodeSpanKind : UInt64 → Option SpanKind
  | 0 => some .unspecified
  | 1 => some .internal
  | 2 => some .server
  | 3 => some .client
  | 4 => some .producer
  | 5 => some .consumer
  | _ => none

def decodeStatusCode : UInt64 → Option StatusCode
  | 0 => some .unset
  | 1 => some .ok
  | 2 => some .error
  | _ => none

structure Status where
  message : String := ""
  code : StatusCode := .unset
  deriving DecidableEq, Repr

def mergeStatus (s : Status) (f : Field) : Option Status :=
  match f.number, f.payload with
  | 2, .len b => do
    let message ← decodeUtf8 b
    some { s with message }
  | 3, .varint w => do
    let code ← decodeStatusCode w
    some { s with code }
  | _, _ => skipUnknown [2, 3] s f

structure Span where
  traceId : Bytes := []
  spanId : Bytes := []
  parentSpanId : Bytes := []
  name : String := ""
  kind : SpanKind := .unspecified
  startTimeUnixNano : UInt64 := 0
  endTimeUnixNano : UInt64 := 0
  attributes : List KeyValue := []
  status : Option Status := none
  deriving DecidableEq, Repr

def mergeSpan (s : Span) (f : Field) : Option Span :=
  match f.number, f.payload with
  | 1, .len traceId => some { s with traceId }
  | 2, .len spanId => some { s with spanId }
  | 4, .len parentSpanId => some { s with parentSpanId }
  | 5, .len b => do
    let name ← decodeUtf8 b
    some { s with name }
  | 6, .varint w => do
    let kind ← decodeSpanKind w
    some { s with kind }
  | 7, .fixed64 startTimeUnixNano => some { s with startTimeUnixNano }
  | 8, .fixed64 endTimeUnixNano => some { s with endTimeUnixNano }
  | 9, .len b => do
    let kv ← decodeMessage mergeKeyValue {} b
    some { s with attributes := s.attributes ++ [kv] }
  | 15, .len b => do
    let status ← decodeMessage mergeStatus (s.status.getD {}) b
    some { s with status := some status }
  | _, _ => skipUnknown [1, 2, 4, 5, 6, 7, 8, 9, 15] s f

def decodeExportTraceRequest : Bytes → Option (Request Span) := decodeRequest mergeSpan {}

-- ---------------------------------------------------------------------------
-- Log records
-- ---------------------------------------------------------------------------

abbrev SeverityNumber := Fin 25

instance SeverityNumber.neZero : NeZero 25 := ⟨by decide⟩

def decodeSeverityNumber (w : UInt64) : Option SeverityNumber :=
  if h : w.toNat < 25 then some ⟨w.toNat, h⟩ else none

structure LogRecord where
  timeUnixNano : UInt64 := 0
  severityNumber : SeverityNumber := 0
  severityText : String := ""
  body : Option OneofValue := none
  attributes : List KeyValue := []
  traceId : Bytes := []
  spanId : Bytes := []
  deriving DecidableEq, Repr

def mergeLogRecord (r : LogRecord) (f : Field) : Option LogRecord :=
  match f.number, f.payload with
  | 1, .fixed64 timeUnixNano => some { r with timeUnixNano }
  | 2, .varint w => do
    let severityNumber ← decodeSeverityNumber w
    some { r with severityNumber }
  | 3, .len b => do
    let severityText ← decodeUtf8 b
    some { r with severityText }
  | 5, .len b => do
    let body ← decodeMessage mergeAnyValue (r.body.getD none) b
    some { r with body := some body }
  | 6, .len b => do
    let kv ← decodeMessage mergeKeyValue {} b
    some { r with attributes := r.attributes ++ [kv] }
  | 9, .len traceId => some { r with traceId }
  | 10, .len spanId => some { r with spanId }
  | _, _ => skipUnknown [1, 2, 3, 5, 6, 9, 10] r f

def decodeExportLogsRequest : Bytes → Option (Request LogRecord) := decodeRequest mergeLogRecord {}

-- ---------------------------------------------------------------------------
-- Metrics
-- ---------------------------------------------------------------------------

structure Exemplar where
  timeUnixNano : UInt64 := 0
  value : Option ExemplarValue := none
  spanId : Bytes := []
  traceId : Bytes := []
  deriving DecidableEq, Repr

def mergeExemplar (e : Exemplar) (f : Field) : Option Exemplar :=
  match f.number, f.payload with
  | 2, .fixed64 timeUnixNano => some { e with timeUnixNano }
  | 3, .fixed64 w => some { e with value := some (.double ⟨w⟩) }
  | 4, .len spanId => some { e with spanId }
  | 5, .len traceId => some { e with traceId }
  | 6, .fixed64 w => some { e with value := some (.int w.toInt64) }
  | _, _ => skipUnknown [2, 3, 4, 5, 6] e f

inductive NumberValue
  | asDouble (v : F64)
  | asInt (v : Int64)
  deriving DecidableEq, Repr

structure NumberDataPoint where
  attributes : List KeyValue := []
  startTimeUnixNano : UInt64 := 0
  timeUnixNano : UInt64 := 0
  value : Option NumberValue := none
  exemplars : List Exemplar := []
  deriving DecidableEq, Repr

def mergeNumberDataPoint (p : NumberDataPoint) (f : Field) : Option NumberDataPoint :=
  match f.number, f.payload with
  | 2, .fixed64 startTimeUnixNano => some { p with startTimeUnixNano }
  | 3, .fixed64 timeUnixNano => some { p with timeUnixNano }
  | 4, .fixed64 w => some { p with value := some (.asDouble ⟨w⟩) }
  | 5, .len b => do
    let e ← decodeMessage mergeExemplar {} b
    some { p with exemplars := p.exemplars ++ [e] }
  | 6, .fixed64 w => some { p with value := some (.asInt w.toInt64) }
  | 7, .len b => do
    let kv ← decodeMessage mergeKeyValue {} b
    some { p with attributes := p.attributes ++ [kv] }
  | _, _ => skipUnknown [2, 3, 4, 5, 6, 7] p f

inductive AggregationTemporality
  | unspecified | delta | cumulative
  deriving DecidableEq, Repr

def decodeTemporality : UInt64 → Option AggregationTemporality
  | 0 => some .unspecified
  | 1 => some .delta
  | 2 => some .cumulative
  | _ => none

structure Sum where
  dataPoints : List NumberDataPoint := []
  aggregationTemporality : AggregationTemporality := .unspecified
  isMonotonic : Bool := false
  deriving DecidableEq, Repr

def mergeSum (s : Sum) (f : Field) : Option Sum :=
  match f.number, f.payload with
  | 1, .len b => do
    let p ← decodeMessage mergeNumberDataPoint {} b
    some { s with dataPoints := s.dataPoints ++ [p] }
  | 2, .varint w => do
    let aggregationTemporality ← decodeTemporality w
    some { s with aggregationTemporality }
  | 3, .varint w => some { s with isMonotonic := w != 0 }
  | _, _ => skipUnknown [1, 2, 3] s f

structure Gauge where
  dataPoints : List NumberDataPoint := []
  deriving DecidableEq, Repr

def mergeGauge (g : Gauge) (f : Field) : Option Gauge :=
  match f.number, f.payload with
  | 1, .len b => do
    let p ← decodeMessage mergeNumberDataPoint {} b
    some { g with dataPoints := g.dataPoints ++ [p] }
  | _, _ => skipUnknown [1] g f

structure HistogramDataPoint where
  startTimeUnixNano : UInt64 := 0
  timeUnixNano : UInt64 := 0
  count : UInt64 := 0
  sum : Option F64 := none
  bucketCounts : List UInt64 := []
  explicitBounds : List F64 := []
  exemplars : List Exemplar := []
  attributes : List KeyValue := []
  min : Option F64 := none
  max : Option F64 := none
  deriving DecidableEq, Repr

/-- The repeated fields 6 and 7 are read packed or one by one. -/
def mergeHistogramDataPoint (p : HistogramDataPoint) (f : Field) : Option HistogramDataPoint :=
  match f.number, f.payload with
  | 2, .fixed64 startTimeUnixNano => some { p with startTimeUnixNano }
  | 3, .fixed64 timeUnixNano => some { p with timeUnixNano }
  | 4, .fixed64 count => some { p with count }
  | 5, .fixed64 w => some { p with sum := some ⟨w⟩ }
  | 6, .len b => do
    let ws ← decodePacked64 b
    some { p with bucketCounts := p.bucketCounts ++ ws }
  | 6, .fixed64 w => some { p with bucketCounts := p.bucketCounts ++ [w] }
  | 7, .len b => do
    let ws ← decodePacked64 b
    some { p with explicitBounds := p.explicitBounds ++ ws.map F64.mk }
  | 7, .fixed64 w => some { p with explicitBounds := p.explicitBounds ++ [⟨w⟩] }
  | 8, .len b => do
    let e ← decodeMessage mergeExemplar {} b
    some { p with exemplars := p.exemplars ++ [e] }
  | 9, .len b => do
    let kv ← decodeMessage mergeKeyValue {} b
    some { p with attributes := p.attributes ++ [kv] }
  | 11, .fixed64 w => some { p with min := some ⟨w⟩ }
  | 12, .fixed64 w => some { p with max := some ⟨w⟩ }
  | _, _ => skipUnknown [2, 3, 4, 5, 6, 7, 8, 9, 11, 12] p f

structure Histogram where
  dataPoints : List HistogramDataPoint := []
  aggregationTemporality : AggregationTemporality := .unspecified
  deriving DecidableEq, Repr

def mergeHistogram (h : Histogram) (f : Field) : Option Histogram :=
  match f.number, f.payload with
  | 1, .len b => do
    let p ← decodeMessage mergeHistogramDataPoint {} b
    some { h with dataPoints := h.dataPoints ++ [p] }
  | 2, .varint w => do
    let aggregationTemporality ← decodeTemporality w
    some { h with aggregationTemporality }
  | _, _ => skipUnknown [1, 2] h f

/-- The `data` oneof of a Metric message. -/
inductive Data
  | gauge (g : Gauge)
  | sum (s : Sum)
  | histogram (h : Histogram)
  deriving DecidableEq, Repr

structure Metric where
  name : String := ""
  description : String := ""
  data : Option Data := none
  deriving DecidableEq, Repr

def mergeMetric (m : Metric) (f : Field) : Option Metric :=
  match f.number, f.payload with
  | 1, .len b => do
    let name ← decodeUtf8 b
    some { m with name }
  | 2, .len b => do
    let description ← decodeUtf8 b
    some { m with description }
  | 5, .len b => do
    let init := match m.data with | some (.gauge g) => g | _ => {}
    let g ← decodeMessage mergeGauge init b
    some { m with data := some (.gauge g) }
  | 7, .len b => do
    let init := match m.data with | some (.sum s) => s | _ => {}
    let s ← decodeMessage mergeSum init b
    some { m with data := some (.sum s) }
  | 9, .len b => do
    let init := match m.data with | some (.histogram h) => h | _ => {}
    let h ← decodeMessage mergeHistogram init b
    some { m with data := some (.histogram h) }
  | _, _ => skipUnknown [1, 2, 5, 7, 9] m f

def decodeExportMetricsRequest : Bytes → Option (Request Metric) := decodeRequest mergeMetric {}

end Rolly.Otlp
