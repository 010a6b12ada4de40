import Rolly.MetricSnapshot

/-!
# The metrics encoders
-/

namespace Rolly

open Proto3 (Bytes)
open Proto

def encodeAttrKeyValue (buf : Bytes) (key value : String) : Option Bytes :=
  let buf := encodeStringField buf 1 key
  -- AnyValue.string_value is field 1
  encodeMessageFieldInPlace buf 2 fun buf => some (encodeStringField buf 1 value)

/-- The `match exemplar.value` of `encode_exemplar`. -/
def encodeExemplarValue (buf : Bytes) : ExemplarValue → Bytes
  | .double v => encodeFixed64FieldAlways buf 3 v.bits
  | .int v => encodeFixed64FieldAlways buf 6 v.toUInt64

def encodeExemplar (buf : Bytes) (exemplar : Exemplar) : Bytes :=
  let buf := encodeFixed64Field buf 2 exemplar.timeUnixNano
  let buf := encodeExemplarValue buf exemplar.value
  let buf := encodeBytesField buf 4 exemplar.spanId.toList
  encodeBytesField buf 5 exemplar.traceId.toList

/-- The `if let Some(ex)` of the three data point encoders, field `field`. -/
def encodeExemplarField (buf : Bytes) (field : UInt32) : Option Exemplar → Option Bytes
  | some ex => encodeMessageFieldInPlace buf field fun buf => some (encodeExemplar buf ex)
  | none => some buf

/-- The `for (k, v) in attrs` of the three data point encoders. -/
def encodeAttrs (buf : Bytes) (field : UInt32) (attrs : Attrs) : Option Bytes :=
  attrs.foldlM
    (fun buf (k, v) => encodeMessageFieldInPlace buf field fun buf => encodeAttrKeyValue buf k v)
    buf

def encodeCounterDataPoint (buf : Bytes) (attrs : Attrs)
    (startTimeUnixNano timeUnixNano : UInt64) (value : Int64) (exemplar : Option Exemplar) :
    Option Bytes := do
  let buf := encodeFixed64Field buf 2 startTimeUnixNano
  let buf := encodeFixed64Field buf 3 timeUnixNano
  let buf ← encodeExemplarField buf 5 exemplar
  -- as_int: field 6, sfixed64 on the wire
  let buf := encodeFixed64FieldAlways buf 6 value.toUInt64
  encodeAttrs buf 7 attrs

def encodeGaugeDataPoint (buf : Bytes) (attrs : Attrs)
    (startTimeUnixNano timeUnixNano : UInt64) (value : F64) (exemplar : Option Exemplar) :
    Option Bytes := do
  let buf := encodeFixed64Field buf 2 startTimeUnixNano
  let buf := encodeFixed64Field buf 3 timeUnixNano
  -- as_double: field 4, before the exemplar
  let buf := encodeFixed64FieldAlways buf 4 value.bits
  let buf ← encodeExemplarField buf 5 exemplar
  encodeAttrs buf 7 attrs

def encodeSum (buf : Bytes) (dataPoints : List CounterDataPoint) (startTime time : UInt64) :
    Option Bytes := do
  let buf ← dataPoints.foldlM (fun buf (attrs, value, exemplar) =>
    encodeMessageFieldInPlace buf 1 fun buf =>
      encodeCounterDataPoint buf attrs startTime time value exemplar) buf
  -- aggregation_temporality: CUMULATIVE = 2
  let buf := encodeVarintField buf 2 2
  -- is_monotonic: true
  return encodeVarintField buf 3 1

def encodeGaugeMsg (buf : Bytes) (dataPoints : List GaugeDataPoint) (startTime time : UInt64) :
    Option Bytes :=
  dataPoints.foldlM (fun buf (attrs, value, exemplar) =>
    encodeMessageFieldInPlace buf 1 fun buf =>
      encodeGaugeDataPoint buf attrs startTime time value exemplar) buf

/-- Fields 9 and 8 are written between 7 and 11. -/
def encodeHistogramDataPoint (buf : Bytes) (dp : HistogramDataPoint) (boundaries : List F64)
    (startTimeUnixNano timeUnixNano : UInt64) : Option Bytes := do
  let buf := encodeFixed64Field buf 2 startTimeUnixNano
  let buf := encodeFixed64Field buf 3 timeUnixNano
  let buf := encodeFixed64FieldAlways buf 4 dp.count
  let buf := encodeFixed64FieldAlways buf 5 dp.sum.bits
  let buf := encodePackedFixed64Field buf 6 dp.bucketCounts
  let buf := encodePackedDoubleField buf 7 boundaries
  let buf ← encodeAttrs buf 9 dp.attrs
  let buf ← encodeExemplarField buf 8 dp.exemplar
  let buf := encodeFixed64FieldAlways buf 11 dp.min.bits
  return encodeFixed64FieldAlways buf 12 dp.max.bits

def encodeHistogramMsg (buf : Bytes) (dataPoints : List HistogramDataPoint)
    (boundaries : List F64) (startTime time : UInt64) : Option Bytes := do
  let buf ← dataPoints.foldlM (fun buf dp =>
    encodeMessageFieldInPlace buf 1 fun buf =>
      encodeHistogramDataPoint buf dp boundaries startTime time) buf
  -- aggregation_temporality: CUMULATIVE = 2
  return encodeVarintField buf 2 2

def encodeMetric (buf : Bytes) (snapshot : MetricSnapshot) (startTime time : UInt64) :
    Option Bytes :=
  match snapshot with
  | .counter name description dataPoints =>
    let buf := encodeStringField buf 1 name
    let buf := encodeStringField buf 2 description
    encodeMessageFieldInPlace buf 7 fun buf => encodeSum buf dataPoints startTime time
  | .gauge name description dataPoints =>
    let buf := encodeStringField buf 1 name
    let buf := encodeStringField buf 2 description
    encodeMessageFieldInPlace buf 5 fun buf => encodeGaugeMsg buf dataPoints startTime time
  | .histogram name description boundaries dataPoints =>
    let buf := encodeStringField buf 1 name
    let buf := encodeStringField buf 2 description
    encodeMessageFieldInPlace buf 9 fun buf =>
      encodeHistogramMsg buf dataPoints boundaries startTime time

def encodeExportMetricsRequest (resourceAttrs : List KeyValue) (scopeName scopeVersion : String)
    (snapshots : List MetricSnapshot) (startTimeUnixNano timeUnixNano : UInt64) : Option Bytes :=
  -- ResourceMetrics, field 1 of ExportMetricsServiceRequest
  encodeMessageFieldInPlace [] 1 fun buf => do
    let buf ← encodeMessageFieldInPlace buf 1 fun buf => encodeResource buf resourceAttrs
    -- ScopeMetrics, field 2 of ResourceMetrics
    encodeMessageFieldInPlace buf 2 fun buf => do
      let buf ← encodeMessageFieldInPlace buf 1 fun buf =>
        some (encodeScope buf scopeName scopeVersion)
      snapshots.foldlM (fun buf snapshot => encodeMessageFieldInPlace buf 2 fun buf =>
        encodeMetric buf snapshot startTimeUnixNano timeUnixNano) buf

end Rolly
