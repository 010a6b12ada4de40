import Rolly.OtlpLog
import Rolly.OtlpMetrics
import Rolly.ProtoLaws

/-!
# The requests as trees

Each encoder writes one tree of nested messages in place. The trees are read
off the encoders; the equations below say that they are the same program, and
hold for every input, panics included.
-/

namespace Rolly

open Proto3 (Bytes)
open Proto

-- ---------------------------------------------------------------------------
-- Attributes, resources and scopes
-- ---------------------------------------------------------------------------

theorem encodeAnyValue_append (buf : Bytes) (v : AnyValue) :
    encodeAnyValue buf v = buf ++ encodeAnyValue [] v := by
  cases v with
  | string s => exact encodeStringField_append ..
  | int i => exact encodeVarintFieldAlways_append ..
  | bool b => exact encodeVarintFieldAlways_append ..
  | double d => exact encodeFixed64FieldAlways_append ..
  | bytes b => exact encodeBytesField_append ..

def keyValueNodes (kv : KeyValue) : List Node :=
  [.raw (encodeStringField [] 1 kv.key), .message 2 [.raw (encodeAnyValue [] kv.value)]]

theorem encodeAnyValue_nodes (v : AnyValue) :
    (fun buf => some (encodeAnyValue buf v)) = encodeNodes [.raw (encodeAnyValue [] v)] := by
  funext buf
  rw [encodeAnyValue_append]
  simp

theorem encodeKeyValue_nodes (kv : KeyValue) (buf : Bytes) :
    encodeKeyValue buf kv = encodeNodes (keyValueNodes kv) buf := by
  rw [encodeKeyValue, encodeAnyValue_nodes, encodeStringField_append]
  simp [keyValueNodes]

def resourceNodes (attrs : List KeyValue) : List Node :=
  attrs.map fun kv => .message 1 (keyValueNodes kv)

theorem encodeResource_nodes (attrs : List KeyValue) (buf : Bytes) :
    encodeResource buf attrs = encodeNodes (resourceNodes attrs) buf :=
  foldlM_message encodeKeyValue_nodes 1 attrs buf

def scopeNodes (name version : String) : List Node :=
  [.raw (encodeStringField [] 1 name), .raw (encodeStringField [] 2 version)]

theorem encodeScope_nodes (name version : String) (buf : Bytes) :
    some (encodeScope buf name version) = encodeNodes (scopeNodes name version) buf := by
  rw [encodeScope, encodeStringField_append, encodeStringField_append buf]
  simp [scopeNodes]

-- ---------------------------------------------------------------------------
-- Spans and log records
-- ---------------------------------------------------------------------------

def statusNodes (status : SpanStatus) : List Node :=
  [.raw (encodeStringField [] 2 status.message), .raw (encodeVarintField [] 3 status.code.toU64)]

theorem encodeStatus_nodes (status : SpanStatus) (buf : Bytes) :
    some (encodeStatus buf status) = encodeNodes (statusNodes status) buf := by
  rw [encodeStatus, encodeVarintField_append, encodeStringField_append buf]
  simp [statusNodes]

def spanNodes (span : SpanData) : List Node :=
  [.raw (encodeBytesField [] 1 span.traceId.toList),
   .raw (encodeBytesField [] 2 span.spanId.toList),
   .raw (encodeBytesField [] 4 span.parentSpanId.toList),
   .raw (encodeStringField [] 5 span.name),
   .raw (encodeVarintField [] 6 span.kind.toU64),
   .raw (encodeFixed64Field [] 7 span.startTimeUnixNano),
   .raw (encodeFixed64Field [] 8 span.endTimeUnixNano)] ++
  span.attributes.map (fun kv => .message 9 (keyValueNodes kv)) ++
  span.status.toList.map (fun status => .message 15 (statusNodes status))

theorem encodeSpan_nodes (span : SpanData) (buf : Bytes) :
    encodeSpan buf span = encodeNodes (spanNodes span) buf := by
  rw [encodeSpan, encodeFixed64Field_append _ 8, encodeFixed64Field_append _ 7,
    encodeVarintField_append _ 6, encodeStringField_append _ 5, encodeBytesField_append _ 4,
    encodeBytesField_append _ 2, encodeBytesField_append _ 1]
  cases hs : span.status <;>
    simp [spanNodes, hs, encodeNodes_append, encodeStatus_nodes,
      foldlM_message encodeKeyValue_nodes]

def logRecordNodes (log : LogData) : List Node :=
  [.raw (encodeFixed64Field [] 1 log.timeUnixNano),
   .raw (encodeVarintField [] 2 log.severityNumber.toU64),
   .raw (encodeStringField [] 3 log.severityText),
   .message 5 [.raw (encodeAnyValue [] log.body)]] ++
  log.attributes.map (fun kv => .message 6 (keyValueNodes kv)) ++
  [.raw (encodeBytesField [] 9 log.traceId.toList), .raw (encodeBytesField [] 10 log.spanId.toList)]

theorem encodeLogRecord_nodes (log : LogData) (buf : Bytes) :
    encodeLogRecord buf log = encodeNodes (logRecordNodes log) buf := by
  have ht (buf : Bytes) :
      encodeBytesField (encodeBytesField buf 9 log.traceId.toList) 10 log.spanId.toList =
      buf ++ encodeBytesField [] 9 log.traceId.toList ++
        encodeBytesField [] 10 log.spanId.toList := by
    rw [encodeBytesField_append _ 10, encodeBytesField_append buf 9]
  simp only [encodeLogRecord, foldlM_message encodeKeyValue_nodes, encodeAnyValue_nodes, ht]
  rw [encodeStringField_append _ 3, encodeVarintField_append _ 2, encodeFixed64Field_append _ 1]
  simp [logRecordNodes, encodeNodes_append]

-- ---------------------------------------------------------------------------
-- Metrics
-- ---------------------------------------------------------------------------

def attrNodes (attr : String × String) : List Node :=
  [.raw (encodeStringField [] 1 attr.1), .message 2 [.raw (encodeStringField [] 1 attr.2)]]

theorem encodeAttrKeyValue_nodes (attr : String × String) (buf : Bytes) :
    encodeAttrKeyValue buf attr.1 attr.2 = encodeNodes (attrNodes attr) buf := by
  have hv : (fun buf => some (encodeStringField buf 1 attr.2)) =
      encodeNodes [.raw (encodeStringField [] 1 attr.2)] := by
    funext buf
    rw [encodeStringField_append]
    simp
  rw [encodeAttrKeyValue, hv, encodeStringField_append]
  simp [attrNodes]

def attrsNodes (field : UInt32) (attrs : Attrs) : List Node :=
  attrs.map fun attr => .message field (attrNodes attr)

theorem encodeAttrs_nodes (field : UInt32) (attrs : Attrs) (buf : Bytes) :
    encodeAttrs buf field attrs = encodeNodes (attrsNodes field attrs) buf :=
  foldlM_message encodeAttrKeyValue_nodes field attrs buf

theorem encodeExemplarValue_append (buf : Bytes) (value : ExemplarValue) :
    encodeExemplarValue buf value = buf ++ encodeExemplarValue [] value := by
  cases value <;> exact encodeFixed64FieldAlways_append ..

def exemplarNodes (exemplar : Exemplar) : List Node :=
  [.raw (encodeFixed64Field [] 2 exemplar.timeUnixNano),
   .raw (encodeExemplarValue [] exemplar.value),
   .raw (encodeBytesField [] 4 exemplar.spanId.toList),
   .raw (encodeBytesField [] 5 exemplar.traceId.toList)]

theorem encodeExemplar_nodes (exemplar : Exemplar) (buf : Bytes) :
    some (encodeExemplar buf exemplar) = encodeNodes (exemplarNodes exemplar) buf := by
  rw [encodeExemplar, encodeBytesField_append _ 5, encodeBytesField_append _ 4,
    encodeExemplarValue_append, encodeFixed64Field_append _ 2]
  simp [exemplarNodes]

def exemplarFieldNodes (field : UInt32) (exemplar : Option Exemplar) : List Node :=
  exemplar.toList.map fun ex => .message field (exemplarNodes ex)

theorem encodeExemplarField_nodes (field : UInt32) (exemplar : Option Exemplar) (buf : Bytes) :
    encodeExemplarField buf field exemplar =
      encodeNodes (exemplarFieldNodes field exemplar) buf := by
  cases exemplar <;> simp [encodeExemplarField, exemplarFieldNodes, encodeExemplar_nodes]

section
variable (startTime time : UInt64)

def counterDataPointNodes (dp : CounterDataPoint) : List Node :=
  [.raw (encodeFixed64Field [] 2 startTime), .raw (encodeFixed64Field [] 3 time)] ++
  exemplarFieldNodes 5 dp.2.2 ++
  [.raw (encodeFixed64FieldAlways [] 6 dp.2.1.toUInt64)] ++
  attrsNodes 7 dp.1

theorem encodeCounterDataPoint_nodes (dp : CounterDataPoint) (buf : Bytes) :
    encodeCounterDataPoint buf dp.1 startTime time dp.2.1 dp.2.2 =
      encodeNodes (counterDataPointNodes startTime time dp) buf := by
  have hv (buf : Bytes) : encodeAttrs (encodeFixed64FieldAlways buf 6 dp.2.1.toUInt64) 7 dp.1 =
      encodeNodes (.raw (encodeFixed64FieldAlways [] 6 dp.2.1.toUInt64) :: attrsNodes 7 dp.1)
        buf := by
    rw [encodeFixed64FieldAlways_append, encodeAttrs_nodes]
    simp
  rw [encodeCounterDataPoint, encodeFixed64Field_append _ 3, encodeFixed64Field_append _ 2]
  simp only [hv, encodeExemplarField_nodes]
  simp [counterDataPointNodes, encodeNodes_append]

def gaugeDataPointNodes (dp : GaugeDataPoint) : List Node :=
  [.raw (encodeFixed64Field [] 2 startTime), .raw (encodeFixed64Field [] 3 time),
   .raw (encodeFixed64FieldAlways [] 4 dp.2.1.bits)] ++
  exemplarFieldNodes 5 dp.2.2 ++
  attrsNodes 7 dp.1

theorem encodeGaugeDataPoint_nodes (dp : GaugeDataPoint) (buf : Bytes) :
    encodeGaugeDataPoint buf dp.1 startTime time dp.2.1 dp.2.2 =
      encodeNodes (gaugeDataPointNodes startTime time dp) buf := by
  rw [encodeGaugeDataPoint, encodeFixed64FieldAlways_append _ 4, encodeFixed64Field_append _ 3,
    encodeFixed64Field_append _ 2]
  simp only [encodeExemplarField_nodes, encodeAttrs_nodes]
  simp [gaugeDataPointNodes, encodeNodes_append]

/-- The order of the encoder: 9 and 8 between 7 and 11. -/
def histogramDataPointNodes (boundaries : List F64) (dp : HistogramDataPoint) : List Node :=
  [.raw (encodeFixed64Field [] 2 startTime), .raw (encodeFixed64Field [] 3 time),
   .raw (encodeFixed64FieldAlways [] 4 dp.count),
   .raw (encodeFixed64FieldAlways [] 5 dp.sum.bits),
   .raw (encodePackedFixed64Field [] 6 dp.bucketCounts),
   .raw (encodePackedDoubleField [] 7 boundaries)] ++
  attrsNodes 9 dp.attrs ++
  exemplarFieldNodes 8 dp.exemplar ++
  [.raw (encodeFixed64FieldAlways [] 11 dp.min.bits),
   .raw (encodeFixed64FieldAlways [] 12 dp.max.bits)]

theorem encodePackedFixed64Field_append (buf : Bytes) (field : UInt32) (values : List UInt64) :
    encodePackedFixed64Field buf field values =
      buf ++ encodePackedFixed64Field [] field values := by
  rw [encodePackedFixed64Field_eq, encodePackedFixed64Field_eq, encodeBytesField_append]

theorem encodePackedDoubleField_append (buf : Bytes) (field : UInt32) (values : List F64) :
    encodePackedDoubleField buf field values = buf ++ encodePackedDoubleField [] field values := by
  rw [encodePackedDoubleField_eq, encodePackedDoubleField_eq, encodePackedFixed64Field_append]

theorem encodeHistogramDataPoint_nodes (boundaries : List F64) (dp : HistogramDataPoint)
    (buf : Bytes) :
    encodeHistogramDataPoint buf dp boundaries startTime time =
      encodeNodes (histogramDataPointNodes startTime time boundaries dp) buf := by
  have ht (buf : Bytes) :
      encodeFixed64FieldAlways (encodeFixed64FieldAlways buf 11 dp.min.bits) 12 dp.max.bits =
      buf ++ encodeFixed64FieldAlways [] 11 dp.min.bits ++
        encodeFixed64FieldAlways [] 12 dp.max.bits := by
    rw [encodeFixed64FieldAlways_append _ 12, encodeFixed64FieldAlways_append buf 11]
  simp only [encodeHistogramDataPoint, encodeAttrs_nodes, encodeExemplarField_nodes, ht]
  rw [encodePackedDoubleField_append _ 7, encodePackedFixed64Field_append _ 6,
    encodeFixed64FieldAlways_append _ 5, encodeFixed64FieldAlways_append _ 4,
    encodeFixed64Field_append _ 3, encodeFixed64Field_append _ 2]
  simp [histogramDataPointNodes, encodeNodes_append]

def sumNodes (dataPoints : List CounterDataPoint) : List Node :=
  dataPoints.map (fun dp => .message 1 (counterDataPointNodes startTime time dp)) ++
  [.raw (encodeVarintField [] 2 2), .raw (encodeVarintField [] 3 1)]

theorem encodeSum_nodes (dataPoints : List CounterDataPoint) (buf : Bytes) :
    encodeSum buf dataPoints startTime time =
      encodeNodes (sumNodes startTime time dataPoints) buf := by
  have ht (buf : Bytes) : encodeVarintField (encodeVarintField buf 2 2) 3 1 =
      buf ++ encodeVarintField [] 2 2 ++ encodeVarintField [] 3 1 := by
    rw [encodeVarintField_append _ 3, encodeVarintField_append buf 2]
  simp only [encodeSum, ht]
  rw [foldlM_message (encodeCounterDataPoint_nodes startTime time)]
  simp [sumNodes, encodeNodes_append]

def gaugeMsgNodes (dataPoints : List GaugeDataPoint) : List Node :=
  dataPoints.map fun dp => .message 1 (gaugeDataPointNodes startTime time dp)

theorem encodeGaugeMsg_nodes (dataPoints : List GaugeDataPoint) (buf : Bytes) :
    encodeGaugeMsg buf dataPoints startTime time =
      encodeNodes (gaugeMsgNodes startTime time dataPoints) buf :=
  foldlM_message (encodeGaugeDataPoint_nodes startTime time) 1 dataPoints buf

def histogramMsgNodes (boundaries : List F64) (dataPoints : List HistogramDataPoint) :
    List Node :=
  dataPoints.map (fun dp => .message 1 (histogramDataPointNodes startTime time boundaries dp)) ++
  [.raw (encodeVarintField [] 2 2)]

theorem encodeHistogramMsg_nodes (boundaries : List F64) (dataPoints : List HistogramDataPoint)
    (buf : Bytes) :
    encodeHistogramMsg buf dataPoints boundaries startTime time =
      encodeNodes (histogramMsgNodes startTime time boundaries dataPoints) buf := by
  have ht (buf : Bytes) : some (encodeVarintField buf 2 2) =
      encodeNodes [.raw (encodeVarintField [] 2 2)] buf := by
    rw [encodeVarintField_append]
    simp
  simp only [encodeHistogramMsg, Option.pure_def, ht]
  rw [foldlM_message (encodeHistogramDataPoint_nodes startTime time boundaries)]
  simp [histogramMsgNodes, encodeNodes_append]

def metricNodes (snapshot : MetricSnapshot) : List Node :=
  match snapshot with
  | .counter name description dataPoints =>
    [.raw (encodeStringField [] 1 name), .raw (encodeStringField [] 2 description),
     .message 7 (sumNodes startTime time dataPoints)]
  | .gauge name description dataPoints =>
    [.raw (encodeStringField [] 1 name), .raw (encodeStringField [] 2 description),
     .message 5 (gaugeMsgNodes startTime time dataPoints)]
  | .histogram name description boundaries dataPoints =>
    [.raw (encodeStringField [] 1 name), .raw (encodeStringField [] 2 description),
     .message 9 (histogramMsgNodes startTime time boundaries dataPoints)]

theorem encodeMetric_nodes (snapshot : MetricSnapshot) (buf : Bytes) :
    encodeMetric buf snapshot startTime time =
      encodeNodes (metricNodes startTime time snapshot) buf := by
  cases snapshot <;>
    simp only [encodeMetric, encodeSum_nodes, encodeGaugeMsg_nodes, encodeHistogramMsg_nodes] <;>
    rw [encodeStringField_append _ 2, encodeStringField_append _ 1] <;>
    simp [metricNodes]

end

-- ---------------------------------------------------------------------------
-- Requests
-- ---------------------------------------------------------------------------

/-- The envelope all three requests share: resource, scope, then the items. -/
def requestNodes (resourceAttrs : List KeyValue) (scopeName scopeVersion : String)
    (items : List (List Node)) : List Node :=
  [.message 1
    [.message 1 (resourceNodes resourceAttrs),
     .message 2 (.message 1 (scopeNodes scopeName scopeVersion) :: items.map (.message 2))]]

theorem encodeRequest_nodes {item : Bytes → α → Option Bytes} {nodes : α → List Node}
    (h : ∀ x buf, item buf x = encodeNodes (nodes x) buf)
    (resourceAttrs : List KeyValue) (scopeName scopeVersion : String) (items : List α) :
    (encodeMessageFieldInPlace [] 1 fun buf => do
      let buf ← encodeMessageFieldInPlace buf 1 fun buf => encodeResource buf resourceAttrs
      encodeMessageFieldInPlace buf 2 fun buf => do
        let buf ← encodeMessageFieldInPlace buf 1 fun buf =>
          some (encodeScope buf scopeName scopeVersion)
        items.foldlM (fun buf x => encodeMessageFieldInPlace buf 2 fun buf => item buf x) buf) =
      encodeNodes (requestNodes resourceAttrs scopeName scopeVersion (items.map nodes)) [] := by
  simp only [encodeResource_nodes, encodeScope_nodes, foldlM_message h, requestNodes,
    encodeNodes_message, encodeNodes_nil, List.map_map, Option.bind_eq_bind, Option.bind_fun_some]
  rfl

theorem encodeExportTraceRequest_nodes (resourceAttrs : List KeyValue)
    (scopeName scopeVersion : String) (spans : List SpanData) :
    encodeExportTraceRequest resourceAttrs scopeName scopeVersion spans =
      encodeNodes (requestNodes resourceAttrs scopeName scopeVersion (spans.map spanNodes)) [] :=
  encodeRequest_nodes encodeSpan_nodes ..

theorem encodeExportLogsRequest_nodes (resourceAttrs : List KeyValue)
    (scopeName scopeVersion : String) (logs : List LogData) :
    encodeExportLogsRequest resourceAttrs scopeName scopeVersion logs =
      encodeNodes
        (requestNodes resourceAttrs scopeName scopeVersion (logs.map logRecordNodes)) [] :=
  encodeRequest_nodes encodeLogRecord_nodes ..

theorem encodeExportMetricsRequest_nodes (resourceAttrs : List KeyValue)
    (scopeName scopeVersion : String) (snapshots : List MetricSnapshot) (startTime time : UInt64) :
    encodeExportMetricsRequest resourceAttrs scopeName scopeVersion snapshots startTime time =
      encodeNodes (requestNodes resourceAttrs scopeName scopeVersion
        (snapshots.map (metricNodes startTime time))) [] :=
  encodeRequest_nodes (encodeMetric_nodes startTime time) ..

end Rolly
