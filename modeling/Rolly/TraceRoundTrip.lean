import Rolly.OtlpRoundTrip

/-!
# Exported spans read back
-/

namespace Rolly

open Proto

theorem StatusCode.decode_toU64 (code : StatusCode) :
    Otlp.decodeStatusCode code.toU64 = some code := by
  cases code <;> rfl

theorem SpanKind.decode_toU64 (kind : SpanKind) : Otlp.decodeSpanKind kind.toU64 = some kind := by
  cases kind <;> rfl

def SpanStatus.read (status : SpanStatus) : Otlp.Status := ⟨status.message, status.code⟩

/-- A status with an empty message and code `Unset` is not written. -/
def SpanStatus.erased (status : SpanStatus) : Option Otlp.Status :=
  if status.message = "" ∧ status.code = .unset then none else some status.read

theorem reads_status (status : SpanStatus) :
    Reads Otlp.mergeStatus (statusNodes status) {} status.read := by
  refine .cons (t := { message := status.message })
    (.string (by decide) (fun h => by rw [h]) fun _ => by simp [Otlp.mergeStatus])
    (.varint (by decide) (fun h => ?_) ?_)
  · cases hc : status.code <;> simp_all [SpanStatus.read, StatusCode.toU64]
  · simp [Otlp.mergeStatus, StatusCode.decode_toU64, SpanStatus.read]

theorem statusNodes_eq_nil (status : SpanStatus) :
    nodesBytes (statusNodes status) = [] ↔ status.message = "" ∧ status.code = .unset := by
  cases hc : status.code <;> simp [statusNodes, Node.bytes, hc, StatusCode.toU64]

/-- The span as read: attributes and status erased, everything else equal. -/
def SpanData.erased (span : SpanData) : Otlp.Span where
  traceId := span.traceId.toList
  spanId := span.spanId.toList
  parentSpanId := span.parentSpanId.toList
  name := span.name
  kind := span.kind
  startTimeUnixNano := span.startTimeUnixNano
  endTimeUnixNano := span.endTimeUnixNano
  attributes := span.attributes.filterMap KeyValue.erased
  status := span.status.bind SpanStatus.erased

theorem spanNodes_ne_nil (span : SpanData) : nodesBytes (spanNodes span) ≠ [] := by
  simp [spanNodes, Node.bytes]

theorem reads_spanScalars (span : SpanData) :
    Reads Otlp.mergeSpan
      [.raw (encodeBytesField [] 1 span.traceId.toList),
       .raw (encodeBytesField [] 2 span.spanId.toList),
       .raw (encodeBytesField [] 4 span.parentSpanId.toList),
       .raw (encodeStringField [] 5 span.name),
       .raw (encodeVarintField [] 6 span.kind.toU64),
       .raw (encodeFixed64Field [] 7 span.startTimeUnixNano),
       .raw (encodeFixed64Field [] 8 span.endTimeUnixNano)] {}
      { span.erased with attributes := [], status := none } := by
  refine .cons (.bytes (by decide) (fun h => by rw [h]) fun _ => rfl) ?_
  refine .cons (.bytes (by decide) (fun h => by rw [h]) fun _ => rfl) ?_
  refine .cons (.bytes (by decide) (fun h => by rw [h]) fun _ => rfl) ?_
  refine .cons
    (t := ⟨span.traceId.toList, span.spanId.toList, span.parentSpanId.toList, span.name,
      .unspecified, 0, 0, [], none⟩)
    (.string (by decide) (fun h => by rw [h]) fun _ => by simp [Otlp.mergeSpan]) ?_
  refine .cons
    (t := ⟨span.traceId.toList, span.spanId.toList, span.parentSpanId.toList, span.name,
      span.kind, 0, 0, [], none⟩)
    (.varint (by decide) (fun h => ?_) ?_) ?_
  · cases hk : span.kind <;> simp_all [SpanKind.toU64]
  · simp [Otlp.mergeSpan, SpanKind.decode_toU64]
  refine .cons (.fixed64 (by decide) (fun h => by rw [h]) rfl) ?_
  exact .fixed64 (by decide) (fun h => by rw [SpanData.erased, h]) rfl

theorem span_attributes : Repeats Otlp.mergeSpan 9 Otlp.mergeKeyValue {}
    fun s ys => { s with attributes := s.attributes ++ ys } where
  number := by decide
  nil := by simp
  append := by simp
  item s b y hd := by simp [Otlp.mergeSpan, hd]

theorem reads_span (span : SpanData) : Reads Otlp.mergeSpan (spanNodes span) {} span.erased := by
  refine .append (t := { span.erased with status := none })
    (.append (reads_spanScalars span) ?_) ?_
  · exact reads_keyValues span_attributes span.attributes _
  · cases hs : span.status with
    | none =>
      have he : span.erased.status = none := by simp [SpanData.erased, hs]
      rw [← he]
      exact .nil
    | some status =>
      have hz := statusNodes_eq_nil status
      refine .message (by decide) (reads_status status) (fun h => ?_) fun h b hd => ?_
      · simp [SpanData.erased, hs, SpanStatus.erased, hz.mp h]
      · simp [Otlp.mergeSpan, hd, SpanData.erased, hs, SpanStatus.erased, mt hz.mpr h]

/-- Whatever is exported reads back: every byte is consumed, and the resource
attributes, the scope and the spans come back in order, up to the erasures of
`requestErased`, `KeyValue.erased` and `SpanStatus.erased`. -/
theorem decodeExportTraceRequest_encode (resourceAttrs : List KeyValue)
    (scopeName scopeVersion : String) (spans : List SpanData)
    (h : BodiesShort (requestNodes resourceAttrs scopeName scopeVersion (spans.map spanNodes))) :
    ∃ bytes, encodeExportTraceRequest resourceAttrs scopeName scopeVersion spans = some bytes ∧
      Otlp.decodeExportTraceRequest bytes =
        some (requestErased resourceAttrs scopeName scopeVersion (spans.map SpanData.erased)) := by
  rw [encodeExportTraceRequest_nodes]
  exact decodeRequest_encodeNodes resourceAttrs scopeName scopeVersion spans
    (fun span _ => spanNodes_ne_nil span) (fun span _ => reads_span span) h

/-- A span with an empty attribute value and a status, and a resource all of
whose attributes vanish. -/
theorem decodeExportTraceRequest_encode_erased :
    ∃ bytes, encodeExportTraceRequest [⟨"", .string ""⟩] "rolly" ""
        [⟨.replicate 16 1, .replicate 8 2, .replicate 8 0, "request", .internal, 10, 300,
          [⟨"ok", .bool false⟩, ⟨"note", .string ""⟩], some ⟨"", .error⟩⟩] = some bytes ∧
      Otlp.decodeExportTraceRequest bytes =
        some (requestErased [⟨"", .string ""⟩] "rolly" ""
          ([⟨.replicate 16 1, .replicate 8 2, .replicate 8 0, "request", .internal, 10, 300,
            [⟨"ok", .bool false⟩, ⟨"note", .string ""⟩], some ⟨"", .error⟩⟩].map
              SpanData.erased)) :=
  decodeExportTraceRequest_encode _ _ _ _ (by decide +kernel)

end Rolly
