import Rolly.OtlpRoundTrip

/-!
# Exported log records read back
-/

namespace Rolly

open Proto

def SeverityNumber.read : SeverityNumber → Otlp.SeverityNumber
  | .trace => 1
  | .debug => 5
  | .info => 9
  | .warn => 13
  | .error => 17
  | .fatal => 21

theorem SeverityNumber.decode_toU64 (severity : SeverityNumber) :
    Otlp.decodeSeverityNumber severity.toU64 = some severity.read := by
  cases severity <;> rfl

theorem SeverityNumber.toU64_ne_zero (severity : SeverityNumber) : severity.toU64 ≠ 0 := by
  cases severity <;> decide

/-- The record as read: body and attributes erased, everything else equal. -/
def LogData.erased (log : LogData) : Otlp.LogRecord where
  timeUnixNano := log.timeUnixNano
  severityNumber := log.severityNumber.read
  severityText := log.severityText
  body := log.body.field
  attributes := log.attributes.filterMap KeyValue.erased
  traceId := log.traceId.toList
  spanId := log.spanId.toList

theorem logRecordNodes_ne_nil (log : LogData) : nodesBytes (logRecordNodes log) ≠ [] := by
  simp [logRecordNodes, Node.bytes, log.severityNumber.toU64_ne_zero]

theorem reads_logHead (log : LogData) :
    Reads Otlp.mergeLogRecord
      [.raw (encodeFixed64Field [] 1 log.timeUnixNano),
       .raw (encodeVarintField [] 2 log.severityNumber.toU64),
       .raw (encodeStringField [] 3 log.severityText),
       .message 5 [.raw (encodeAnyValue [] log.body)]] {}
      { log.erased with attributes := [], traceId := [], spanId := [] } := by
  refine .cons (.fixed64 (by decide) (fun h => by rw [h]) rfl) ?_
  refine .cons
    (t := ⟨log.timeUnixNano, log.severityNumber.read, "", none, [], [], []⟩)
    (.varint (by decide) (fun h => absurd h log.severityNumber.toU64_ne_zero) ?_) ?_
  · simp [Otlp.mergeLogRecord, SeverityNumber.decode_toU64]
  refine .cons
    (t := ⟨log.timeUnixNano, log.severityNumber.read, log.severityText, none, [], [], []⟩)
    (.string (by decide) (fun h => by rw [h]) fun _ => by simp [Otlp.mergeLogRecord]) ?_
  have hv : nodesBytes [.raw (encodeAnyValue [] log.body)] = [] ↔ log.body.erased = none := by
    simp [Node.bytes, encodeAnyValue_eq_nil]
  refine .message (by decide) (reads_anyValue log.body) (fun h => ?_) fun h b hd => ?_
  · simp [LogData.erased, AnyValue.field, hv.mp h]
  · simp [Otlp.mergeLogRecord, hd, LogData.erased, AnyValue.field, mt hv.mpr h]

theorem logRecord_attributes : Repeats Otlp.mergeLogRecord 6 Otlp.mergeKeyValue {}
    fun r ys => { r with attributes := r.attributes ++ ys } where
  number := by decide
  nil := by simp
  append := by simp
  item r b y hd := by simp [Otlp.mergeLogRecord, hd]

theorem reads_logRecord (log : LogData) :
    Reads Otlp.mergeLogRecord (logRecordNodes log) {} log.erased := by
  refine .append (t := { log.erased with traceId := [], spanId := [] })
    (.append (reads_logHead log) ?_) ?_
  · exact reads_keyValues logRecord_attributes log.attributes _
  · refine .cons (.bytes (by decide) (fun h => by rw [h]) fun _ => rfl) ?_
    exact .bytes (by decide) (fun h => by rw [LogData.erased, h]) fun _ => rfl

/-- Whatever is exported reads back: every byte is consumed, and the resource
attributes, the scope and the log records come back in order, up to the
erasures of `requestErased`, `KeyValue.erased` and `AnyValue.field`. -/
theorem decodeExportLogsRequest_encode (resourceAttrs : List KeyValue)
    (scopeName scopeVersion : String) (logs : List LogData)
    (h : BodiesShort (requestNodes resourceAttrs scopeName scopeVersion
      (logs.map logRecordNodes))) :
    ∃ bytes, encodeExportLogsRequest resourceAttrs scopeName scopeVersion logs = some bytes ∧
      Otlp.decodeExportLogsRequest bytes =
        some (requestErased resourceAttrs scopeName scopeVersion (logs.map LogData.erased)) := by
  rw [encodeExportLogsRequest_nodes]
  exact decodeRequest_encodeNodes resourceAttrs scopeName scopeVersion logs
    (fun log _ => logRecordNodes_ne_nil log) (fun log _ => reads_logRecord log) h

/-- A record at time zero with an empty body and an attribute that vanishes. -/
theorem decodeExportLogsRequest_encode_erased :
    ∃ bytes, encodeExportLogsRequest [⟨"service.name", .string "svc"⟩] "rolly" "1"
        [⟨0, .warn, "", .bytes [], [⟨"", .string ""⟩, ⟨"n", .int (-1)⟩], .replicate 16 1,
          .replicate 8 2⟩] = some bytes ∧
      Otlp.decodeExportLogsRequest bytes =
        some (requestErased [⟨"service.name", .string "svc"⟩] "rolly" "1"
          ([⟨0, .warn, "", .bytes [], [⟨"", .string ""⟩, ⟨"n", .int (-1)⟩], .replicate 16 1,
            .replicate 8 2⟩].map LogData.erased)) :=
  decodeExportLogsRequest_encode _ _ _ _ (by decide +kernel)

end Rolly
