import Rolly.OtlpTrace

/-!
# Log data and its encoders
-/

namespace Rolly

open Proto3 (Bytes)
open Proto

inductive SeverityNumber
  | trace | debug | info | warn | error | fatal
  deriving DecidableEq, Repr

def SeverityNumber.toU64 : SeverityNumber → UInt64
  | .trace => 1
  | .debug => 5
  | .info => 9
  | .warn => 13
  | .error => 17
  | .fatal => 21

structure LogData where
  timeUnixNano : UInt64
  severityNumber : SeverityNumber
  severityText : String
  body : AnyValue
  attributes : List KeyValue
  traceId : TraceId
  spanId : SpanId
  deriving DecidableEq, Repr

def encodeLogRecord (buf : Bytes) (log : LogData) : Option Bytes := do
  let buf := encodeFixed64Field buf 1 log.timeUnixNano
  let buf := encodeVarintField buf 2 log.severityNumber.toU64
  let buf := encodeStringField buf 3 log.severityText
  let buf ← encodeMessageFieldInPlace buf 5 fun buf => some (encodeAnyValue buf log.body)
  let buf ← log.attributes.foldlM
    (fun buf kv => encodeMessageFieldInPlace buf 6 fun buf => encodeKeyValue buf kv) buf
  let buf := encodeBytesField buf 9 log.traceId.toList
  return encodeBytesField buf 10 log.spanId.toList

def encodeExportLogsRequest (resourceAttrs : List KeyValue) (scopeName scopeVersion : String)
    (logs : List LogData) : Option Bytes :=
  -- ResourceLogs, field 1 of ExportLogsServiceRequest
  encodeMessageFieldInPlace [] 1 fun buf => do
    let buf ← encodeMessageFieldInPlace buf 1 fun buf => encodeResource buf resourceAttrs
    -- ScopeLogs, field 2 of ResourceLogs
    encodeMessageFieldInPlace buf 2 fun buf => do
      let buf ← encodeMessageFieldInPlace buf 1 fun buf =>
        some (encodeScope buf scopeName scopeVersion)
      logs.foldlM
        (fun buf log => encodeMessageFieldInPlace buf 2 fun buf => encodeLogRecord buf log) buf

end Rolly
