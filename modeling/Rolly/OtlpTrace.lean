import Rolly.Proto

/-!
# Trace data and its encoders
-/

namespace Rolly

open Proto3 (Bytes)
open Proto

inductive AnyValue
  | string (s : String)
  | int (i : Int64)
  | bool (b : Bool)
  | double (d : F64)
  | bytes (b : Bytes)
  deriving DecidableEq, Repr

structure KeyValue where
  key : String
  value : AnyValue
  deriving DecidableEq, Repr

inductive SpanKind
  | unspecified | internal | server | client | producer | consumer
  deriving DecidableEq, Repr

def SpanKind.toU64 : SpanKind → UInt64
  | .unspecified => 0
  | .internal => 1
  | .server => 2
  | .client => 3
  | .producer => 4
  | .consumer => 5

inductive StatusCode
  | unset | ok | error
  deriving DecidableEq, Repr

def StatusCode.toU64 : StatusCode → UInt64
  | .unset => 0
  | .ok => 1
  | .error => 2

structure SpanStatus where
  message : String
  code : StatusCode
  deriving DecidableEq, Repr

abbrev TraceId := Vector UInt8 16
abbrev SpanId := Vector UInt8 8

structure SpanData where
  traceId : TraceId
  spanId : SpanId
  parentSpanId : SpanId
  name : String
  kind : SpanKind
  startTimeUnixNano : UInt64
  endTimeUnixNano : UInt64
  attributes : List KeyValue
  status : Option SpanStatus
  deriving DecidableEq, Repr

-- ---------------------------------------------------------------------------
-- Encoding
-- ---------------------------------------------------------------------------

/-- The scalar variants are written even when zero: they sit in a oneof. -/
def encodeAnyValue (buf : Bytes) : AnyValue → Bytes
  | .string s => encodeStringField buf 1 s
  | .bool b => encodeVarintFieldAlways buf 2 b.toUInt64
  | .int i => encodeVarintFieldAlways buf 3 i.toUInt64
  | .double d => encodeFixed64FieldAlways buf 4 d.bits
  | .bytes b => encodeBytesField buf 7 b

def encodeKeyValue (buf : Bytes) (kv : KeyValue) : Option Bytes :=
  let buf := encodeStringField buf 1 kv.key
  encodeMessageFieldInPlace buf 2 fun buf => some (encodeAnyValue buf kv.value)

def encodeResource (buf : Bytes) (attrs : List KeyValue) : Option Bytes :=
  attrs.foldlM (fun buf kv => encodeMessageFieldInPlace buf 1 fun buf => encodeKeyValue buf kv) buf

def encodeScope (buf : Bytes) (name version : String) : Bytes :=
  let buf := encodeStringField buf 1 name
  encodeStringField buf 2 version

def encodeStatus (buf : Bytes) (status : SpanStatus) : Bytes :=
  let buf := encodeStringField buf 2 status.message
  encodeVarintField buf 3 status.code.toU64

def encodeSpan (buf : Bytes) (span : SpanData) : Option Bytes := do
  let buf := encodeBytesField buf 1 span.traceId.toList
  let buf := encodeBytesField buf 2 span.spanId.toList
  -- field 3, trace_state, is skipped
  let buf := encodeBytesField buf 4 span.parentSpanId.toList
  let buf := encodeStringField buf 5 span.name
  let buf := encodeVarintField buf 6 span.kind.toU64
  let buf := encodeFixed64Field buf 7 span.startTimeUnixNano
  let buf := encodeFixed64Field buf 8 span.endTimeUnixNano
  let buf ← span.attributes.foldlM
    (fun buf kv => encodeMessageFieldInPlace buf 9 fun buf => encodeKeyValue buf kv) buf
  match span.status with
  | some status => encodeMessageFieldInPlace buf 15 fun buf => some (encodeStatus buf status)
  | none => some buf

def encodeExportTraceRequest (resourceAttrs : List KeyValue) (scopeName scopeVersion : String)
    (spans : List SpanData) : Option Bytes :=
  -- ResourceSpans, field 1 of ExportTraceServiceRequest
  encodeMessageFieldInPlace [] 1 fun buf => do
    let buf ← encodeMessageFieldInPlace buf 1 fun buf => encodeResource buf resourceAttrs
    -- ScopeSpans, field 2 of ResourceSpans
    encodeMessageFieldInPlace buf 2 fun buf => do
      let buf ← encodeMessageFieldInPlace buf 1 fun buf =>
        some (encodeScope buf scopeName scopeVersion)
      spans.foldlM (fun buf span => encodeMessageFieldInPlace buf 2 fun buf => encodeSpan buf span)
        buf

end Rolly
