import Rolly.OtlpLayerLaws

/-!
# The request span

The middleware derives a trace ID from the `x-amz-cf-id` header and hands it to
the span as a field.
-/

namespace Rolly.Tower

open Proto3 (Bytes decodeUtf8 decodeUtf8_utf8 utf8)
open Layer

/-- What the middleware reads of a request. Header names are in lower case. -/
structure Request where
  method : String
  path : String
  headers : List (String × Bytes)
  deriving DecidableEq, Repr

def isVisibleAscii (b : UInt8) : Bool := (0x20 ≤ b && b < 0x7f) || b = 0x09

/-- `HeaderValue::to_str` -/
def toStr (value : Bytes) : Option String :=
  if value.all isVisibleAscii then decodeUtf8 value else none

def requestId (req : Request) : Option String :=
  (req.headers.lookup "x-amz-cf-id").bind toStr

/-- The fields of the span that `call` opens under the name `request`. All come
with the `%` sigil; the status code and the latency are empty until the
response. -/
def requestFields (blake3 : Bytes → Vector UInt8 32) (uuid : TraceId) (spanId : SpanId)
    (req : Request) : List (String × FieldValue) :=
  let requestId := requestId req
  let traceId := generateTraceId blake3 uuid requestId
  [("http.method", .debug req.method),
    ("http.uri", .debug req.path),
    ("cf.request_id", .debug (requestId.getD "-")),
    ("trace_id", .debug (hexEncode traceId.toList)),
    ("span_id", .debug (hexEncode spanId.toList))]

/-- `call` under the layer, where the span is a child of the current one. -/
def call (layer : OtlpLayer) (blake3 : Bytes → Vector UInt8 32) (uuid : TraceId)
    (spanId layerSpanId : SpanId) (thread : Nat) (now : UInt64) (req : Request) (s : State) :
    Option State :=
  step layer (.newSpan thread .contextual "request" (requestFields blake3 uuid spanId req)
    layerSpanId now) s

section
variable {id : String} {req : Request}

theorem requestId_eq (h : req.headers.lookup "x-amz-cf-id" = some (utf8 id))
    (hvisible : (utf8 id).all isVisibleAscii) : requestId req = some id := by
  rw [requestId, h, Option.bind_some, toStr, if_pos hvisible, decodeUtf8_utf8]

theorem generateTraceId_eq (h : req.headers.lookup "x-amz-cf-id" = some (utf8 id))
    (hvisible : (utf8 id).all isVisibleAscii) (hne : id ≠ "") (hdash : id ≠ "-") :
    generateTraceId blake3 uuid (requestId req) = hashPrefix (blake3 (utf8 id)) := by
  rw [requestId_eq h hvisible]
  exact if_pos ⟨hne, hdash⟩

/-- No field of the request span comes through `record_str`. -/
theorem ownTraceId_requestFields : ownTraceId (requestFields blake3 uuid spanId req) = none := rfl

def lastTraceId (s : State) : Option TraceId :=
  (s.spans.getLast?.bind (·.fields)).map (·.traceId)

theorem lastTraceId_call (h : call layer blake3 uuid spanId layerSpanId thread now req s = some t) :
    lastTraceId t = some zeroTraceId := by
  cases step_stepped h with
  | newSpan =>
    simp [lastTraceId, OtlpLayer.created, OtlpLayer.onNewSpan, ofFields_traceId,
      ownTraceId_requestFields]

/-- The middleware gives the span the ID that its request stands for, as text;
the layer puts the span into that trace only if it is no trace at all. -/
theorem request_trace_iff (hid : req.headers.lookup "x-amz-cf-id" = some (utf8 id))
    (hvisible : (utf8 id).all isVisibleAscii) (hne : id ≠ "") (hdash : id ≠ "-")
    (h : call layer blake3 uuid spanId layerSpanId thread now req s = some t) :
    ("trace_id", .debug (hexEncode (hashPrefix (blake3 (utf8 id))).toList)) ∈
        requestFields blake3 uuid spanId req ∧
      (lastTraceId t = some (hashPrefix (blake3 (utf8 id))) ↔
        hashPrefix (blake3 (utf8 id)) = zeroTraceId) := by
  constructor
  · simp [requestFields, generateTraceId_eq hid hvisible hne hdash]
  · rw [lastTraceId_call h, Option.some.injEq]
    exact eq_comm

end

def someHash (_ : Bytes) : Vector UInt8 32 := Vector.replicate 32 1

def someRequest : Request := ⟨"GET", "/", [("x-amz-cf-id", utf8 "abc123")]⟩

def someCall : Option State :=
  call exportAll someHash zeroTraceId zeroSpanId zeroSpanId 0 1 someRequest { entered := [[]] }

theorem request_trace_someRequest : ∃ t, someCall = some t ∧
    (lastTraceId t = some (hashPrefix (someHash (utf8 "abc123"))) ↔
      hashPrefix (someHash (utf8 "abc123")) = zeroTraceId) := by
  obtain ⟨t, ht⟩ := Option.isSome_iff_exists.mp (show someCall.isSome by decide +kernel)
  exact ⟨t, ht, (request_trace_iff rfl (by decide +kernel) (by decide) (by decide) ht).2⟩

theorem request_not_traced : ¬∀ layer blake3 uuid spanId layerSpanId thread now req s t id,
    req.headers.lookup "x-amz-cf-id" = some (utf8 id) → (utf8 id).all isVisibleAscii →
    id ≠ "" → id ≠ "-" →
    call layer blake3 uuid spanId layerSpanId thread now req s = some t →
    lastTraceId t = some (hashPrefix (blake3 (utf8 id))) := by
  intro h
  obtain ⟨t, ht⟩ := Option.isSome_iff_exists.mp (show someCall.isSome by decide +kernel)
  have htrace := h _ _ _ _ _ _ _ _ _ _ "abc123" rfl (by decide +kernel) (by decide) (by decide) ht
  rw [lastTraceId_call ht] at htrace
  exact absurd htrace (by decide +kernel)

end Rolly.Tower
