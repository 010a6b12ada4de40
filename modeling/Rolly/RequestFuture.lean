import Rolly.CfRequestId
import Rolly.OtlpLayerRecords

/-!
# The future of a request

The future of the middleware enters the request span for each poll. When the
inner future is ready, it records the outcome on the span and traces the metric
events, call by call. Other threads may come in between; the inner future and
the rest of the program trace what they like.
-/

namespace Rolly.Requests

open Layer (FieldValue OtlpLayer Sent)
open Proto3 (Bytes)
open Tower (Request requestFields)

-- ---------------------------------------------------------------------------
-- What a poll traces
-- ---------------------------------------------------------------------------

def requestDuration : String := "http.server.request.duration"

def requestCount : String := "http.server.request.count"

def errorCount : String := "http.server.error.count"

/-- What the inner future returns from a poll. -/
inductive Output
  | pending
  | response (status : UInt16)
  | error
  deriving DecidableEq, Repr

/-- One call of the rest of the poll. -/
inductive Emission
  | record (field : String) (value : FieldValue)
  | event (fields : List (String × FieldValue))
  deriving DecidableEq, Repr

/-- A metric event. The `r#` of a raw identifier is no part of the name of a field. -/
def metricEvent (metric type : String) (value : FieldValue) (method route : String)
    (status : UInt16) : Emission :=
  .event [("metric", .str metric), ("type", .str type), ("value", value),
    ("method", .debug method), ("route", .debug route), ("status", .u64 status.toUInt64)]

def emissions (method uri : String) (latencyMs : F64) : Output → List Emission
  | .pending => []
  | .response status =>
    [.record "http.status_code" (.u64 status.toUInt64), .record "http.latency_ms" (.f64 latencyMs),
      metricEvent requestDuration "histogram" (.f64 latencyMs) method uri status,
      metricEvent requestCount "counter" (.u64 1) method uri status] ++
    if 400 ≤ status then [metricEvent errorCount "counter" (.u64 1) method uri status] else []
  | .error => [.record "http.latency_ms" (.f64 latencyMs)]

-- ---------------------------------------------------------------------------
-- States
-- ---------------------------------------------------------------------------

/-- Where a future is: between two polls, with the inner future polled on a
thread, in the rest of that poll, over, or dropped. -/
inductive Progress
  | waiting
  | polling (thread : Nat)
  | emitting (thread : Nat) (todo : List Emission) (isReady : Bool)
  | ready
  | dropped
  deriving DecidableEq, Repr

/-- The last five fields are history that no step reads. -/
structure CfRequestIdFuture where
  span : Nat
  method : String
  uri : String
  progress : Progress := .waiting
  -- the values of the new span; what the inner future was ready with and the
  -- latency; the span that was current then
  given : List (String × FieldValue)
  outcome : Option (Output × F64) := none
  context : Option Nat := none
  -- the values recorded on the span and if the future did it, and what came of
  -- the future's events
  recorded : List (Bool × String × FieldValue) := []
  logged : List Sent := []
  deriving DecidableEq, Repr

namespace CfRequestIdFuture

def emitsOn (thread : Nat) (f : CfRequestIdFuture) : Bool :=
  match f.progress with
  | .emitting th _ _ => th = thread
  | _ => false

def todo (f : CfRequestIdFuture) : List Emission :=
  match f.progress with
  | .emitting _ todo _ => todo
  | _ => []

def note (own : Bool) (a : Layer.Action) (sent : List Sent) (f : CfRequestIdFuture) :
    CfRequestIdFuture :=
  { f with
    recorded := f.recorded ++ (a.recorded f.span).map fun value => (own, value)
    logged := if own then f.logged ++ sent else f.logged }

end CfRequestIdFuture

/-- `foreign`, what the rest of the program sent, is history. -/
structure State where
  layer : Layer.State
  futures : List CfRequestIdFuture := []
  foreign : List Sent := []
  deriving DecidableEq, Repr

namespace State

/-- A thread does nothing else while a future emits on it. -/
def busy (s : State) (thread : Nat) : Bool := s.futures.any (·.emitsOn thread)

def setProgress (s : State) (i : Nat) (progress : Progress) : State :=
  { s with futures := s.futures.modify i fun f => { f with progress } }

end State

-- ---------------------------------------------------------------------------
-- Steps
-- ---------------------------------------------------------------------------

def threadOf : Layer.Action → Option Nat
  | .newSpan thread .. | .enter thread _ | .exit thread _ | .event thread .. => some thread
  | .record .. | .close .. => none

def closes (id : Nat) : Layer.Action → Bool
  | .close i _ => i = id
  | _ => false

/-- The rest of the program cannot close a span that a future holds. -/
def State.allows (s : State) (a : Layer.Action) : Bool :=
  (threadOf a).all (!s.busy ·) &&
    s.futures.all fun f => f.progress = .dropped || !closes f.span a

def Emission.action (span thread : Nat) (now : UInt64) : Emission → Layer.Action
  | .record field value => .record span [(field, value)]
  | .event fields => .event thread .info fields now

/-- The layer's part of a step, by future `who` or by the rest of the program. -/
def act (layer : OtlpLayer) (who : Option Nat) (a : Layer.Action) (s : State) : Option State :=
  (Layer.step layer a s.layer).map fun t =>
    let sent := t.sent.drop s.layer.sent.length
    { layer := t
      futures := s.futures.mapIdx fun i f => f.note (who = some i) a sent
      foreign := if who.isNone then s.foreign ++ sent else s.foreign }

inductive Action
  | call (thread : Nat) (uuid : TraceId) (spanId layerSpanId : SpanId) (now : UInt64)
      (req : Request)
  | poll (i thread : Nat)
  | returned (i : Nat) (output : Output) (latencyMs : F64)
  | emit (i : Nat) (now : UInt64)
  | drop (i : Nat)
  | other (a : Layer.Action)
  deriving DecidableEq, Repr

def step (layer : OtlpLayer) (blake3 : Bytes → Vector UInt8 32) : Action → State → Option State
  | .call thread uuid spanId layerSpanId now req, s =>
    let given := requestFields blake3 uuid spanId req
    let a := Layer.Action.newSpan thread .contextual "request" given layerSpanId now
    if s.allows a then (act layer none a s).map fun t =>
      let span := s.layer.spans.length
      { t with futures := t.futures ++ [{ span, method := req.method, uri := req.path, given }] }
    else none
  | .poll i thread, s => s.futures[i]?.bind fun f =>
    match f.progress with
    | .waiting =>
      if s.busy thread then none
      else (act layer (some i) (.enter thread f.span) s).map (·.setProgress i (.polling thread))
    | _ => none
  | .returned i output latencyMs, s => s.futures[i]?.bind fun f =>
    match f.progress with
    | .polling thread =>
      if s.busy thread then none
      else (s.layer.entered[thread]?).map fun stack =>
        let todo := emissions f.method f.uri latencyMs output
        let isReady := output ≠ .pending
        { s with futures := s.futures.set i { f with
          progress := .emitting thread todo isReady
          outcome := if isReady then some (output, latencyMs) else none
          context := if isReady then Layer.State.current stack else none } }
    | _ => none
  | .emit i now, s => s.futures[i]?.bind fun f =>
    match f.progress with
    | .emitting thread (e :: todo) isReady =>
      (act layer (some i) (e.action f.span thread now) s).map
        (·.setProgress i (.emitting thread todo isReady))
    | .emitting thread [] isReady => (act layer (some i) (.exit thread f.span) s).map
      (·.setProgress i (if isReady then .ready else .waiting))
    | _ => none
  | .drop i, s => s.futures[i]?.bind fun f =>
    match f.progress with
    | .waiting | .ready => some (s.setProgress i .dropped)
    | _ => none
  | .other a, s => if s.allows a then act layer none a s else none

def serving (layer : OtlpLayer) (blake3 : Bytes → Vector UInt8 32) : Machine State Action where
  init s := ∃ threads, s = { layer := { entered := List.replicate threads [] } }
  step := step layer blake3

end Rolly.Requests
