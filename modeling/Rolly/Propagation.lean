import Rolly.CfRequestId
import Rolly.MetricsExemplars
import Rolly.TraceIdLaws

/-!
# The `traceparent` of an outgoing request

The middleware walks up from the current span by itself and writes the IDs that
it finds into a header. The flags it writes are a constant.
-/

namespace Rolly.Tower

open Proto3 (Bytes utf8 utf8_append)
open Layer Metrics Instrumented

-- ---------------------------------------------------------------------------
-- The middleware
-- ---------------------------------------------------------------------------

/-- `HeaderValue::from_str` -/
def fromStr (s : String) : Option Bytes :=
  if (utf8 s).all isVisibleAscii then some (utf8 s) else none

/-- `HeaderMap::insert` puts the value in the place of all that had the name. -/
def Request.insert (req : Request) (name : String) (value : Bytes) : Request :=
  { req with headers := req.headers.filter (·.1 ≠ name) ++ [(name, value)] }

namespace PropagationService

/-- The IDs on the current span, or on the nearest ancestor that has any. -/
def traceIdSpanIdHex (spans : List Span) (stack : List (Nat × Bool)) :
    Option (String × String) := do
  let id ← State.current stack
  let span ← spans[id]?
  match span.fields with
  | some fields => some (hexEncode fields.traceId.toList, hexEncode fields.spanId.toList)
  | none =>
    (scope spans spans.length id).tail.findSome? fun ancestor =>
      ancestor.fields.map fun fields =>
        (hexEncode fields.traceId.toList, hexEncode fields.spanId.toList)

/-- The value of the header, with the flags that the layer documents. -/
def traceparent (spans : List Span) (stack : List (Nat × Bool)) : Option Bytes := do
  let (tid, sid) ← traceIdSpanIdHex spans stack
  fromStr ("00-" ++ tid ++ "-" ++ sid ++ "-01")

/-- The request that `call` hands to the inner service. -/
def call (spans : List Span) (stack : List (Nat × Bool)) (req : Request) : Request :=
  match traceparent spans stack with
  | some val => req.insert "traceparent" val
  | none => req

end PropagationService

-- ---------------------------------------------------------------------------
-- The format
-- ---------------------------------------------------------------------------

def isLowerHex (b : UInt8) : Bool := (0x30 ≤ b && b ≤ 0x39) || (0x61 ≤ b && b ≤ 0x66)

/-- Two lowercase digits for each byte of an ID. -/
structure IsHexOf (digits id : Bytes) : Prop where
  length : digits.length = 2 * id.length
  lower : digits.all isLowerHex
  reads : hexPairs digits = some id

/-- Version 00 of a span's IDs and of its sampling decision. The trace ID is
not all zeros. -/
def IsTraceparent (value : Bytes) (traceId : TraceId) (spanId : SpanId) (sampled : Bool) : Prop :=
  ∃ tid sid, value = utf8 "00-" ++ tid ++ utf8 "-" ++ sid ++ utf8 "-0" ++
      [if sampled then 0x31 else 0x30] ∧
    IsHexOf tid traceId.toList ∧ IsHexOf sid spanId.toList ∧ tid.any (· ≠ 0x30)

theorem IsTraceparent.flags (h : IsTraceparent value traceId spanId sampled) :
    value.getLast? = some (if sampled then 0x31 else 0x30) := by
  obtain ⟨tid, sid, rfl, -⟩ := h
  exact List.getLast?_concat

theorem hexByte_visible (n : Fin 16) :
    isLowerHex (hexByte n) ∧ isVisibleAscii (hexByte n) := by
  revert n
  decide +kernel

theorem mem_utf8_hexEncode {bytes : Bytes} (h : b ∈ utf8 (hexEncode bytes)) :
    ∃ n : Fin 16, b = hexByte n := by
  rw [utf8_hexEncode] at h
  obtain ⟨c, -, h⟩ := List.mem_flatMap.mp h
  have hc := c.toNat_lt
  simp only [hexPair, List.mem_cons, List.not_mem_nil, or_false] at h
  obtain rfl | rfl := h
  · exact ⟨⟨c.toNat / 16, by omega⟩, rfl⟩
  · exact ⟨⟨c.toNat % 16, by omega⟩, rfl⟩

theorem isHexOf_hexEncode (bytes : Bytes) : IsHexOf (utf8 (hexEncode bytes)) bytes where
  length := by rw [utf8_hexEncode, length_hexPairs]
  lower := by
    refine List.all_eq_true.mpr fun b hb => ?_
    obtain ⟨n, rfl⟩ := mem_utf8_hexEncode hb
    exact (hexByte_visible n).1
  reads := by rw [utf8_hexEncode, hexPairs_hexPair]

theorem IsHexOf.ne_zero {traceId : TraceId} (h : IsHexOf digits traceId.toList)
    (hne : traceId ≠ zeroTraceId) : digits.any (· ≠ 0x30) := by
  by_contra hzero
  have hall : ∀ b ∈ digits, b = 0x30 := by simpa using hzero
  have hdigits := List.eq_replicate_of_mem hall
  have hread := h.reads
  rw [hdigits, h.length, Vector.length_toList] at hread
  have hzeros : hexPairs (List.replicate (2 * 16) 0x30) = some zeroTraceId.toList := by
    decide +kernel
  rw [hzeros] at hread
  exact hne (Vector.toList_inj.mp (Option.some.inj hread).symm)

theorem fromStr_of_visible (h : ∀ b ∈ utf8 s, isVisibleAscii b) : fromStr s = some (utf8 s) :=
  if_pos (List.all_eq_true.mpr h)

theorem fromStr_traceparent (tid sid : Bytes) :
    fromStr ("00-" ++ hexEncode tid ++ "-" ++ hexEncode sid ++ "-01") =
      some (utf8 "00-" ++ utf8 (hexEncode tid) ++ utf8 "-" ++ utf8 (hexEncode sid) ++
        utf8 "-0" ++ [0x31]) := by
  have hhex : ∀ (bytes : Bytes), ∀ b ∈ utf8 (hexEncode bytes), isVisibleAscii b := by
    intro bytes b hb
    obtain ⟨n, rfl⟩ := mem_utf8_hexEncode hb
    exact (hexByte_visible n).2
  have hconst : ∀ b ∈ utf8 "00-" ++ utf8 "-" ++ utf8 "-01", isVisibleAscii b := by decide +kernel
  rw [fromStr_of_visible]
  · simp only [utf8_append, List.append_assoc]
    rfl
  · intro b hb
    simp only [utf8_append, List.mem_append] at hb hconst
    obtain (((hb | hb) | hb) | hb) | hb := hb
    · exact hconst b (.inl (.inl hb))
    · exact hhex tid b hb
    · exact hconst b (.inl (.inr hb))
    · exact hhex sid b hb
    · exact hconst b (.inr hb)

-- ---------------------------------------------------------------------------
-- The current span
-- ---------------------------------------------------------------------------

section
variable {s : Layer.State} {layer : OtlpLayer}

theorem current_fields {thread id : Nat} (hs : (tracing layer).Reachable s)
    (hstack : s.entered[thread]? = some stack) (hid : State.current stack = some id) :
    ∃ span fields, s.spans[id]? = some span ∧ span.fields = some fields := by
  obtain ⟨entry, hentry, rfl⟩ := current_mem hid
  have hlt := (reachable_inv hs).entered stack (List.mem_of_getElem? hstack) entry hentry
  have hspan := List.getElem?_eq_getElem hlt
  obtain ⟨i, hi, -⟩ := (reachable_forest hs).linked entry.1 s.spans[entry.1].birth
    (by rw [State.births_getElem?, hspan, Option.map_some])
  obtain ⟨fields, hfields, -⟩ := Option.map_eq_some_iff.mp hi
  exact ⟨_, fields, hspan, hfields⟩

theorem walks_end {id : Nat} (hid : State.current stack = some id)
    (hspan : s.spans[id]? = some span) (hfields : span.fields = some fields) :
    currentTraceContext s.spans stack = some (fields.traceId, fields.spanId) ∧
      PropagationService.traceIdSpanIdHex s.spans stack =
        some (hexEncode fields.traceId.toList, hexEncode fields.spanId.toList) := by
  constructor
  · simp [currentTraceContext, nearestFields, hid, hspan, hfields]
  · simp [PropagationService.traceIdSpanIdHex, hid, hspan, hfields]

theorem walks_nowhere (hid : State.current stack = none) :
    currentTraceContext s.spans stack = none ∧
      PropagationService.traceIdSpanIdHex s.spans stack = none := by
  constructor
  · simp [currentTraceContext, nearestFields, hid]
  · simp [PropagationService.traceIdSpanIdHex, hid]

theorem traceparent_eq {id : Nat} (hid : State.current stack = some id)
    (hspan : s.spans[id]? = some span) (hfields : span.fields = some fields) :
    ∃ value, PropagationService.traceparent s.spans stack = some value ∧
      value.getLast? = some 0x31 ∧
      (fields.traceId ≠ zeroTraceId → IsTraceparent value fields.traceId fields.spanId true) := by
  refine ⟨_, ?_, List.getLast?_concat, fun hne => ⟨_, _, rfl, isHexOf_hexEncode _,
    isHexOf_hexEncode _, (isHexOf_hexEncode _).ne_zero hne⟩⟩
  rw [PropagationService.traceparent, (walks_end hid hspan hfields).2]
  exact fromStr_traceparent _ _

/-- `capture_exemplar` takes the trace for an active one. -/
def isActive (spans : List Span) (stack : List (Nat × Bool)) (now : UInt64)
    (value : ExemplarValue) : Bool :=
  (captureExemplar ⟨true, currentTraceContext spans stack, now⟩ value).isSome

theorem isActive_iff {id : Nat} (hid : State.current stack = some id)
    (hspan : s.spans[id]? = some span) (hfields : span.fields = some fields) :
    isActive s.spans stack now value ↔ fields.traceId ≠ zeroTraceId := by
  have hzero : Vector.replicate 16 0 = zeroTraceId := rfl
  rw [isActive, (walks_end hid hspan hfields).1]
  by_cases h : fields.traceId = zeroTraceId <;> simp [captureExemplar, hzero, h]

theorem isActive_nowhere (hid : State.current stack = none) :
    isActive s.spans stack now value = false := by
  rw [isActive, (walks_nowhere (s := s) hid).1]
  rfl

-- ---------------------------------------------------------------------------
-- What is propagated
-- ---------------------------------------------------------------------------

/-- In an active trace the request gets the IDs of the current span, always
with the flags of a sampled one; outside every span it is left as it is. -/
theorem call_traceparent {thread : Nat} (hs : (tracing layer).Reachable s)
    (hstack : s.entered[thread]? = some stack) (req : Request) :
    (∀ now value, isActive s.spans stack now value →
      ∃ id span fields header, State.current stack = some id ∧ s.spans[id]? = some span ∧
        span.fields = some fields ∧
        PropagationService.call s.spans stack req = req.insert "traceparent" header ∧
        IsTraceparent header fields.traceId fields.spanId true) ∧
    (State.current stack = none → PropagationService.call s.spans stack req = req) := by
  constructor
  · intro now value hactive
    cases hid : State.current stack with
    | none =>
      rw [isActive_nowhere hid] at hactive
      cases hactive
    | some id =>
      obtain ⟨span, fields, hspan, hfields⟩ := current_fields hs hstack hid
      obtain ⟨header, hheader, -, hvalid⟩ := traceparent_eq hid hspan hfields
      refine ⟨id, span, fields, header, rfl, hspan, hfields, ?_,
        hvalid ((isActive_iff hid hspan hfields).mp hactive)⟩
      rw [PropagationService.call, hheader]
  · intro hid
    rw [PropagationService.call, PropagationService.traceparent, (walks_nowhere hid).2]
    rfl

/-- Whatever header is inserted describes the current span, and one is
inserted exactly in an active trace. -/
structure Describes (s : Layer.State) (stack : List (Nat × Bool)) : Prop where
  valid : ∀ header, PropagationService.traceparent s.spans stack = some header →
    ∃ id span fields, State.current stack = some id ∧ s.spans[id]? = some span ∧
      span.fields = some fields ∧ IsTraceparent header fields.traceId fields.spanId fields.sampled
  active : ∀ now value, (PropagationService.traceparent s.spans stack).isSome =
    isActive s.spans stack now value

/-- That is so exactly for a sampled span with a trace ID, or no span. -/
theorem describes_iff {thread : Nat} (hs : (tracing layer).Reachable s)
    (hstack : s.entered[thread]? = some stack) :
    Describes s stack ↔ ∀ id span fields, State.current stack = some id →
      s.spans[id]? = some span → span.fields = some fields →
      fields.traceId ≠ zeroTraceId ∧ fields.sampled := by
  constructor
  · intro h id span fields hid hspan hfields
    obtain ⟨header, hheader, hlast, -⟩ := traceparent_eq hid hspan hfields
    constructor
    · have hactive := h.active 0 (.int 0)
      rw [hheader] at hactive
      exact (isActive_iff hid hspan hfields).mp hactive.symm
    · obtain ⟨id', span', fields', hid', hspan', hfields', hvalid⟩ := h.valid header hheader
      obtain rfl := Option.some.inj (hid.symm.trans hid')
      obtain rfl := Option.some.inj (hspan.symm.trans hspan')
      obtain rfl := Option.some.inj (hfields.symm.trans hfields')
      have hflags := Option.some.inj (hlast.symm.trans hvalid.flags)
      by_contra hsampled
      rw [if_neg hsampled] at hflags
      exact absurd hflags (by decide)
  · intro h
    cases hid : State.current stack with
    | none =>
      have hnone : PropagationService.traceparent s.spans stack = none := by
        rw [PropagationService.traceparent, (walks_nowhere hid).2]
        rfl
      refine ⟨fun header hheader => ?_, fun now value => ?_⟩
      · rw [hnone] at hheader
        cases hheader
      · rw [hnone, isActive_nowhere hid]
        rfl
    | some id =>
      obtain ⟨span, fields, hspan, hfields⟩ := current_fields hs hstack hid
      obtain ⟨hne, hsampled⟩ := h id span fields hid hspan hfields
      obtain ⟨header, hheader, -, hvalid⟩ := traceparent_eq hid hspan hfields
      refine ⟨fun header' hheader' => ?_, fun now value => ?_⟩
      · obtain rfl := Option.some.inj (hheader.symm.trans hheader')
        exact ⟨id, span, fields, hid, hspan, hfields, hsampled ▸ hvalid hne⟩
      · rw [hheader, (isActive_iff hid hspan hfields).mpr hne]
        rfl

end

def insideSpan (given : List (String × FieldValue)) : List Layer.Action :=
  [.newSpan 0 .root "request" given (.replicate 8 1) 1, .enter 0 0]

theorem call_traceparent_traced : ∃ s, (tracing exportHalf).run (insideSpan tracedFields)
      { entered := [[]] } = some s ∧
    isActive s.spans [(0, false)] 7 (.int 1) ∧
    (∀ now value, isActive s.spans [(0, false)] now value →
      ∃ id span fields header, State.current [(0, false)] = some id ∧ s.spans[id]? = some span ∧
        span.fields = some fields ∧
        PropagationService.call s.spans [(0, false)] someRequest =
          someRequest.insert "traceparent" header ∧
        IsTraceparent header fields.traceId fields.spanId true) ∧
    (State.current [(0, false)] = none →
      PropagationService.call s.spans [(0, false)] someRequest = someRequest) := by
  obtain ⟨s, hs⟩ := Option.isSome_iff_exists.mp (show ((tracing exportHalf).run
    (insideSpan tracedFields) { entered := [[]] }).isSome by decide +kernel)
  have hstack := Machine.of_run hs (f := fun s => s.entered[0]?) (y := some [(0, false)])
    (by decide +kernel)
  exact ⟨s, hs, Machine.of_run hs (f := fun s => isActive s.spans [(0, false)] 7 (.int 1))
    (by decide +kernel),
    call_traceparent (Machine.Reachable.run (.init ⟨1, rfl⟩) hs) hstack someRequest⟩

/-- A span that is sampled out is announced as a sampled one. -/
theorem traceparent_not_sampled : ¬∀ layer s (thread : Nat) stack, (tracing layer).Reachable s →
    s.entered[thread]? = some stack → Describes s stack := by
  intro h
  obtain ⟨s, hs⟩ := Option.isSome_iff_exists.mp (show ((tracing exportHalf).run
    (insideSpan [("trace_id", .str "ffffffffffffffffffffffffffffffff")])
    { entered := [[]] }).isSome by decide +kernel)
  have hstack := Machine.of_run hs (f := fun s => s.entered[0]?) (y := some [(0, false)])
    (by decide +kernel)
  have hout := Machine.of_run hs (f := fun s => (s.spans[0]?.bind (·.fields)).map (·.sampled))
    (y := some false) (by decide +kernel)
  have hr : (tracing exportHalf).Reachable s := .run (.init ⟨1, rfl⟩) hs
  obtain ⟨span, fields, hspan, hfields⟩ := current_fields hr hstack
    (show State.current [(0, false)] = some 0 from rfl)
  have hsampled := ((describes_iff hr hstack).mp (h exportHalf s 0 _ hr hstack) 0 span fields rfl
    hspan hfields).2
  rw [hspan, Option.bind_some, hfields, Option.map_some, Option.some_inj, hsampled] at hout
  cases hout

end Rolly.Tower
