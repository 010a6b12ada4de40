import Mathlib.Algebra.Group.Int.Defs
import Rolly.LogRoundTrip
import Rolly.OtlpLayerRecords
import Rolly.TraceRoundTrip

/-!
# Integers from the field to the wire

What `record_i64` and `record_u64` are given passes through an `i64` attribute
and its varint. A collector reads the same integers in the same order, except
that a `u64` from `2 ^ 63` on is less by `2 ^ 64`.
-/

namespace Rolly

open Proto3 (Bytes)

namespace Otlp

def Request.items (request : Request α) : List α :=
  request.resources.flatMap fun resource => resource.scopes.flatMap (·.items)

/-- An attribute that is read as an `int_value`. -/
def KeyValue.intValue? (kv : KeyValue) : Option (String × Int) :=
  match kv.value with
  | some (some (.int value)) => some (kv.key, value.toInt)
  | _ => none

def intValues (attributes : List KeyValue) : List (String × Int) :=
  attributes.filterMap KeyValue.intValue?

end Otlp

theorem items_requestErased (attrs : List KeyValue) (name version : String) (item : α) :
    (requestErased attrs name version [item]).items = [item] := by
  simp [requestErased, resourceItemsErased, scopeItemsErased, Otlp.Request.items]

/-- A request that was written for one item is read as that item. -/
theorem items_of_encodeNodes {α β : Type} {nodes : α → List Proto.Node}
    {mergeItem : β → Proto3.Field → Option β} {init : β} {v : α → β} {x : α}
    (hne : Proto.nodesBytes (nodes x) ≠ []) (hi : Proto.Reads mergeItem (nodes x) init (v x))
    (h : Proto.encodeNodes (requestNodes attrs name version [nodes x]) [] = some bytes)
    (hl : bytes.length ≤ Proto.vecCapacity) :
    (Otlp.decodeRequest mergeItem init bytes).map Otlp.Request.items = some [v x] := by
  have hs := Proto.short_of_encodeNodes _ h (by simp [Proto.vecCapacity] at hl ⊢; omega)
  obtain ⟨bytes', hb, hd⟩ := decodeRequest_encodeNodes attrs name version [x]
    (fun y hy => List.mem_singleton.mp hy ▸ hne) (fun y hy => List.mem_singleton.mp hy ▸ hi) hs
  rw [List.map_singleton, h] at hb
  obtain rfl := Option.some.inj hb
  rw [hd, Option.map_some, List.map_singleton, items_requestErased]

namespace Layer

-- ---------------------------------------------------------------------------
-- Integers
-- ---------------------------------------------------------------------------

def FieldValue.integer? : FieldValue → Option Int
  | .i64 value => some value.toInt
  | .u64 value => some value.toNat
  | _ => none

/-- The integers among recorded values. -/
def integersOf (values : List (String × FieldValue)) : List (String × Int) :=
  values.filterMap fun (name, value) => value.integer?.map (name, ·)

/-- The `i64` with the same 64 bits. -/
def asInt64 (n : Int) : Int := if n < 2 ^ 63 then n else n - 2 ^ 64

theorem asInt64_eq {n : Int} : asInt64 n = n ↔ n < 2 ^ 63 := by
  rw [asInt64]
  split <;> omega

theorem asInt64_toNat (v : UInt64) : asInt64 v.toNat = v.toInt64.toInt := by
  have hv := v.toNat_lt
  have hcond : v.toInt64.toInt = if 2 * v.toNat < 2 ^ 64 then (v.toNat : Int)
      else v.toNat - (2 ^ 64 : Nat) := BitVec.toInt_eq_toNat_cond v.toBitVec
  rw [hcond, asInt64]
  split <;> split <;> omega

theorem erased_intValue? (kv : KeyValue) : kv.erased.bind Otlp.KeyValue.intValue? =
    match kv.value with
    | .int value => some (kv.key, value.toInt)
    | _ => none := by
  obtain ⟨key, value⟩ := kv
  simp only [KeyValue.erased]
  split
  · rename_i h
    cases value with
    | int v => cases h.2
    | _ => rfl
  · cases value with
    | int v => rfl
    | string s => by_cases hs : s = "" <;>
        simp [KeyValue.read, AnyValue.field, AnyValue.erased, Otlp.KeyValue.intValue?, hs]
    | bytes b => by_cases hb : b = [] <;>
        simp [KeyValue.read, AnyValue.field, AnyValue.erased, Otlp.KeyValue.intValue?, hb]
    | _ => rfl

theorem kept_of_text? (h : value.text? = none) :
    kept (name, value) = some ⟨name, value.exported⟩ := by
  simp [kept, isMessage, h]

/-- The integers of the attributes that recorded values become. -/
theorem intValues_kept (values : List (String × FieldValue)) :
    Otlp.intValues ((values.filterMap kept).filterMap KeyValue.erased) =
      (integersOf values).map fun (name, n) => (name, asInt64 n) := by
  rw [Otlp.intValues, List.filterMap_filterMap, List.filterMap_filterMap, integersOf,
    List.map_filterMap]
  refine List.filterMap_congr fun (name, value) _ => ?_
  simp only [erased_intValue?]
  cases value with
  | debug text | str text =>
    simp only [kept]
    split <;> rfl
  | i64 v =>
    rw [kept_of_text? rfl]
    exact congrArg (fun n => some (name, n)) (asInt64_eq.mpr v.toInt_lt).symm
  | u64 v =>
    rw [kept_of_text? rfl]
    exact congrArg (fun n => some (name, n)) (asInt64_toNat v).symm
  | bool v | f64 v =>
    rw [kept_of_text? rfl]
    rfl

/-- The integers that a collector reads in the attributes of the span, or of the
log record, that a message carries. -/
def spanIntegers (bytes : Bytes) : Option (List (String × Int)) :=
  (Otlp.decodeExportTraceRequest bytes).map fun request =>
    Otlp.intValues (request.items.flatMap (·.attributes))

def logIntegers (bytes : Bytes) : Option (List (String × Int)) :=
  (Otlp.decodeExportLogsRequest bytes).map fun request =>
    Otlp.intValues (request.items.flatMap (·.attributes))

section
variable {layer : OtlpLayer}

theorem spanIntegers_encode (h : layer.encode (.traces data) = some bytes)
    (hl : bytes.length ≤ Proto.vecCapacity) (hattrs : data.attributes = values.filterMap kept) :
    spanIntegers bytes = some ((integersOf values).map fun (name, n) => (name, asInt64 n)) := by
  rw [OtlpLayer.encode, encodeExportTraceRequest_nodes] at h
  have hitems := items_of_encodeNodes (spanNodes_ne_nil data) (reads_span data) h hl
  obtain ⟨request, hread, hitems⟩ := Option.map_eq_some_iff.mp hitems
  have hread : Otlp.decodeExportTraceRequest bytes = some request := hread
  rw [spanIntegers, hread, Option.map_some, hitems, ← intValues_kept, ← hattrs]
  simp [SpanData.erased]

theorem logIntegers_encode (h : layer.encode (.logs log) = some bytes)
    (hl : bytes.length ≤ Proto.vecCapacity) (hattrs : log.attributes = values.filterMap kept) :
    logIntegers bytes = some ((integersOf values).map fun (name, n) => (name, asInt64 n)) := by
  rw [OtlpLayer.encode, encodeExportLogsRequest_nodes] at h
  have hitems := items_of_encodeNodes (logRecordNodes_ne_nil log) (reads_logRecord log) h hl
  obtain ⟨request, hread, hitems⟩ := Option.map_eq_some_iff.mp hitems
  have hread : Otlp.decodeExportLogsRequest bytes = some request := hread
  rw [logIntegers, hread, Option.map_some, hitems, ← intValues_kept, ← hattrs]
  simp [LogData.erased]

/-- The bytes that go to the exporter are those of the message. -/
theorem step_data (h : step layer a s = some t)
    (hs : ∀ m ∈ s.sent, m.data = layer.encode m.message) :
    ∀ m ∈ t.sent, m.data = layer.encode m.message := by
  have hsend (span : Option Nat) (message : Option Export) :
      ∀ m ∈ (s.send layer span message).sent, m.data = layer.encode m.message := by
    intro m hm
    rcases List.mem_append.mp hm with hm | hm
    · exact hs m hm
    · obtain ⟨message, -, rfl⟩ := Option.map_eq_some_iff.mp (Option.mem_toList.mp hm)
      rfl
  cases step_stepped h with
  | event => exact hsend _ _
  | close => exact hsend _ _
  | newSpan | record | enter | exit => exact hs

theorem reachable_data (h : (tracing layer).Reachable s) :
    ∀ m ∈ s.sent, m.data = layer.encode m.message :=
  h.invariant (fun s hs => by obtain ⟨threads, rfl⟩ := hs; exact fun m hm => (by cases hm))
    fun _ _ _ _ hs ht => step_data ht hs

theorem span_integers {data : SpanData} (hs : (tracing layer).Reachable s)
    (hnew : step layer (.newSpan thread parent name given spanId now) s = some u)
    (hrun : (tracing layer).run actions u = some t)
    (hsent : ⟨some s.spans.length, .traces data, some bytes⟩ ∈ t.sent)
    (hl : bytes.length ≤ Proto.vecCapacity) :
    spanIntegers bytes = some ((integersOf (given ++ recordedOn s.spans.length actions)).map
      fun (name, n) => (name, asInt64 n)) := by
  have hstep : (tracing layer).step (.newSpan thread parent name given spanId now) s = some u :=
    hnew
  have ht : (tracing layer).Reachable t := Machine.Reachable.run (hs.step hstep) hrun
  have hdata : data ∈ t.exports s.spans.length :=
    List.mem_filterMap.mpr ⟨_, hsent, by simp [Export.span?]⟩
  obtain ⟨hattrs, -⟩ := ((stored_new hs hnew).run hrun).exported data hdata
  rw [← List.filterMap_append] at hattrs
  exact spanIntegers_encode (reachable_data ht _ hsent).symm hl hattrs

theorem onEvent_attributes (h : layer.onEvent current level fields now = some log) :
    log.attributes = fields.filterMap kept := by
  unfold OtlpLayer.onEvent at h
  simp only [Option.ite_none_left_eq_some, Option.some.injEq] at h
  obtain ⟨-, -, rfl⟩ := h
  exact ofFields_attrs fields

theorem event_integers {log : LogData}
    (h : step layer (.event thread level fields now) s = some t)
    (hsent : t.sent = s.sent ++ [⟨span, .logs log, some bytes⟩])
    (hl : bytes.length ≤ Proto.vecCapacity) :
    logIntegers bytes = some ((integersOf fields).map fun (name, n) => (name, asInt64 n)) := by
  cases step_stepped h with
  | event he =>
    have hone := List.append_cancel_left hsent
    obtain ⟨message, hmessage, hm⟩ :=
      Option.map_eq_some_iff.mp (Option.toList_eq_singleton_iff.mp hone)
    obtain ⟨log', hlog, rfl⟩ := Option.map_eq_some_iff.mp hmessage
    simp only [Sent.mk.injEq, Export.logs.injEq] at hm
    obtain ⟨-, rfl, hencode⟩ := hm
    exact logIntegers_encode hencode hl (onEvent_attributes hlog)

end

/-- What a collector gets for recorded integers: each as the `i64` of its 64
bits, which is the same number for all of them exactly if none is `2 ^ 63` or
more. -/
def CarriesIntegers (recorded : List (String × Int)) (received : Option (List (String × Int))) :
    Prop :=
  received = some (recorded.map fun (name, n) => (name, asInt64 n)) ∧
    (received = some recorded ↔ ∀ field ∈ recorded, field.2 < 2 ^ 63)

theorem carriesIntegers_of_eq {recorded : List (String × Int)}
    (h : received = some (recorded.map fun (name, n) => (name, asInt64 n))) :
    CarriesIntegers recorded received := by
  refine ⟨h, ?_⟩
  rw [h, Option.some_inj]
  constructor
  · intro heq field hfield
    obtain ⟨i, hi⟩ := List.getElem?_of_mem hfield
    have hmap := congrArg (·[i]?) heq
    simp only [List.getElem?_map, hi, Option.map_some, Option.some_inj] at hmap
    exact asInt64_eq.mp (congrArg Prod.snd hmap)
  · intro hall
    refine (List.map_congr_left fun field hfield => ?_).trans (List.map_id recorded)
    exact congrArg (field.1, ·) (asInt64_eq.mpr (hall field hfield))

/-- Every integer that is recorded on an exported span or event is read by the
collector, in order, under its name, as the `i64` of its 64 bits. -/
theorem integers_exported (layer : OtlpLayer) :
    (∀ s thread parent name given spanId now u actions t data bytes,
      (tracing layer).Reachable s →
      step layer (.newSpan thread parent name given spanId now) s = some u →
      (tracing layer).run actions u = some t →
      ⟨some s.spans.length, .traces data, some bytes⟩ ∈ t.sent →
      bytes.length ≤ Proto.vecCapacity →
      CarriesIntegers (integersOf (given ++ recordedOn s.spans.length actions))
        (spanIntegers bytes)) ∧
    ∀ s thread level fields now t span log bytes, (tracing layer).Reachable s →
      step layer (.event thread level fields now) s = some t →
      t.sent = s.sent ++ [⟨span, .logs log, some bytes⟩] → bytes.length ≤ Proto.vecCapacity →
      CarriesIntegers (integersOf fields) (logIntegers bytes) :=
  ⟨fun _ _ _ _ _ _ _ _ _ _ _ _ hs hnew hrun hsent hl =>
      carriesIntegers_of_eq (span_integers hs hnew hrun hsent hl),
    fun _ _ _ _ _ _ _ _ _ _ h hsent hl => carriesIntegers_of_eq (event_integers h hsent hl)⟩

/-- An event outside every span, as it is logged. -/
def eventLog (fields : List (String × FieldValue)) : LogData where
  timeUnixNano := 2
  severityNumber := .info
  severityText := "INFO"
  body := .string ""
  attributes := (FieldCollector.ofFields fields).attrs
  traceId := zeroTraceId
  spanId := zeroSpanId

def eventNodes (fields : List (String × FieldValue)) : List Proto.Node :=
  requestNodes exportAll.resourceAttrs exportAll.scopeName exportAll.scopeVersion
    [logRecordNodes (eventLog fields)]

theorem event_sent (fields : List (String × FieldValue))
    (hshort : Proto.BodiesShort (eventNodes fields))
    (hm : (FieldCollector.ofFields fields).message = none) : ∃ t,
    step exportAll (.event 0 .info fields 2) { entered := [[]] } = some t ∧
      t.sent =
        [] ++ [⟨none, .logs (eventLog fields), some (Proto.nodesBytes (eventNodes fields))⟩] := by
  have hencode : exportAll.encode (.logs (eventLog fields)) =
      some (Proto.nodesBytes (eventNodes fields)) := by
    rw [OtlpLayer.encode, encodeExportLogsRequest_nodes]
    exact Proto.encodeNodes_eq _ hshort []
  have hlog : exportAll.onEvent none .info fields 2 = some (eventLog fields) := by
    simp [OtlpLayer.onEvent, hm, eventLog, exportAll, OtlpLayer.new]
    exact ⟨rfl, rfl⟩
  refine ⟨_, rfl, ?_⟩
  have hcurrent : (State.current []).bind (([] : List Span)[·]?) = none := rfl
  simp only [State.send, hcurrent, hlog, Option.map_some, hencode, Option.toList_some]
  rfl

/-- A span that is recorded on once. -/
def signedSpan : SpanData :=
  ⟨zeroTraceId, zeroSpanId, zeroSpanId, "job", .internal, 1, 9, [⟨"a", .int (-1)⟩, ⟨"b", .int 5⟩],
    none⟩

def signedNodes : List Proto.Node :=
  requestNodes exportAll.resourceAttrs exportAll.scopeName exportAll.scopeVersion
    [spanNodes signedSpan]

theorem integers_exported_signed :
    CarriesIntegers (integersOf ([("a", .i64 (-1))] ++
        recordedOn 0 [.record 0 [("b", .u64 5)], .close 0 9]))
      (spanIntegers (Proto.nodesBytes signedNodes)) ∧
    CarriesIntegers (integersOf [("a", .i64 (-1)), ("b", .u64 5)])
      (logIntegers (Proto.nodesBytes (eventNodes [("a", .i64 (-1)), ("b", .u64 5)]))) := by
  have hstart : (tracing exportAll).Reachable { entered := [[]] } := .init ⟨1, rfl⟩
  constructor
  · obtain ⟨u, hu⟩ := Option.isSome_iff_exists.mp (show (step exportAll
      (.newSpan 0 .root "job" [("a", .i64 (-1))] zeroSpanId 1) { entered := [[]] }).isSome
      by decide +kernel)
    obtain ⟨t, ht⟩ := Option.isSome_iff_exists.mp (Machine.of_run hu
      (f := fun u => ((tracing exportAll).run [.record 0 [("b", .u64 5)], .close 0 9] u).isSome)
      (y := true) (by decide +kernel))
    have hstep : (tracing exportAll).step
      (.newSpan 0 .root "job" [("a", .i64 (-1))] zeroSpanId 1) { entered := [[]] } = some u := hu
    have hsent := Machine.of_run hu (f := fun u => ((tracing exportAll).run
      [.record 0 [("b", .u64 5)], .close 0 9] u).map fun t =>
        t.sent.map fun m => (m.span, m.message)) (y := some [(some 0, .traces signedSpan)])
      (by decide +kernel)
    rw [ht, Option.map_some, Option.some_inj] at hsent
    obtain ⟨m, hm, hspan⟩ := List.mem_map.mp (hsent ▸ List.mem_singleton_self _)
    obtain ⟨span, message, data⟩ := m
    obtain ⟨rfl, rfl⟩ := Prod.mk.inj hspan
    have hdata := reachable_data (Machine.Reachable.run (hstart.step hstep) ht) _ hm
    have hencode : exportAll.encode (.traces signedSpan) = some (Proto.nodesBytes signedNodes) := by
      rw [OtlpLayer.encode, encodeExportTraceRequest_nodes]
      exact Proto.encodeNodes_eq _ (by decide +kernel) []
    obtain rfl : data = some (Proto.nodesBytes signedNodes) := hdata.trans hencode
    exact (integers_exported exportAll).1 _ _ _ _ _ _ _ _ _ _ _ _ hstart hu ht hm
      (by decide +kernel)
  · obtain ⟨t, ht, hsent⟩ := event_sent [("a", .i64 (-1)), ("b", .u64 5)]
      (by decide +kernel) rfl
    exact (integers_exported exportAll).2 _ _ _ _ _ _ _ _ _ hstart ht hsent (by decide +kernel)

/-- A `u64` that no `i64` equals. -/
theorem integers_not_carried : ¬∀ layer s thread level fields now t span log bytes,
    (tracing layer).Reachable s → step layer (.event thread level fields now) s = some t →
    t.sent = s.sent ++ [⟨span, .logs log, some bytes⟩] → bytes.length ≤ Proto.vecCapacity →
    logIntegers bytes = some (integersOf fields) := by
  intro h
  obtain ⟨t, ht, hsent⟩ := event_sent [("n", .u64 (2 ^ 63))] (by decide +kernel) rfl
  have hlong : (Proto.nodesBytes (eventNodes [("n", .u64 (2 ^ 63))])).length ≤
      Proto.vecCapacity := by
    decide +kernel
  have hkept := h exportAll _ 0 .info _ 2 t none _ _ (.init ⟨1, rfl⟩) ht hsent hlong
  rw [event_integers ht hsent hlong, Option.some_inj] at hkept
  exact absurd hkept (by decide +kernel)

end Layer

end Rolly
