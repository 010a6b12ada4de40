import Rolly.OtlpLayerForest

/-!
# What was recorded on a span

The values of `on_new_span` and of every `on_record` are kept one after the
other. A span is exported with all of them.
-/

namespace Rolly.Layer

-- ---------------------------------------------------------------------------
-- Collected fields
-- ---------------------------------------------------------------------------

def FieldValue.exported : FieldValue → AnyValue
  | .debug text => .string text
  | .str text => .string text
  | .i64 value => .int value
  | .u64 value => .int value.toInt64
  | .bool value => .bool value
  | .f64 value => .double value

/-- Text under the name `message` is the body of an event. -/
def isMessage (name : String) (value : FieldValue) : Bool := name = "message" && value.text?.isSome

def kept : String × FieldValue → Option KeyValue
  | (name, value) => if isMessage name value then none else some ⟨name, value.exported⟩

theorem record_attrs (c : FieldCollector) (field : String × FieldValue) :
    (c.record field).attrs = c.attrs ++ (kept field).toList := by
  obtain ⟨name, value⟩ := field
  cases value with
  | debug text =>
    simp only [FieldCollector.record, FieldCollector.recordDebug]
    split <;> simp_all [kept, isMessage, FieldValue.text?, FieldCollector.push, FieldValue.exported]
  | str text =>
    simp only [FieldCollector.record, FieldCollector.recordStr]
    split
    · simp_all [kept, isMessage, FieldValue.text?]
    · split
      · split <;>
          simp_all [kept, isMessage, FieldValue.text?, FieldCollector.push, FieldValue.exported]
      · simp_all [kept, isMessage, FieldValue.text?, FieldCollector.push, FieldValue.exported]
  | _ => simp [kept, isMessage, FieldValue.text?, FieldValue.exported, FieldCollector.record,
      FieldCollector.recordI64, FieldCollector.recordU64, FieldCollector.recordBool,
      FieldCollector.recordF64, FieldCollector.push]

theorem ofFields_attrs (fields : List (String × FieldValue)) :
    (FieldCollector.ofFields fields).attrs = fields.filterMap kept := by
  induction fields using List.reverseRecOn with
  | nil => rfl
  | append_singleton fields field ih =>
    have hlast : FieldCollector.ofFields (fields ++ [field]) =
        (FieldCollector.ofFields fields).record field := by
      simp [FieldCollector.ofFields]
    rw [hlast, record_attrs, ih, List.filterMap_append]
    cases h : kept field <;> simp [h]

-- ---------------------------------------------------------------------------
-- What a span stores
-- ---------------------------------------------------------------------------

/-- The values that an action records on span `id`. -/
def Action.recorded (id : Nat) : Action → List (String × FieldValue)
  | .record i values => if i = id then values else []
  | _ => []

def recordedOn (id : Nat) (actions : List Action) : List (String × FieldValue) :=
  actions.flatMap (·.recorded id)

/-- Span `id` has these attributes and this trace ID, and whatever was exported
for it has them too; for an open span that is nothing. -/
structure Stored (s : State) (id : Nat) (attrs : List KeyValue) (traceId : TraceId) : Prop where
  span : ∃ span fields, s.spans[id]? = some span ∧ span.fields = some fields ∧
    fields.attrs = attrs ∧ fields.traceId = traceId ∧ (span.closed = false → s.exports id = [])
  exported : ∀ data ∈ s.exports id, data.attributes = attrs ∧ data.traceId = traceId

section
variable {s t u : State} {layer : OtlpLayer} {id : Nat}

theorem Stored.of_eq (hs : Stored s id attrs traceId) (hspan : t.spans[id]? = s.spans[id]?)
    (hexports : t.exports id = s.exports id) : Stored t id attrs traceId where
  span := by
    rw [hspan, hexports]
    exact hs.span
  exported := by
    rw [hexports]
    exact hs.exported

theorem onClose_attributes (h : layer.onClose span now = some data) :
    span.fields.map (·.attrs) = some data.attributes := by
  unfold OtlpLayer.onClose at h
  split at h
  · cases h
  · split at h
    · rename_i hfields
      split at h
      · cases h
      · obtain rfl := Option.some.inj h
        rw [hfields]
        rfl
    · cases h

theorem Stored.step (hs : Stored s id attrs traceId) (h : step layer a s = some t) :
    Stored t id (attrs ++ (a.recorded id).filterMap kept) traceId := by
  obtain ⟨span, fields, hspan, hfields, hattrs, htrace, hopen⟩ := hs.span
  obtain ⟨hlt, -⟩ := List.getElem?_eq_some_iff.mp hspan
  have hother : a.recorded id = [] → Stored t id attrs traceId →
      Stored t id (attrs ++ (a.recorded id).filterMap kept) traceId := by
    intro hnone ht
    rwa [hnone, List.filterMap_nil, List.append_nil]
  cases step_stepped h with
  | newSpan =>
    exact hother rfl (hs.of_eq (List.getElem?_append_left hlt) rfl)
  | @record values i ho =>
    by_cases hi : i = id
    · subst hi
      -- the span is open, so nothing was exported for it
      have hclosed : span.closed = false := by simpa [State.isOpen, hspan] using ho
      have hrecorded : (Action.record i values).recorded i = values := if_pos rfl
      rw [hrecorded]
      refine ⟨⟨{ span with fields := OtlpLayer.onRecord span.fields values },
        { fields with attrs := fields.attrs ++ (FieldCollector.ofFields values).attrs }, ?_, ?_, ?_,
        htrace, hopen⟩, fun data hdata => ?_⟩
      · simp [hspan]
      · simp [OtlpLayer.onRecord, hfields]
      · rw [hattrs, ofFields_attrs]
      · have hdata : data ∈ s.exports i := hdata
        rw [hopen hclosed] at hdata
        cases hdata
    · exact hother (if_neg hi) (hs.of_eq (by simp [hi]) rfl)
  | enter | exit => exact hother rfl (hs.of_eq rfl rfl)
  | @event thread entries level given now =>
    refine hother rfl (hs.of_eq rfl ?_)
    rw [exports_send]
    cases layer.onEvent _ level given now <;> simp [Export.span?]
  | @close span' now i hspan' =>
    refine hother rfl ?_
    have hexports := exports_send (s := s) layer id (some i)
      ((layer.onClose span' now).map .traces)
    by_cases hi : i = id
    · subst hi
      obtain rfl := Option.some.inj (hspan.symm.trans hspan')
      refine ⟨⟨{ span with closed := true }, fields, ?_, hfields, hattrs, htrace,
        fun h => (by cases h)⟩,
        fun data hdata => ?_⟩
      · simp [hspan]
      · obtain hdata | hdata := List.mem_append.mp (hexports ▸ hdata)
        · exact hs.exported data hdata
        · cases hc : layer.onClose span now with
          | none => simp [hc] at hdata
          | some exported =>
            obtain rfl : data = exported := by simpa [hc, Export.span?] using hdata
            have hx := onClose_attributes hc
            have hy := onClose_traceId hc
            simp only [hfields, Option.map_some, Option.some_inj] at hx hy
            exact ⟨hx ▸ hattrs, hy ▸ htrace⟩
    · refine hs.of_eq (by simp [hi]) (hexports.trans ?_)
      simp [hi]

theorem Stored.run (hs : Stored s id attrs traceId) (h : (tracing layer).run actions s = some t) :
    Stored t id (attrs ++ (recordedOn id actions).filterMap kept) traceId := by
  induction actions generalizing s attrs with
  | nil =>
    rw [Machine.run_nil] at h
    obtain rfl := Option.some.inj h
    rwa [recordedOn, List.flatMap_nil, List.filterMap_nil, List.append_nil]
  | cons a actions ih =>
    obtain ⟨u, hu, hr⟩ := Machine.run_cons_some.mp h
    have hstep := ih (hs.step hu) hr
    rwa [List.append_assoc, ← List.filterMap_append] at hstep

theorem stored_new (hs : (tracing layer).Reachable s)
    (h : step layer (.newSpan thread parent name given spanId now) s = some u) :
    Stored u s.spans.length (given.filterMap kept) ((ownTraceId given).getD zeroTraceId) := by
  have hnone := (reachable_forest hs).exports_new
  cases step_stepped h with
  | newSpan =>
    refine ⟨⟨_, _, List.getElem?_concat_length .., rfl, ofFields_attrs given, ?_, fun _ => hnone⟩,
      fun data hdata => ?_⟩
    · rw [← ofFields_traceId]
      rfl
    · have hdata : data ∈ s.exports s.spans.length := hdata
      rw [hnone] at hdata
      cases hdata

end

-- ---------------------------------------------------------------------------
-- What is exported
-- ---------------------------------------------------------------------------

def traceIdTexts (values : List (String × FieldValue)) : List FieldValue :=
  (values.filter fun field => field.1 = "trace_id" && field.2.text?.isSome).map (·.2)

theorem ownTraceId_of_last (h : (traceIdTexts given).getLast? = some (.str text))
    (hx : hexToBytes16 text = some traceId) : ownTraceId given = some traceId := by
  have hread : given.filterMap readTraceId = (traceIdTexts given).filterMap fun value =>
      readTraceId ("trace_id", value) := by
    rw [traceIdTexts, List.filterMap_map, List.filterMap_filter]
    refine List.filterMap_congr fun field _ => ?_
    obtain ⟨name, value⟩ := field
    by_cases hname : name = "trace_id" <;> cases value <;>
      simp [readTraceId, hname, FieldValue.text?]
  obtain ⟨front, hfront⟩ := List.getLast?_eq_some_iff.mp h
  have hlast : readTraceId ("trace_id", .str text) = some traceId := hx
  rw [ownTraceId, hread, hfront, List.filterMap_append, List.filterMap_cons, hlast]
  exact List.getLast?_concat

/-- The last attribute under a name is the value recorded last. -/
theorem kept_last {values : List (String × FieldValue)}
    (h : values = front ++ (name, value) :: back) (hm : isMessage name value = false)
    (hback : ∀ later ∈ back, later.1 ≠ name) :
    ((values.filterMap kept).filter (·.key = name)).getLast? = some ⟨name, value.exported⟩ := by
  have hkept : kept (name, value) = some ⟨name, value.exported⟩ := by simp [kept, hm]
  have hnone : (back.filterMap kept).filter (·.key = name) = [] := by
    refine List.filter_eq_nil_iff.mpr fun kv hkv => ?_
    obtain ⟨⟨name', value'⟩, hmem, hkept⟩ := List.mem_filterMap.mp hkv
    simp only [kept, Option.ite_none_left_eq_some] at hkept
    obtain ⟨-, rfl⟩ := by simpa using hkept
    simpa using hback _ hmem
  rw [h, List.filterMap_append, List.filterMap_cons, hkept, List.filter_append, List.filter_cons,
    hnone, if_pos (decide_eq_true rfl)]
  exact List.getLast?_concat

/-- A span is exported with every value that was recorded on it, so the last
attribute under each name is the value recorded last, and under the trace ID
that it was created with. -/
theorem recorded_exported (hs : (tracing layer).Reachable s)
    (hnew : step layer (.newSpan thread parent name given spanId now) s = some u)
    (hrun : (tracing layer).run actions u = some t) (hdata : data ∈ t.exports s.spans.length) :
    data.attributes = (given ++ recordedOn s.spans.length actions).filterMap kept ∧
      (∀ front name value back,
        given ++ recordedOn s.spans.length actions = front ++ (name, value) :: back →
        isMessage name value = false → (∀ later ∈ back, later.1 ≠ name) →
        (data.attributes.filter (·.key = name)).getLast? = some ⟨name, value.exported⟩) ∧
      ∀ text traceId, (traceIdTexts given).getLast? = some (.str text) →
        hexToBytes16 text = some traceId →
        traceIdTexts (recordedOn s.spans.length actions) = [] → data.traceId = traceId := by
  obtain ⟨hattrs, htrace⟩ := ((stored_new hs hnew).run hrun).exported data hdata
  rw [← List.filterMap_append] at hattrs
  refine ⟨hattrs, fun front name value back hvalues hm hback => ?_,
    fun text traceId htext hx _ => ?_⟩
  · rw [hattrs]
    exact kept_last hvalues hm hback
  · rw [htrace, ownTraceId_of_last htext hx, Option.getD_some]

/-- One span, recorded on twice, among others. -/
def recordTwice : List Action :=
  [.record 0 [("a", .i64 2), ("b", .debug "x")], .record 0 [("a", .u64 3)], .close 0 9]

theorem recorded_exported_twice : ∃ u t data,
    step exportAll (.newSpan 0 .root "job" (("a", .i64 1) :: tracedFields) zeroSpanId 1)
      { entered := [[]] } = some u ∧
    (tracing exportAll).run recordTwice u = some t ∧ data ∈ t.exports 0 ∧
    data.attributes = (("a", .i64 1) :: tracedFields ++ recordedOn 0 recordTwice).filterMap kept ∧
      (∀ front name value back,
        ("a", .i64 1) :: tracedFields ++ recordedOn 0 recordTwice =
          front ++ (name, value) :: back →
        isMessage name value = false → (∀ later ∈ back, later.1 ≠ name) →
        (data.attributes.filter (·.key = name)).getLast? = some ⟨name, value.exported⟩) ∧
      ∀ text traceId, (traceIdTexts (("a", .i64 1) :: tracedFields)).getLast? = some (.str text) →
        hexToBytes16 text = some traceId →
        traceIdTexts (recordedOn 0 recordTwice) = [] → data.traceId = traceId := by
  obtain ⟨u, hu⟩ := Option.isSome_iff_exists.mp (show (step exportAll
    (.newSpan 0 .root "job" (("a", .i64 1) :: tracedFields) zeroSpanId 1)
    { entered := [[]] }).isSome by decide +kernel)
  obtain ⟨t, ht⟩ := Option.isSome_iff_exists.mp (Machine.of_run hu
    (f := fun u => ((tracing exportAll).run recordTwice u).isSome) (y := true) (by decide +kernel))
  have hone := Machine.of_run hu (f := fun u => ((tracing exportAll).run recordTwice u).map
    fun t => (t.exports 0).isEmpty) (y := some false) (by decide +kernel)
  rw [ht, Option.map_some, Option.some_inj, List.isEmpty_eq_false_iff] at hone
  obtain ⟨data, hdata⟩ := List.exists_mem_of_ne_nil _ hone
  exact ⟨u, t, data, hu, ht, hdata, recorded_exported (.init ⟨1, rfl⟩) hu ht hdata⟩

/-- Each recorded name once, with its last value, and the last trace ID that
was recorded as text. -/
structure LastWins (values : List (String × FieldValue)) (data : SpanData) : Prop where
  once : ∀ front name value back, values = front ++ (name, value) :: back →
    (∀ later ∈ back, later.1 ≠ name) →
    data.attributes.filter (·.key = name) = [⟨name, value.exported⟩]
  traceId : ∀ value text traceId, (traceIdTexts values).getLast? = some value →
    value.text? = some text → hexToBytes16 text = some traceId → data.traceId = traceId

/-- A field with a value at creation that is recorded again is exported twice. -/
theorem record_not_lastWins : ¬∀ layer s thread parent name given spanId now u actions t data,
    (tracing layer).Reachable s →
    step layer (.newSpan thread parent name given spanId now) s = some u →
    (tracing layer).run actions u = some t → data ∈ t.exports s.spans.length →
    LastWins (given ++ recordedOn s.spans.length actions) data := by
  intro h
  obtain ⟨u, hu⟩ := Option.isSome_iff_exists.mp (show (step exportAll
    (.newSpan 0 .root "job" [("a", .i64 1)] zeroSpanId 1) { entered := [[]] }).isSome
    by decide +kernel)
  obtain ⟨t, ht⟩ := Option.isSome_iff_exists.mp (Machine.of_run hu
    (f := fun u => ((tracing exportAll).run [.record 0 [("a", .i64 2)], .close 0 9] u).isSome)
    (y := true) (by decide +kernel))
  have hone := Machine.of_run hu (f := fun u => ((tracing exportAll).run
    [.record 0 [("a", .i64 2)], .close 0 9] u).map fun t => (t.exports 0).map (·.attributes))
    (y := some [[⟨"a", .int 1⟩, ⟨"a", .int 2⟩]]) (by decide +kernel)
  rw [ht, Option.map_some, Option.some_inj] at hone
  obtain ⟨data, hexports, hattrs⟩ := List.map_eq_singleton_iff.mp hone
  have hdata : data ∈ t.exports 0 := by rw [hexports]; exact List.mem_singleton_self data
  have honce := (h exportAll _ _ _ _ _ _ _ u _ t data (.init ⟨1, rfl⟩) hu ht hdata).once
    [("a", .i64 1)] "a" (.i64 2) [] rfl (by rintro _ ⟨⟩)
  rw [hattrs] at honce
  exact absurd honce (by decide)

end Rolly.Layer
