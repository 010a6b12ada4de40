import Rolly.MetricsReference
import Rolly.OtlpLayerForest

/-!
# Where exemplars come from

A recording call takes the IDs of the nearest span that the layer has put its
fields on, and the instrument keeps them until the next collect.
-/

namespace Rolly

def MetricSnapshot.exemplars : MetricSnapshot → List Exemplar
  | .counter _ _ dataPoints => dataPoints.filterMap (·.2.2)
  | .gauge _ _ dataPoints => dataPoints.filterMap (·.2.2)
  | .histogram _ _ _ dataPoints => dataPoints.filterMap (·.exemplar)

end Rolly

namespace Rolly.Metrics

-- ---------------------------------------------------------------------------
-- What an instrument holds
-- ---------------------------------------------------------------------------

def Inner.exemplars (inner : Inner V) : List Exemplar := inner.data.filterMap (·.2.2.2)

def Instrument.exemplars : Instrument → List Exemplar
  | .counter inner => inner.exemplars
  | .gauge inner => inner.exemplars
  | .histogram inner => inner.toInner.exemplars

variable {P : Exemplar → Prop}

theorem inner_record_exemplars {inner : Inner V}
    (h : e ∈ (inner.record attrs exemplar fresh update).1.exemplars) :
    e ∈ inner.exemplars ∨ exemplar = some e := by
  rw [Inner.exemplars, record_data] at h
  obtain ⟨entry, hentry, he⟩ := List.mem_filterMap.mp h
  obtain hold | ⟨v, hv, rfl⟩ := KeyedTable.mem_upsert hentry
  · exact .inl (List.mem_filterMap.mpr ⟨entry, hold, he⟩)
  · simp only [updateEntry] at he
    split at he
    · exact .inr he
    · obtain rfl | hold := hv
      · cases he
      · exact .inl (List.mem_filterMap.mpr ⟨_, hold, he⟩)

/-- A call brings in the exemplar that it captured, and no other. -/
theorem record_exemplars {instrument : Instrument}
    (h : e ∈ (instrument.record call).1.exemplars) :
    e ∈ instrument.exemplars ∨ call.exemplar = some e := by
  obtain ⟨measurement, attrs, context⟩ := call
  cases instrument with
  | counter inner =>
    cases measurement with
    | add value =>
      have h : e ∈ (inner.add context value attrs).1.exemplars := h
      exact inner_record_exemplars h
    | _ => exact .inl h
  | gauge inner =>
    cases measurement with
    | set value =>
      have h : e ∈ (inner.set context value attrs).1.exemplars := h
      exact inner_record_exemplars h
    | _ => exact .inl h
  | histogram inner =>
    cases measurement with
    | observe value =>
      have h : e ∈ (inner.toInner.record attrs (captureExemplar context (.double value))
        (HistogramState.new inner.boundaries)
        (·.observe (bucketIndex inner.boundaries value) value)).1.exemplars := h
      exact inner_record_exemplars h
    | _ => exact .inl h

theorem take_exemplars (inner : Inner V) :
    inner.take.1.filterMap (·.2.2) = inner.exemplars ∧ inner.take.2.exemplars = [] := by
  simp [Inner.take, Inner.exemplars, List.filterMap_map]

theorem collect_exemplars (instrument : Instrument) :
    instrument.collect.2.exemplars = [] ∧
      ∀ snapshot, instrument.collect.1 = some snapshot →
        snapshot.exemplars = instrument.exemplars := by
  refine ⟨?_, fun snapshot h => ?_⟩
  · rw [← Instrument.values]
    cases instrument with
    | counter inner => simp [Instrument.exemplars, take_exemplars]
    | gauge inner => simp [Instrument.exemplars, take_exemplars]
    | histogram inner => simp [Instrument.exemplars, take_exemplars]
  · cases instrument with
    | counter inner =>
      simp only [Instrument.collect] at h
      split at h
      · cases h
      · cases h
        exact (take_exemplars inner).1
    | gauge inner =>
      simp only [Instrument.collect] at h
      split at h
      · cases h
      · cases h
        exact (take_exemplars inner).1
    | histogram inner =>
      simp only [Instrument.collect] at h
      split at h
      · cases h
      · cases h
        rw [MetricSnapshot.exemplars, List.filterMap_map]
        exact (take_exemplars inner.toInner).1

-- ---------------------------------------------------------------------------
-- What the registry holds
-- ---------------------------------------------------------------------------

namespace MetricsRegistry

variable {r : MetricsRegistry}

def Holds (P : Exemplar → Prop) (r : MetricsRegistry) : Prop :=
  ∀ instrument ∈ r.instruments, ∀ e ∈ instrument.exemplars, P e

theorem Holds.act (h : r.Holds P)
    (ha : ∀ instrument ∈ r.instruments, ∀ e ∈ (instrument.apply event).exemplars, P e) :
    (r.act handle event).Holds P := by
  intro instrument hm
  obtain ⟨i, hi⟩ := List.getElem?_of_mem hm
  rw [act_getElem?] at hi
  split at hi
  · obtain ⟨old, hold, rfl⟩ := Option.map_eq_some_iff.mp hi
    exact ha old (List.mem_of_getElem? hold)
  · exact h instrument (List.mem_of_getElem? hi)

theorem Holds.record (h : r.Holds P) (hcall : ∀ e, call.exemplar = some e → P e) :
    (r.record handle call).1.Holds P := by
  rw [record_fst]
  refine h.act fun instrument hm e he => ?_
  obtain hold | hnew := record_exemplars he
  · exact h instrument hm e hold
  · exact hcall e hnew

theorem Holds.collectOne (h : r.Holds P) (handle : Nat) :
    (r.collectOne handle).2.Holds P ∧
      ∀ snapshot, (r.collectOne handle).1 = some snapshot → ∀ e ∈ snapshot.exemplars, P e := by
  refine ⟨?_, fun snapshot hs e he => ?_⟩
  · rw [collectOne_snd]
    refine h.act fun instrument _ e he => ?_
    rw [Instrument.apply, (collect_exemplars instrument).1] at he
    cases he
  · rw [collectOne_fst, Option.bind_eq_some_iff] at hs
    obtain ⟨instrument, hi, hs⟩ := hs
    rw [(collect_exemplars instrument).2 snapshot hs] at he
    exact h instrument (List.mem_of_getElem? hi) e he

theorem Holds.collectEach (h : r.Holds P) (places : List Nat) :
    (r.collectEach places).2.Holds P ∧
      ∀ snapshot ∈ (r.collectEach places).1, ∀ e ∈ snapshot.exemplars, P e := by
  induction places generalizing r with
  | nil => exact ⟨h, nofun⟩
  | cons handle rest ih =>
    obtain ⟨hone, hshown⟩ := h.collectOne handle
    obtain ⟨hrest, hshowns⟩ := ih hone
    refine ⟨hrest, fun snapshot hs => ?_⟩
    obtain hs | hs := List.mem_append.mp hs
    · exact hshown snapshot (Option.mem_toList.mp hs)
    · exact hshowns snapshot hs

theorem Holds.collect (h : r.Holds P) :
    r.collect.2.Holds P ∧ ∀ snapshot ∈ r.collect.1, ∀ e ∈ snapshot.exemplars, P e := by
  obtain ⟨hc, hcs⟩ := h.collectEach (r.counters.map (·.2))
  obtain ⟨hg, hgs⟩ := hc.collectEach _
  obtain ⟨hh, hhs⟩ := hg.collectEach _
  refine ⟨hh, fun snapshot hs => ?_⟩
  obtain hs | hs := List.mem_append.mp hs
  · obtain hs | hs := List.mem_append.mp hs
    · exact hcs snapshot hs
    · exact hgs snapshot hs
  · exact hhs snapshot hs

theorem Holds.call (h : r.Holds P) (registration : Registration) :
    (registration.call r).2.Holds P := by
  rw [call_eq]
  cases hget : r.get registration.kind registration.name with
  | some handle => rw [entry_of_some _ _ _ hget]; exact h
  | none =>
    rw [entry_of_none _ _ _ hget]
    intro instrument hm
    rw [push_instruments] at hm
    obtain hm | hm := List.mem_append.mp hm
    · exact h instrument hm
    · obtain rfl := List.mem_singleton.mp hm
      cases registration <;> exact nofun

end MetricsRegistry

end Rolly.Metrics

namespace Rolly.Instrumented

open Layer Metrics

-- ---------------------------------------------------------------------------
-- The current span
-- ---------------------------------------------------------------------------

/-- A span and its ancestors, the nearest first. -/
def scope (spans : List Span) : Nat → Nat → List Span
  | 0, _ => []
  | fuel + 1, id =>
    match spans[id]? with
    | none => []
    | some span =>
      match span.parent with
      | none => [span]
      | some parent => span :: scope spans fuel parent

/-- The fields of the current span or of the nearest ancestor that has any. A
span has fewer ancestors than there are spans. -/
def nearestFields (spans : List Span) (stack : List (Nat × Bool)) : Option SpanFields := do
  let id ← State.current stack
  let span ← spans[id]?
  match span.fields with
  | some fields => some fields
  | none => (scope spans spans.length id).tail.findSome? (·.fields)

def currentTraceContext (spans : List Span) (stack : List (Nat × Bool)) :
    Option (TraceId × SpanId) :=
  (nearestFields spans stack).map fun fields => (fields.traceId, fields.spanId)

theorem mem_of_mem_scope {id : Nat} (h : span ∈ scope spans fuel id) : span ∈ spans := by
  fun_induction scope spans fuel id with
  | case1 => cases h
  | case2 => cases h
  | case3 _ _ _ hs =>
    obtain rfl := List.mem_singleton.mp h
    exact List.mem_of_getElem? hs
  | case4 _ _ _ hs _ _ ih =>
    obtain rfl | h := List.mem_cons.mp h
    · exact List.mem_of_getElem? hs
    · exact ih h

theorem nearestFields_mem (h : nearestFields spans stack = some fields) :
    ∃ span ∈ spans, span.fields = some fields := by
  simp only [nearestFields, Option.bind_eq_bind, Option.bind_eq_some_iff] at h
  obtain ⟨id, -, span, hspan, h⟩ := h
  split at h
  · rename_i hf
    cases h
    exact ⟨span, List.mem_of_getElem? hspan, hf⟩
  · obtain ⟨ancestor, hm, hf⟩ := List.exists_of_findSome?_eq_some h
    exact ⟨ancestor, mem_of_mem_scope (List.mem_of_mem_tail hm), hf⟩

-- ---------------------------------------------------------------------------
-- Spans and instruments
-- ---------------------------------------------------------------------------

structure State where
  layer : Layer.State
  registry : MetricsRegistry
  -- what each collect returned
  collected : List (List MetricSnapshot) := []
  deriving DecidableEq, Repr

/-- A warning about a full instrument is an event like any other. -/
inductive Action
  | tracing (action : Layer.Action)
  | register (registration : Registration)
  | record (thread handle : Nat) (measurement : Measurement) (attrs : List (String × String))
      (now : UInt64)
  | collect
  deriving DecidableEq, Repr

def step (layer : OtlpLayer) : Action → State → Option State
  | .tracing action, s => do
    let spans ← Layer.step layer action s.layer
    return { s with layer := spans }
  | .register registration, s => some { s with registry := (registration.call s.registry).2 }
  | .record thread handle measurement attrs now, s => do
    let stack ← s.layer.entered[thread]?
    let context :=
      { hasBeenSet := true, current := currentTraceContext s.layer.spans stack, now }
    return { s with registry := (s.registry.record handle ⟨measurement, attrs, context⟩).1 }
  | .collect, s =>
    let (snapshots, registry) := s.registry.collect
    some { s with registry, collected := s.collected ++ [snapshots] }

/-- Any number of threads, no span and no instrument yet. -/
def instrumented (layer : OtlpLayer) : Machine State Action where
  init s := ∃ threads limit, s =
    ⟨{ entered := List.replicate threads [] }, .withMaxCardinality limit, []⟩
  step := step layer

/-- A sampled span has the exemplar's IDs, and one that has closed was exported
under them. -/
def Traced (s : Layer.State) (e : Exemplar) : Prop :=
  ∃ (id : Nat) (span : Span) (fields : SpanFields), s.spans[id]? = some span ∧
    span.fields = some fields ∧ fields.traceId = e.traceId ∧ fields.spanId = e.spanId ∧
    fields.sampled ∧ (span.closed → ∃ data, s.exports id = [data] ∧
      data.traceId = e.traceId ∧ data.spanId = e.spanId)

/-- No call is made with a sampled-out span as the nearest, unless that carries
no trace ID. -/
def RecordsSampled (action : Action) (s : State) : Prop :=
  match action with
  | .record thread .. =>
    ∀ fields ∈ s.layer.entered[thread]?.bind (nearestFields s.layer.spans),
      fields.traceId ≠ zeroTraceId → fields.sampled
  | _ => True

instance : Decidable (RecordsSampled action s) :=
  match action with
  | .record thread .. =>
    inferInstanceAs (Decidable
      (∀ fields ∈ s.layer.entered[thread]?.bind (nearestFields s.layer.spans), _))
  | .tracing _ | .register _ | .collect => isTrue trivial

-- ---------------------------------------------------------------------------
-- Exemplars of sampled spans
-- ---------------------------------------------------------------------------

section
variable {s t : State} {layer : OtlpLayer}

inductive Stepped (layer : OtlpLayer) (s : State) : Action → State → Prop
  | tracing (h : Layer.step layer a s.layer = some spans) :
      Stepped layer s (.tracing a) { s with layer := spans }
  | register : Stepped layer s (.register registration)
      { s with registry := (registration.call s.registry).2 }
  | record (hstack : s.layer.entered[thread]? = some stack) :
      Stepped layer s (.record thread handle measurement attrs now)
        { s with registry := (s.registry.record handle ⟨measurement, attrs,
          ⟨true, currentTraceContext s.layer.spans stack, now⟩⟩).1 }
  | collect : Stepped layer s .collect
      { s with
        registry := s.registry.collect.2
        collected := s.collected ++ [s.registry.collect.1] }

theorem step_stepped (h : step layer action s = some t) : Stepped layer s action t := by
  cases action with
  | tracing action =>
    simp only [step, Option.bind_eq_bind, Option.bind_eq_some_iff] at h
    obtain ⟨spans, hspans, h⟩ := h
    obtain rfl := Option.some.inj h
    exact .tracing hspans
  | register registration =>
    obtain rfl := Option.some.inj h
    exact .register
  | record thread handle measurement attrs now =>
    simp only [step, Option.bind_eq_bind, Option.bind_eq_some_iff] at h
    obtain ⟨stack, hstack, h⟩ := h
    obtain rfl := Option.some.inj h
    exact .record hstack
  | collect =>
    obtain rfl := Option.some.inj h
    exact .collect

theorem reachable_layer (h : (instrumented layer).Reachable s) :
    (tracing layer).Reachable s.layer := by
  refine Machine.Reachable.invariant (I := fun s => (tracing layer).Reachable s.layer) h ?_
    fun action s t _ hs ht => ?_
  · rintro _ ⟨threads, _, rfl⟩
    exact .init ⟨threads, rfl⟩
  · cases step_stepped ht with
    | tracing hspans => exact hs.step hspans
    | register | record | collect => exact hs

/-- What `Traced` comes to for a span that was created as sampled. -/
def BornSampled (births : List Birth) (e : Exemplar) : Prop :=
  ∃ birth ∈ births, ∃ i, birth.identity = some i ∧ i.traceId = e.traceId ∧ i.spanId = e.spanId ∧
    i.sampled

theorem BornSampled.mono (h : BornSampled births e) (hp : births <+: births') :
    BornSampled births' e := by
  obtain ⟨birth, hm, hborn⟩ := h
  exact ⟨birth, hp.subset hm, hborn⟩

theorem Traced.of_born {s : Layer.State} (hf : s.Forest layer) (ht : layer.exportTraces)
    (h : BornSampled s.births e) : Traced s e := by
  obtain ⟨birth, hm, i, hi, htrace, hspan, hsampled⟩ := h
  obtain ⟨id, hid⟩ := List.getElem?_of_mem hm
  obtain ⟨span, hs, rfl⟩ := Option.map_eq_some_iff.mp (State.births_getElem? ▸ hid)
  obtain ⟨fields, hfields, rfl⟩ := Option.map_eq_some_iff.mp hi
  refine ⟨id, span, fields, hs, hfields, htrace, hspan, hsampled, fun hclosed => ?_⟩
  have hx := hf.exported id _ _ span.closed hid hi
    (by rw [State.closings, List.getElem?_map, hs, Option.map_some])
  rw [if_pos ⟨hclosed, ht, hsampled⟩] at hx
  obtain ⟨data, hdata, hids⟩ := List.map_eq_singleton_iff.mp hx
  simp only [SpanData.ids, Identity.ids, Prod.mk.injEq] at hids
  exact ⟨data, hdata, hids.1.trans htrace, hids.2.1.trans hspan⟩

theorem captured_born (h : captureExemplar
      ⟨true, currentTraceContext s.layer.spans stack, now⟩ value = some e)
    (hs : ∀ fields, nearestFields s.layer.spans stack = some fields →
      fields.traceId ≠ zeroTraceId → fields.sampled) :
    BornSampled s.layer.births e := by
  cases hn : nearestFields s.layer.spans stack with
  | none => simp [captureExemplar, currentTraceContext, hn] at h
  | some fields =>
    simp only [captureExemplar, currentTraceContext, hn, Option.map_some, Bool.not_true,
      Bool.false_eq_true, if_false, Option.ite_none_left_eq_some] at h
    obtain ⟨hzero, h⟩ := h
    obtain rfl := Option.some.inj h
    obtain ⟨span, hm, hf⟩ := nearestFields_mem hn
    refine ⟨span.birth, List.mem_map_of_mem hm, fields.identity, ?_, rfl, rfl, hs _ hn hzero⟩
    rw [Span.birth, hf, Option.map_some]

structure State.Inv (s : State) : Prop where
  stored : s.registry.Holds (BornSampled s.layer.births)
  collected : ∀ snapshots ∈ s.collected, ∀ snapshot ∈ snapshots, ∀ e ∈ snapshot.exemplars,
    BornSampled s.layer.births e

theorem State.Inv.step (hi : s.Inv) (hp : RecordsSampled action s)
    (h : (instrumented layer).step action s = some t) : t.Inv := by
  cases step_stepped h with
  | tracing hspans =>
    have hb := step_births hspans
    exact ⟨fun instrument hm e he => (hi.stored instrument hm e he).mono hb,
      fun snapshots hss snapshot hs e he => (hi.collected snapshots hss snapshot hs e he).mono hb⟩
  | @register registration => exact ⟨hi.stored.call registration, hi.collected⟩
  | record hstack =>
    exact ⟨hi.stored.record fun e he => captured_born he fun fields hn => hp fields (by
      rw [hstack, Option.bind_some, hn, Option.mem_some]), hi.collected⟩
  | collect =>
    obtain ⟨hstored, hshown⟩ := hi.stored.collect
    refine ⟨hstored, fun snapshots hss => ?_⟩
    obtain hss | hss := List.mem_append.mp hss
    · exact hi.collected snapshots hss
    · obtain rfl := List.mem_singleton.mp hss
      exact hshown

end

theorem exemplars_traced (layer : OtlpLayer) (ht : layer.exportTraces)
    (h : (instrumented layer).ReachableBy RecordsSampled s) :
    ∀ snapshots ∈ s.collected, ∀ snapshot ∈ snapshots, ∀ e ∈ snapshot.exemplars,
      Traced s.layer e := by
  have hi : s.Inv := by
    refine h.invariant ?_ fun _ _ _ _ hi hp hs => hi.step hp hs
    rintro _ ⟨threads, limit, rfl⟩
    exact ⟨by rintro _ ⟨⟩, by rintro _ ⟨⟩⟩
  intro snapshots hss snapshot hs e he
  exact .of_born (reachable_forest (reachable_layer h.reachable)) ht
    (hi.collected snapshots hss snapshot hs e he)

/-- One call inside a span, and a collect while the span is open. -/
def recordInside (given : List (String × FieldValue)) : List Action :=
  [.register (.counter "requests" "" none), .tracing (.newSpan 0 .root "request" given
    (.replicate 8 1) 1), .tracing (.enter 0 0), .record 0 0 (.add 1) [] 2, .collect]

def start : State := ⟨{ entered := [[]] }, .new, []⟩

theorem start_init (layer : OtlpLayer) : (instrumented layer).init start := ⟨1, 2000, rfl⟩

def State.exemplars (s : State) : List Exemplar := s.collected.flatten.flatMap (·.exemplars)

theorem exemplars_traced_half : ∃ s, (instrumented exportHalf).run (recordInside tracedFields)
      start = some s ∧ s.exemplars.length = 1 ∧
    ∀ snapshots ∈ s.collected, ∀ snapshot ∈ snapshots, ∀ e ∈ snapshot.exemplars,
      Traced s.layer e := by
  obtain ⟨s, hs⟩ := Option.isSome_iff_exists.mp (show (((instrumented exportHalf).guard
    RecordsSampled).run (recordInside tracedFields) start).isSome by decide +kernel)
  exact ⟨s, Machine.run_of_guard hs,
    Machine.of_run hs (f := fun s => s.exemplars.length) (by decide +kernel),
    exemplars_traced exportHalf rfl (.of_run (start_init _) hs)⟩

/-- A sampled-out span leaves its IDs on a data point. -/
theorem exemplar_untraced : ¬∀ layer s, layer.exportTraces → (instrumented layer).Reachable s →
    ∀ snapshots ∈ s.collected, ∀ snapshot ∈ snapshots, ∀ e ∈ snapshot.exemplars,
      Traced s.layer e := by
  intro h
  obtain ⟨s, hs⟩ := Option.isSome_iff_exists.mp (show ((instrumented exportHalf).run
    (recordInside [("trace_id", .str "ffffffffffffffffffffffffffffffff")]) start).isSome
    by decide +kernel)
  have hall := h exportHalf s rfl (Machine.Reachable.run (.init (start_init exportHalf)) hs)
  have hone := Machine.of_run hs (f := fun s => s.exemplars.isEmpty) (y := false)
    (by decide +kernel)
  have hnone := Machine.of_run hs (f := fun s => s.layer.spans.all fun span =>
    span.fields.all (!·.sampled)) (y := true) (by decide +kernel)
  obtain ⟨e, he⟩ := List.exists_mem_of_ne_nil _ (List.isEmpty_eq_false_iff.mp hone)
  obtain ⟨snapshot, hm, he⟩ := List.mem_flatMap.mp he
  obtain ⟨snapshots, hms, hm⟩ := List.mem_flatten.mp hm
  obtain ⟨id, span, fields, hspan, hfields, -, -, hsampled, -⟩ :=
    hall snapshots hms snapshot hm e he
  have := List.all_eq_true.mp hnone span (List.mem_of_getElem? hspan)
  simp [hfields, hsampled] at this

end Rolly.Instrumented
