import Rolly.OtlpLayerSampling

/-!
# Which span an event belongs to

An event names its span the way a span names its parent. `on_event` does not
ask: it takes the current span for the event's own.
-/

namespace Rolly.Layer

/-- What `tracing` hands to `on_event`. -/
structure Event where
  parent : Parent
  level : Level
  fields : List (String × FieldValue)
  deriving DecidableEq, Repr

/-- The span of an event; a span that has closed is no longer in the registry. -/
def State.eventSpan (s : State) (stack : List (Nat × Bool)) (event : Event) : Option Nat :=
  match event.parent with
  | .root => none
  | .contextual => State.current stack
  | .explicit id => if s.isOpen id then some id else none

def State.fieldsOf (s : State) (span : Option Nat) : Option SpanFields :=
  (span.bind (s.spans[·]?)).bind (·.fields)

/-- The callback is given the event, and the parent in it goes unread. -/
def dispatch (layer : OtlpLayer) (thread : Nat) (event : Event) (now : UInt64) (s : State) :
    Option State :=
  (tracing layer).step (.event thread event.level event.fields now) s

def SentLog (s t : State) (traceId : TraceId) (spanId : SpanId) : Prop :=
  ∃ m log, t.sent = s.sent ++ [m] ∧ m.message = .logs log ∧ log.traceId = traceId ∧
    log.spanId = spanId

/-- The event was logged as its span asks: once, under the IDs of the span,
unless the span is sampled out; without a span, under zeros. -/
def LoggedFor (owner : Option SpanFields) (s t : State) : Prop :=
  match owner with
  | none => SentLog s t zeroTraceId zeroSpanId
  | some f => if f.sampled then SentLog s t f.traceId f.spanId else t.sent = s.sent

structure LogContext where
  traceId : TraceId
  spanId : SpanId
  sampled : Bool

/-- What a log record is made from; without a span, zeros and a positive
decision. -/
def logContext (fields : Option SpanFields) : LogContext :=
  (fields.map fun f => ⟨f.traceId, f.spanId, f.sampled⟩).getD ⟨zeroTraceId, zeroSpanId, true⟩

def LoggedAlike (owner current : Option SpanFields) : Prop :=
  (logContext owner).sampled = (logContext current).sampled ∧
    ((logContext owner).sampled → (logContext owner).traceId = (logContext current).traceId ∧
      (logContext owner).spanId = (logContext current).spanId)

theorem loggedFor_iff : LoggedFor owner s t ↔
    if (logContext owner).sampled then
      SentLog s t (logContext owner).traceId (logContext owner).spanId
    else t.sent = s.sent := by
  cases owner with
  | none => simp [LoggedFor, logContext]
  | some f => exact Iff.rfl

theorem onEvent_ids {layer : OtlpLayer} (hlogs : layer.exportLogs) (current : Option Span)
    (level : Level) (fields : List (String × FieldValue)) (now : UInt64) :
    (layer.onEvent current level fields now).map (fun log => (log.traceId, log.spanId)) =
      if (logContext (current.bind (·.fields))).sampled then
        some ((logContext (current.bind (·.fields))).traceId,
          (logContext (current.bind (·.fields))).spanId)
      else none := by
  simp only [OtlpLayer.onEvent, hlogs]
  cases hf : current.bind (·.fields) with
  | none => simp [logContext]
  | some f => cases hs : f.sampled <;> simp [logContext, hs]

section
variable {s t : State} {layer : OtlpLayer} {thread : Nat}

theorem dispatch_sent (he : s.entered[thread]? = some entries)
    (ht : dispatch layer thread event now s = some t) :
    t.sent = s.sent ++ ((layer.onEvent ((State.current entries).bind (s.spans[·]?)) event.level
      event.fields now).map fun log =>
        ⟨State.current entries, .logs log, layer.encode (.logs log)⟩).toList := by
  have hst : Stepped layer s (.event thread event.level event.fields now) t := step_stepped ht
  cases hst with
  | event he' =>
    obtain rfl := Option.some.inj (he.symm.trans he')
    simp [State.send, Option.map_map, Function.comp_def]

theorem sentLog_iff {m : Sent} (hm : m.message = .logs log) (ht : t.sent = s.sent ++ [m]) :
    SentLog s t traceId spanId ↔ log.traceId = traceId ∧ log.spanId = spanId := by
  constructor
  · rintro ⟨m', log', ht', hm', htrace, hspan⟩
    obtain rfl : m = m' := by simpa using List.append_cancel_left (ht.symm.trans ht')
    rw [hm] at hm'
    cases hm'
    exact ⟨htrace, hspan⟩
  · rintro ⟨htrace, hspan⟩
    exact ⟨m, log, ht, hm, htrace, hspan⟩

/-- With logs exported, an event is logged for its own span exactly where that
and the current span come to the same. -/
theorem event_logged_iff (he : s.entered[thread]? = some entries)
    (ht : dispatch layer thread event now s = some t) :
    (layer.exportLogs → LoggedFor (s.fieldsOf (s.eventSpan entries event)) s t) ↔
      (layer.exportLogs → LoggedAlike (s.fieldsOf (s.eventSpan entries event))
        (s.fieldsOf (State.current entries))) := by
  refine imp_congr_right fun hlogs => ?_
  have hsent := dispatch_sent he ht
  have hids := onEvent_ids hlogs ((State.current entries).bind (s.spans[·]?)) event.level
    event.fields now
  rw [← State.fieldsOf] at hids
  rw [loggedFor_iff, LoggedAlike]
  generalize logContext (s.fieldsOf (s.eventSpan entries event)) = owner
  generalize logContext (s.fieldsOf (State.current entries)) = current at hids
  cases hs : current.sampled with
  | false =>
    rw [hs, if_neg (by simp), Option.map_eq_none_iff] at hids
    rw [hids, Option.map_none, Option.toList_none, List.append_nil] at hsent
    cases owner.sampled with
    | false => simpa using hsent
    | true =>
      have hnot : ¬SentLog s t owner.traceId owner.spanId := by
        rintro ⟨m, log, ht, -⟩
        simp [hsent] at ht
      simpa using hnot
  | true =>
    rw [hs, if_pos rfl] at hids
    obtain ⟨log, hlog, hids⟩ := Option.map_eq_some_iff.mp hids
    rw [hlog, Option.map_some, Option.toList_some] at hsent
    obtain ⟨htrace, hspan⟩ := Prod.mk.inj hids
    cases owner.sampled with
    | false => simp [hsent]
    | true => simp [sentLog_iff rfl hsent, htrace, hspan, eq_comm]

end

theorem event_logged_contextual : ∃ s t, (tracing exportAll).run
      [.newSpan 0 .root "request" tracedFields zeroSpanId 1, .enter 0 0] { entered := [[]] } =
      some s ∧
    dispatch exportAll 0 ⟨.contextual, .info, []⟩ 2 s = some t ∧
    ((exportAll.exportLogs →
        LoggedFor (s.fieldsOf (s.eventSpan [(0, false)] ⟨.contextual, .info, []⟩)) s t) ↔
      (exportAll.exportLogs →
        LoggedAlike (s.fieldsOf (s.eventSpan [(0, false)] ⟨.contextual, .info, []⟩))
          (s.fieldsOf (State.current [(0, false)])))) := by
  obtain ⟨t, ht⟩ := Option.isSome_iff_exists.mp (show ((tracing exportAll).run
    ([.newSpan 0 .root "request" tracedFields zeroSpanId 1, .enter 0 0] ++ [.event 0 .info [] 2])
    { entered := [[]] }).isSome by decide +kernel)
  obtain ⟨s, hs, ht⟩ := Machine.run_append_some.mp ht
  have he : s.entered[0]? = some [(0, false)] :=
    Machine.of_run hs (f := fun s => s.entered[0]?) (by decide +kernel)
  obtain ⟨u, hu, ht⟩ := Machine.run_cons_some.mp ht
  have hu : dispatch exportAll 0 ⟨.contextual, .info, []⟩ 2 s = some u := hu
  exact ⟨s, u, hs, hu, event_logged_iff he hu⟩

/-- An event that names a sampled-out span is logged where no span is current,
under zeros. -/
theorem event_leaked : ¬∀ layer thread entries event now s t, (tracing layer).Reachable s →
    s.entered[thread]? = some entries → dispatch layer thread event now s = some t →
    layer.exportLogs → LoggedFor (s.fieldsOf (s.eventSpan entries event)) s t := by
  intro h
  obtain ⟨t, ht⟩ := Option.isSome_iff_exists.mp (show ((tracing exportHalf).run
    ([.newSpan 0 .root "job" [("trace_id", .str "ffffffffffffffffffffffffffffffff")] zeroSpanId
      1] ++ [.event 0 .info [] 2]) { entered := [[]] }).isSome by decide +kernel)
  obtain ⟨s, hs, ht⟩ := Machine.run_append_some.mp ht
  obtain ⟨u, hu, -⟩ := Machine.run_cons_some.mp ht
  have he : s.entered[0]? = some [] :=
    Machine.of_run hs (f := fun s => s.entered[0]?) (by decide +kernel)
  have howner := Machine.of_run hs (f := fun s =>
    (logContext (s.fieldsOf (s.eventSpan [] ⟨.explicit 0, .info, []⟩))).sampled)
    (y := false) (by decide +kernel)
  have hempty := Machine.of_run hs (f := fun s => s.sent.length) (y := 0) (by decide +kernel)
  have hlogged := Machine.of_run hs (f := fun s =>
    (dispatch exportHalf 0 ⟨.explicit 0, .info, []⟩ 2 s).map (·.sent.length))
    (y := some 1) (by decide +kernel)
  have hu : dispatch exportHalf 0 ⟨.explicit 0, .info, []⟩ 2 s = some u := hu
  have hall := h exportHalf 0 [] _ 2 s u (Machine.Reachable.run (.init ⟨1, rfl⟩) hs) he hu rfl
  rw [loggedFor_iff, howner, if_neg Bool.false_ne_true] at hall
  rw [hu, Option.map_some, hall, hempty] at hlogged
  cases hlogged

end Rolly.Layer
