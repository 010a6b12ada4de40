import Mathlib.Data.List.Induction
import Rolly.OtlpLayer

/-!
# Which trace a span is in

`on_new_span` reads the trace ID from the span's own fields and from nowhere
else. What the layer exports carries the ID of the span it is for.
-/

namespace Rolly.Layer

-- ---------------------------------------------------------------------------
-- Trace IDs among the fields
-- ---------------------------------------------------------------------------

/-- The trace ID that a field is read as: only text that came through
`record_str` is. -/
def readTraceId : String × FieldValue → Option TraceId
  | (field, .str text) => if field = "trace_id" then hexToBytes16 text else none
  | _ => none

/-- The last `trace_id` field that is read as one. -/
def ownTraceId (given : List (String × FieldValue)) : Option TraceId :=
  (given.filterMap readTraceId).getLast?

theorem record_traceId (c : FieldCollector) (field : String × FieldValue) :
    (c.record field).traceId = (readTraceId field).or c.traceId := by
  obtain ⟨name, value⟩ := field
  cases value with
  | str text =>
    by_cases hm : name = "message"
    · subst hm
      rfl
    · by_cases ht : name = "trace_id"
      · cases hx : hexToBytes16 text <;>
          simp [FieldCollector.record, FieldCollector.recordStr, FieldCollector.push, readTraceId,
            ht, hx]
      · simp [FieldCollector.record, FieldCollector.recordStr, FieldCollector.push, readTraceId,
          hm, ht]
  | debug text =>
    simp only [FieldCollector.record, FieldCollector.recordDebug]
    split <;> rfl
  | _ => rfl

theorem ofFields_traceId (given : List (String × FieldValue)) :
    (FieldCollector.ofFields given).traceId = ownTraceId given := by
  induction given using List.reverseRecOn with
  | nil => rfl
  | append_singleton given field ih =>
    have hlast : FieldCollector.ofFields (given ++ [field]) =
        (FieldCollector.ofFields given).record field := by
      simp [FieldCollector.ofFields]
    rw [hlast, record_traceId, ih, ownTraceId, ownTraceId, List.filterMap_append]
    cases h : readTraceId field <;> simp [h]

/-- The text of a field, by either of the ways that text comes in. -/
def FieldValue.text? : FieldValue → Option String
  | .debug text => some text
  | .str text => some text
  | _ => none

/-- The fields hold 32 hex digits, not all zero, for a trace ID. -/
def CarriesTraceId (given : List (String × FieldValue)) : Prop :=
  ∃ value text traceId, ("trace_id", value) ∈ given ∧ value.text? = some text ∧
    hexToBytes16 text = some traceId ∧ traceId ≠ zeroTraceId

/-- The layer reads a trace ID that is not zero from the fields. -/
def ReadsTraceId (given : List (String × FieldValue)) : Prop :=
  ∃ traceId, ownTraceId given = some traceId ∧ traceId ≠ zeroTraceId

theorem ReadsTraceId.carries (h : ReadsTraceId given) : CarriesTraceId given := by
  obtain ⟨traceId, hown, hne⟩ := h
  obtain ⟨⟨name, value⟩, hm, hread⟩ := List.mem_filterMap.mp (List.mem_of_getLast? hown)
  cases value with
  | str text =>
    simp only [readTraceId, Option.ite_none_right_eq_some] at hread
    obtain ⟨rfl, hx⟩ := hread
    exact ⟨.str text, text, traceId, hm, rfl, hx, hne⟩
  | _ => cases hread

theorem readsTraceId_iff :
    ReadsTraceId given ↔ (ownTraceId given).getD zeroTraceId ≠ zeroTraceId := by
  cases h : ownTraceId given <;> simp [ReadsTraceId, h]

-- ---------------------------------------------------------------------------
-- What a step can do
-- ---------------------------------------------------------------------------

/-- The span that `on_new_span` sees after the registry made it. -/
def OtlpLayer.created (layer : OtlpLayer) (spans : List Span) (parent : Option Nat) (name : String)
    (given : List (String × FieldValue)) (spanId : SpanId) (now : UInt64) : Span :=
  let extensions := layer.onNewSpan (parent.bind (spans[·]?)) given spanId now
  { name, parent, given, timing := some extensions.1, fields := some extensions.2 }

inductive Stepped (layer : OtlpLayer) (s : State) : Action → State → Prop
  | newSpan (he : s.entered[thread]? = some entries) (hp : s.parentOf entries parent = some p) :
      Stepped layer s (.newSpan thread parent name given spanId now) { s with
        spans := s.spans ++ [layer.created s.spans p name given spanId now] }
  | record {id : Nat} (ho : s.isOpen id) : Stepped layer s (.record id values) { s with
      spans := s.spans.modify id fun span =>
        { span with fields := OtlpLayer.onRecord span.fields values } }
  | enter {id : Nat} (he : s.entered[thread]? = some entries) (ho : s.isOpen id) :
      Stepped layer s (.enter thread id) { s with
        entered := s.entered.set thread ((id, entries.any (·.1 = id)) :: entries) }
  | exit {id : Nat} (he : s.entered[thread]? = some entries) :
      Stepped layer s (.exit thread id) { s with
        entered := s.entered.set thread (entries.eraseP (·.1 = id)) }
  | event (he : s.entered[thread]? = some entries) :
      Stepped layer s (.event thread level fields now) (s.send layer (State.current entries)
        ((layer.onEvent ((State.current entries).bind (s.spans[·]?)) level fields now).map .logs))
  | close {id : Nat} (hspan : s.spans[id]? = some span) (hc : s.closable id) :
      Stepped layer s (.close id now)
        { s.send layer (some id) ((layer.onClose span now).map .traces) with
          spans := s.spans.modify id fun span => { span with closed := true } }

theorem step_stepped {layer : OtlpLayer} {s t : State} (h : step layer action s = some t) :
    Stepped layer s action t := by
  cases action with
  | newSpan thread parent name given spanId now =>
    simp only [Layer.step, Option.bind_eq_bind, Option.bind_eq_some_iff] at h
    obtain ⟨entries, he, p, hp, h⟩ := h
    obtain rfl := Option.some.inj h
    exact .newSpan he hp
  | record id values =>
    simp only [Layer.step, Option.ite_none_right_eq_some] at h
    obtain ⟨ho, h⟩ := h
    obtain rfl := Option.some.inj h
    exact .record ho
  | enter thread id =>
    simp only [Layer.step, Option.bind_eq_bind, Option.bind_eq_some_iff,
      Option.ite_none_right_eq_some] at h
    obtain ⟨entries, he, ho, h⟩ := h
    obtain rfl := Option.some.inj h
    exact .enter he ho
  | exit thread id =>
    simp only [Layer.step, Option.bind_eq_bind, Option.bind_eq_some_iff] at h
    obtain ⟨entries, he, h⟩ := h
    obtain rfl := Option.some.inj h
    exact .exit he
  | event thread level fields now =>
    simp only [Layer.step, Option.bind_eq_bind, Option.bind_eq_some_iff] at h
    obtain ⟨entries, he, h⟩ := h
    obtain rfl := Option.some.inj h
    exact .event he
  | close id now =>
    simp only [Layer.step, Option.bind_eq_bind, Option.bind_eq_some_iff,
      Option.ite_none_right_eq_some] at h
    obtain ⟨span, hspan, hc, h⟩ := h
    obtain rfl := Option.some.inj h
    exact .close hspan hc

-- ---------------------------------------------------------------------------
-- What the callbacks keep
-- ---------------------------------------------------------------------------

/-- What is fixed of a span when it is created. -/
structure Origin where
  parent : Option Nat
  given : List (String × FieldValue)
  traceId : Option TraceId

def Span.origin (span : Span) : Origin :=
  ⟨span.parent, span.given, span.fields.map (·.traceId)⟩

def State.origins (s : State) : List Origin := s.spans.map Span.origin

theorem map_modify_of_same {f : α → β} {g : α → α} (h : ∀ a, f (g a) = f a) (l : List α)
    (i : Nat) : (l.modify i g).map f = l.map f := by
  refine List.ext_getElem? fun j => ?_
  rw [List.getElem?_map, List.getElem?_map, List.getElem?_modify]
  split <;> cases l[j]? <;> simp [h]

theorem onEvent_traceId {layer : OtlpLayer}
    (h : layer.onEvent current level fields now = some log) :
    log.traceId = ((current.bind (·.fields)).map (·.traceId)).getD zeroTraceId := by
  unfold OtlpLayer.onEvent at h
  split at h
  · cases h
  · cases hf : current.bind (·.fields) with
    | none =>
      simp only [hf, Option.map_none, Option.getD_none] at h
      obtain rfl := Option.some.inj h
      rfl
    | some f =>
      simp only [hf, Option.map_some, Option.getD_some] at h
      split at h
      · cases h
      · obtain rfl := Option.some.inj h
        rfl

theorem onClose_traceId {layer : OtlpLayer} (h : layer.onClose span now = some data) :
    span.fields.map (·.traceId) = some data.traceId := by
  unfold OtlpLayer.onClose at h
  split at h
  · cases h
  · split at h
    · next hf =>
      split at h
      · cases h
      · obtain rfl := Option.some.inj h
        rw [hf]
        rfl
    · cases h

/-- Every span has the trace ID that its own fields gave it, and every message
has that of the span it is for. -/
structure State.Inv (s : State) : Prop where
  read : origin ∈ s.origins → origin.traceId = some ((ownTraceId origin.given).getD zeroTraceId)
  sent : ∀ m ∈ s.sent, ∀ id, m.span = some id →
    ∃ origin, s.origins[id]? = some origin ∧ origin.traceId = some m.message.traceId
  entered : ∀ entries ∈ s.entered, ∀ entry ∈ entries, entry.1 < s.spans.length

section
variable {s t : State} {layer : OtlpLayer} {id : Nat}

theorem isOpen_lt (h : s.isOpen id) : id < s.spans.length := by
  obtain ⟨span, hspan, -⟩ := (Option.any_eq_true _ _).mp h
  exact (List.getElem?_eq_some_iff.mp hspan).1

theorem current_mem (h : State.current entries = some id) : ∃ entry ∈ entries, entry.1 = id := by
  obtain ⟨entry, hfind, rfl⟩ := Option.map_eq_some_iff.mp h
  exact ⟨entry, List.mem_of_find?_eq_some hfind, rfl⟩

theorem State.Inv.send (hi : s.Inv) (h : ∀ m, message = some m → ∀ id, span = some id →
    ∃ origin, s.origins[id]? = some origin ∧ origin.traceId = some m.traceId) :
    (s.send layer span message).Inv where
  read := hi.read
  sent m hm id hid := by
    obtain hm | hm := List.mem_append.mp hm
    · exact hi.sent m hm id hid
    · obtain ⟨message', hmessage, rfl⟩ := Option.map_eq_some_iff.mp (Option.mem_toList.mp hm)
      exact h message' hmessage id hid
  entered := hi.entered

theorem State.Inv.modify (hi : s.Inv) {g : Span → Span} (h : ∀ span, (g span).origin = span.origin)
    (id : Nat) : State.Inv { s with spans := s.spans.modify id g } := by
  have horigins : State.origins { s with spans := s.spans.modify id g } = s.origins :=
    map_modify_of_same h s.spans id
  refine ⟨?_, ?_, ?_⟩
  · rw [horigins]
    exact hi.read
  · rw [horigins]
    exact hi.sent
  · simpa using hi.entered

theorem State.Inv.create (hi : s.Inv) {span : Span}
    (h : span.origin.traceId = some ((ownTraceId span.given).getD zeroTraceId)) :
    State.Inv { s with spans := s.spans ++ [span] } := by
  have horigins : State.origins { s with spans := s.spans ++ [span] } =
      s.origins ++ [span.origin] := by
    simp [State.origins]
  refine ⟨?_, ?_, ?_⟩
  · intro origin hm
    rw [horigins] at hm
    obtain hm | hm := List.mem_append.mp hm
    · exact hi.read hm
    · obtain rfl := List.mem_singleton.mp hm
      exact h
  · intro m hm id hid
    obtain ⟨origin, horigin, htrace⟩ := hi.sent m hm id hid
    obtain ⟨hlt, -⟩ := List.getElem?_eq_some_iff.mp horigin
    exact ⟨origin, by rw [horigins, List.getElem?_append_left hlt, horigin], htrace⟩
  · intro entries he entry hentry
    simpa using Nat.lt_succ_of_lt (hi.entered entries he entry hentry)

theorem State.Inv.setEntered (hi : s.Inv) (h : ∀ entry ∈ entries, entry.1 < s.spans.length)
    (thread : Nat) : State.Inv { s with entered := s.entered.set thread entries } where
  read := hi.read
  sent := hi.sent
  entered entries' he entry hentry := by
    obtain he | rfl := List.mem_or_eq_of_mem_set he
    · exact hi.entered entries' he entry hentry
    · exact h entry hentry

theorem State.Inv.step (hi : s.Inv) (h : step layer action s = some t) : t.Inv := by
  cases step_stepped h with
  | newSpan =>
    refine hi.create ?_
    simp [OtlpLayer.created, Span.origin, OtlpLayer.onNewSpan, ofFields_traceId]
  | @record values id ho =>
    refine hi.modify (fun span => ?_) id
    cases hf : span.fields <;> simp [Span.origin, OtlpLayer.onRecord, hf]
  | @enter thread entries id he ho =>
    refine hi.setEntered ?_ thread
    intro entry hentry
    obtain rfl | hentry := List.mem_cons.mp hentry
    · exact isOpen_lt ho
    · exact hi.entered entries (List.mem_of_getElem? he) entry hentry
  | @exit thread entries id he =>
    refine hi.setEntered ?_ thread
    intro entry hentry
    exact hi.entered entries (List.mem_of_getElem? he) entry (List.mem_of_mem_eraseP hentry)
  | @event thread entries level fields now he =>
    refine hi.send ?_
    intro m hm id hid
    obtain ⟨log, hlog, rfl⟩ := Option.map_eq_some_iff.mp hm
    obtain ⟨entry, hentry, rfl⟩ := current_mem hid
    have hlt := hi.entered entries (List.mem_of_getElem? he) entry hentry
    have hspan := List.getElem?_eq_getElem hlt
    have hread := hi.read (List.mem_map_of_mem (List.getElem_mem hlt))
    refine ⟨s.spans[entry.1].origin, by rw [State.origins, List.getElem?_map, hspan]; rfl, ?_⟩
    have htrace := onEvent_traceId hlog
    rw [hid, Option.bind_some, hspan, Option.bind_some] at htrace
    rw [hread, Export.traceId, htrace]
    exact congrArg (fun traceId => some (traceId.getD zeroTraceId)) hread.symm
  | @close span now id hspan hc =>
    refine (hi.send ?_).modify (g := fun span => { span with closed := true }) (fun _ => rfl) id
    intro m hm id' hid
    obtain ⟨data, hdata, rfl⟩ := Option.map_eq_some_iff.mp hm
    obtain rfl := Option.some.inj hid
    exact ⟨span.origin, by rw [State.origins, List.getElem?_map, hspan]; rfl, onClose_traceId hdata⟩

end

theorem inv_start : State.Inv { entered := List.replicate threads [] } where
  read h := by cases h
  sent m hm := by cases hm
  entered entries he entry hentry := by
    obtain rfl := List.eq_of_mem_replicate he
    cases hentry

theorem reachable_inv (h : (tracing layer).Reachable s) : s.Inv := by
  refine h.invariant ?_ fun _ _ _ _ hi hs => hi.step hs
  rintro _ ⟨threads, rfl⟩
  exact inv_start

-- ---------------------------------------------------------------------------
-- One trace for one tree
-- ---------------------------------------------------------------------------

/-- `id` is `root` or has it for an ancestor. -/
inductive Below (spans : List Span) (root : Nat) : Nat → Prop
  | self : Below spans root root
  | child {id : Nat} {span : Span} : spans[id]? = some span → span.parent = some parent →
      Below spans root parent → Below spans root id

/-- Every span is in a trace, its parent's unless its fields carry another one;
so a tree whose root alone may carry one is exported as one trace. -/
structure SharesTraces (s : State) : Prop where
  nonzero : ∀ span ∈ s.spans, ∀ f, span.fields = some f → f.traceId ≠ zeroTraceId
  inherited : ∀ span ∈ s.spans, ¬CarriesTraceId span.given → ∀ (id : Nat) parent,
    span.parent = some id → s.spans[id]? = some parent →
    span.fields.map (·.traceId) = parent.fields.map (·.traceId)
  oneTrace : ∀ (root : Nat) span, s.spans[root]? = some span → span.parent = none →
    (∀ (id : Nat) other, Below s.spans root id → id ≠ root → s.spans[id]? = some other →
      ¬CarriesTraceId other.given) →
    ∀ m ∈ s.sent, ∀ id, m.span = some id → Below s.spans root id →
      some m.message.traceId = span.fields.map (·.traceId)

/-- The spans share traces when every one of them reads a trace ID of its own,
and only then. -/
theorem sharesTraces_iff (h : (tracing layer).Reachable s) :
    SharesTraces s ↔ ∀ span ∈ s.spans, ReadsTraceId span.given := by
  have hi := reachable_inv h
  have hfields : ∀ span ∈ s.spans,
      span.fields.map (·.traceId) = some ((ownTraceId span.given).getD zeroTraceId) :=
    fun span hm => hi.read (List.mem_map_of_mem hm)
  constructor
  · intro hshares span hm
    obtain ⟨f, hf, htrace⟩ := Option.map_eq_some_iff.mp (hfields span hm)
    rw [readsTraceId_iff, ← htrace]
    exact hshares.nonzero span hm f hf
  · intro hreads
    refine ⟨?_, ?_, ?_⟩
    · intro span hm f hf
      have htrace := hfields span hm
      rw [hf, Option.map_some, Option.some.injEq] at htrace
      rw [htrace]
      exact readsTraceId_iff.mp (hreads span hm)
    · intro span hm hnot
      exact absurd (hreads span hm).carries hnot
    · intro root span hspan _ honly m hm id hid hbelow
      obtain ⟨origin, horigin, htrace⟩ := hi.sent m hm id hid
      rw [State.origins, List.getElem?_map] at horigin
      obtain ⟨other, hother, rfl⟩ := Option.map_eq_some_iff.mp horigin
      by_cases heq : id = root
      · -- the root itself
        subst heq
        obtain rfl := Option.some.inj (hother.symm.trans hspan)
        exact htrace.symm
      · -- a span below it carries none, but it reads one
        have hcarries := (hreads other (List.mem_of_getElem? hother)).carries
        exact absurd hcarries (honly id other hbelow heq hother)

def exportAll : OtlpLayer :=
  .new ⟨"svc", "1", "test", [], true, true, F64.one⟩ "0.10.0"

def tracedFields : List (String × FieldValue) :=
  [("trace_id", .str "0102030405060708090a0b0c0d0e0f10")]

theorem sharesTraces_ownFields : ∃ s, (tracing exportAll).run
    [.newSpan 0 .root "a" tracedFields zeroSpanId 1, .enter 0 0, .event 0 .info [] 2, .exit 0 0,
      .close 0 3] { entered := [[]] } = some s ∧ s.sent.length = 2 ∧ SharesTraces s := by
  obtain ⟨s, hs⟩ := Option.isSome_iff_exists.mp (show ((tracing exportAll).run
    [.newSpan 0 .root "a" tracedFields zeroSpanId 1, .enter 0 0, .event 0 .info [] 2, .exit 0 0,
      .close 0 3] { entered := [[]] }).isSome by decide +kernel)
  have hsent : s.sent.length = 2 :=
    Machine.of_run hs (f := fun s => s.sent.length) (by decide +kernel)
  have hgiven : s.spans.map (·.given) = [tracedFields] :=
    Machine.of_run hs (f := fun s => s.spans.map (·.given)) (by decide +kernel)
  refine ⟨s, hs, hsent, (sharesTraces_iff (Machine.Reachable.run (.init ⟨1, rfl⟩) hs)).mpr ?_⟩
  intro span hm
  have hg := List.mem_map_of_mem (f := (·.given)) hm
  rw [hgiven, List.mem_singleton] at hg
  rw [hg, readsTraceId_iff]
  decide +kernel

/-- A child of a traced span is in no trace. -/
theorem child_not_traced : ¬∀ layer s, (tracing layer).Reachable s → SharesTraces s := by
  intro h
  obtain ⟨s, hs⟩ := Option.isSome_iff_exists.mp (show ((tracing exportAll).run
    [.newSpan 0 .root "parent" tracedFields zeroSpanId 1, .enter 0 0,
      .newSpan 0 .contextual "child" [] zeroSpanId 2] { entered := [[]] }).isSome by decide +kernel)
  have hshares := h exportAll s (Machine.Reachable.run (.init ⟨1, rfl⟩) hs)
  have htraces : s.spans.map (fun span => span.fields.map (·.traceId)) =
      [hexToBytes16 "0102030405060708090a0b0c0d0e0f10", some zeroTraceId] :=
    Machine.of_run hs (f := fun s => s.spans.map fun span => span.fields.map (·.traceId))
      (by decide +kernel)
  have hmem : some zeroTraceId ∈ s.spans.map fun span => span.fields.map (·.traceId) := by
    simp [htraces]
  obtain ⟨child, hchild, htrace⟩ := List.mem_map.mp hmem
  obtain ⟨f, hf, hzero⟩ := Option.map_eq_some_iff.mp htrace
  exact hshares.nonzero child hchild f hf hzero

end Rolly.Layer
