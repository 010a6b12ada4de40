import Rolly.OtlpLayerLaws

/-!
# Trees of spans

What a span stores when it is created stays: its parent, its IDs and the
sampling decision, which a root makes and every other span takes from its
parent. A span is exported when it closes, and only then.
-/

namespace Rolly.Layer

-- ---------------------------------------------------------------------------
-- What a span is born with
-- ---------------------------------------------------------------------------

structure Identity where
  traceId : TraceId
  spanId : SpanId
  parentSpanId : SpanId
  sampled : Bool

def SpanFields.identity (fields : SpanFields) : Identity :=
  ⟨fields.traceId, fields.spanId, fields.parentSpanId, fields.sampled⟩

structure Birth where
  parent : Option Nat
  timing : Option SpanTiming
  identity : Option Identity

def Span.birth (span : Span) : Birth :=
  ⟨span.parent, span.timing, span.fields.map SpanFields.identity⟩

def State.births (s : State) : List Birth := s.spans.map Span.birth

def State.closings (s : State) : List Bool := s.spans.map Span.closed

/-- A root decides by its own trace ID; any other span takes the decision of
its parent, which is among the spans `older`. -/
def Birth.Linked (rate : F64) (older : List Birth) (birth : Birth) : Prop :=
  ∃ i, birth.identity = some i ∧ birth.timing.isSome ∧
    match birth.parent with
    | none => i.parentSpanId = zeroSpanId ∧ i.sampled = shouldSample i.traceId rate
    | some p => ∃ parent j, older[p]? = some parent ∧ parent.identity = some j ∧
        i.parentSpanId = j.spanId ∧ i.sampled = j.sampled

/-- The parent tracing finds for a new span is a span of the registry. -/
def State.ParentsKnown (s : State) : Prop :=
  ∀ entries ∈ s.entered, ∀ entry ∈ entries, entry.1 < s.spans.length

section
variable {s t u : State} {layer : OtlpLayer} {id : Nat}

theorem State.births_getElem? : s.births[id]? = s.spans[id]?.map Span.birth :=
  List.getElem?_map

theorem parentOf_lt {thread : Nat} (hs : s.ParentsKnown) (he : s.entered[thread]? = some entries)
    (h : s.parentOf entries parent = some (some p)) : p < s.spans.length := by
  cases parent with
  | root => cases h
  | contextual =>
    obtain ⟨entry, hentry, rfl⟩ := current_mem (Option.some.inj h)
    exact hs entries (List.mem_of_getElem? he) entry hentry
  | explicit id =>
    simp only [State.parentOf, Option.ite_none_right_eq_some] at h
    obtain ⟨hopen, h⟩ := h
    cases h
    exact isOpen_lt hopen

theorem created_linked (hp : ∀ p, parent = some p → p < spans.length)
    (hl : ∀ birth ∈ spans.map Span.birth, birth.identity.isSome) :
    (layer.created spans parent name given spanId now).birth.Linked layer.samplingRate
      (spans.map Span.birth) := by
  refine ⟨_, rfl, rfl, ?_⟩
  cases parent with
  | none => exact ⟨rfl, rfl⟩
  | some p =>
    have hlt := hp p rfl
    have hspan := List.getElem?_eq_getElem hlt
    have hsome := hl spans[p].birth (List.mem_map_of_mem (List.getElem_mem hlt))
    obtain ⟨j, hj⟩ := Option.isSome_iff_exists.mp hsome
    obtain ⟨f, hf, rfl⟩ := Option.map_eq_some_iff.mp hj
    refine ⟨spans[p].birth, f.identity, by rw [List.getElem?_map, hspan]; rfl, hj, ?_⟩
    simp [OtlpLayer.onNewSpan, hspan, hf, SpanFields.identity]

-- ---------------------------------------------------------------------------
-- What a step does to the spans and to what was sent
-- ---------------------------------------------------------------------------

def Export.span? : Export → Option SpanData
  | .traces span => some span
  | .logs _ => none

def State.exports (s : State) (id : Nat) : List SpanData :=
  s.sent.filterMap fun m => if m.span = some id then m.message.span? else none

theorem exports_send (layer : OtlpLayer) (id : Nat) (span : Option Nat) (message : Option Export) :
    (s.send layer span message).exports id =
      s.exports id ++ (if span = some id then message.bind Export.span? else none).toList := by
  cases message with
  | none => simp [State.send, State.exports]
  | some m => cases h : m.span? <;> by_cases hs : span = some id <;>
      simp [State.send, State.exports, hs, h]

theorem step_cases (h : step layer action s = some t) :
    (∃ thread parent name given spanId now entries p, action = .newSpan thread parent name given
        spanId now ∧ s.entered[thread]? = some entries ∧ s.parentOf entries parent = some p ∧
      t = { s with spans := s.spans ++ [layer.created s.spans p name given spanId now] }) ∨
    (∃ id now span, action = .close id now ∧ s.spans[id]? = some span ∧ span.closed = false ∧
      t.births = s.births ∧ t.closings = s.closings.set id true ∧
      (∀ id', t.exports id' = s.exports id' ++
        if id = id' then (layer.onClose span now).toList else []) ∧
      ∀ m ∈ t.sent, m ∈ s.sent ∨ m.span = some id) ∨
    (t.births = s.births ∧ t.closings = s.closings ∧ (∀ id, t.exports id = s.exports id) ∧
      ∀ m ∈ t.sent, m ∈ s.sent ∨ m.message.span? = none) := by
  cases step_stepped h with
  | newSpan he hp => exact .inl ⟨_, _, _, _, _, _, _, _, rfl, he, hp, rfl⟩
  | @record values id ho =>
    refine .inr (.inr ⟨map_modify_of_same (fun span => ?_) s.spans id,
      map_modify_of_same (fun _ => by rfl) s.spans id, fun _ => rfl, fun m hm => .inl hm⟩)
    cases hf : span.fields <;> simp [Span.birth, OtlpLayer.onRecord, hf, SpanFields.identity]
  | enter | exit => exact .inr (.inr ⟨rfl, rfl, fun _ => rfl, fun m hm => .inl hm⟩)
  | @event thread entries level fields now =>
    refine .inr (.inr ⟨rfl, rfl, fun id => ?_, fun m hm => ?_⟩)
    · rw [exports_send]
      split
      · cases layer.onEvent _ level fields now <;> simp [Export.span?]
      · simp
    · obtain hm | hm := List.mem_append.mp hm
      · exact .inl hm
      · obtain ⟨message, hmessage, rfl⟩ := Option.map_eq_some_iff.mp (Option.mem_toList.mp hm)
        obtain ⟨log, -, rfl⟩ := Option.map_eq_some_iff.mp hmessage
        exact .inr rfl
  | @close span now id hspan hclosable =>
    have hopen : span.closed = false := by
      simp only [State.closable, State.isOpen, hspan, Bool.and_eq_true] at hclosable
      simpa using hclosable.1.1
    refine .inr (.inl ⟨id, now, span, rfl, hspan, hopen,
      map_modify_of_same (fun _ => by rfl) s.spans id, ?_, fun id' => ?_, fun m hm => ?_⟩)
    · refine List.ext_getElem? fun j => ?_
      rw [State.closings, State.closings, List.getElem?_map, List.getElem?_modify,
        List.getElem?_set, List.getElem?_map]
      obtain ⟨hlt, -⟩ := List.getElem?_eq_some_iff.mp hspan
      by_cases hj : id = j
      · subst hj
        simp [hlt]
      · simp [hj]
    · have hsend := exports_send (s := s) layer id' (some id)
        ((layer.onClose span now).map .traces)
      refine Eq.trans hsend ?_
      by_cases hid : id = id'
      · cases layer.onClose span now <;> simp [hid, Export.span?]
      · simp [hid]
    · obtain hm | hm := List.mem_append.mp hm
      · exact .inl hm
      · obtain ⟨message, -, rfl⟩ := Option.map_eq_some_iff.mp (Option.mem_toList.mp hm)
        exact .inr rfl

end

-- ---------------------------------------------------------------------------
-- The invariant
-- ---------------------------------------------------------------------------

def SpanData.ids (data : SpanData) : TraceId × SpanId × SpanId :=
  (data.traceId, data.spanId, data.parentSpanId)

def Identity.ids (i : Identity) : TraceId × SpanId × SpanId := (i.traceId, i.spanId, i.parentSpanId)

theorem onClose_ids {layer : OtlpLayer} (ht : span.birth.timing.isSome)
    (hi : span.birth.identity = some i) :
    (layer.onClose span now).toList.map SpanData.ids =
      if layer.exportTraces ∧ i.sampled then [i.ids] else [] := by
  obtain ⟨timing, htiming⟩ := Option.isSome_iff_exists.mp ht
  obtain ⟨f, hf, rfl⟩ := Option.map_eq_some_iff.mp hi
  have htiming : span.timing = some timing := htiming
  unfold OtlpLayer.onClose
  cases layer.exportTraces with
  | false => simp
  | true =>
    cases hs : f.sampled <;>
      simp [htiming, hf, hs, SpanFields.identity, SpanData.ids, Identity.ids]

/-- Every span is linked to its parent, and the exported spans are the closed
ones with a positive decision, once each. -/
structure State.Forest (layer : OtlpLayer) (s : State) : Prop where
  linked : ∀ (id : Nat) birth, s.births[id]? = some birth →
    birth.Linked layer.samplingRate (s.births.take id)
  owned : ∀ m ∈ s.sent, m.message.span?.isSome → ∃ id < s.spans.length, m.span = some id
  exported : ∀ (id : Nat) birth i closed, s.births[id]? = some birth → birth.identity = some i →
    s.closings[id]? = some closed →
    (s.exports id).map SpanData.ids =
      if closed ∧ layer.exportTraces ∧ i.sampled then [i.ids] else []

section
variable {s t u : State} {layer : OtlpLayer} {id : Nat}

theorem length_births : s.births.length = s.spans.length := List.length_map _

theorem State.Forest.exports_new (hf : s.Forest layer) : s.exports s.spans.length = [] := by
  refine List.filterMap_eq_nil_iff.mpr fun m hm => ?_
  split
  · rename_i hid
    cases hspan : m.message.span? with
    | none => rfl
    | some data =>
      obtain ⟨id, hlt, hid'⟩ := hf.owned m hm (by simp [hspan])
      rw [hid] at hid'
      obtain rfl := Option.some.inj hid'
      omega
  · rfl

theorem State.Forest.append (hf : s.Forest layer)
    (hl : span.birth.Linked layer.samplingRate s.births) (hc : span.closed = false) :
    State.Forest layer { s with spans := s.spans ++ [span] } := by
  have hb : State.births { s with spans := s.spans ++ [span] } = s.births ++ [span.birth] := by
    simp [State.births]
  have hcl : State.closings { s with spans := s.spans ++ [span] } =
      s.closings ++ [span.closed] := by
    simp [State.closings]
  have hlen : s.births.length = s.spans.length := length_births
  have hlenc : s.closings.length = s.spans.length := List.length_map _
  refine ⟨fun id birth hid => ?_, fun m hm hspan => ?_, fun id birth i closed hid hi hclosed => ?_⟩
  · rw [hb] at hid ⊢
    obtain hlt | rfl | hgt := Nat.lt_trichotomy id s.births.length
    · rw [List.getElem?_append_left hlt] at hid
      rw [List.take_append_of_le_length (by omega)]
      exact hf.linked id birth hid
    · obtain rfl := by simpa using hid
      simpa using hl
    · rw [List.getElem?_eq_none (by simp; omega)] at hid
      cases hid
  · obtain ⟨id, hlt, hid⟩ := hf.owned m hm hspan
    exact ⟨id, by simp; omega, hid⟩
  · rw [hb] at hid
    rw [hcl] at hclosed
    obtain hlt | rfl | hgt := Nat.lt_trichotomy id s.spans.length
    · rw [List.getElem?_append_left (by omega)] at hid hclosed
      exact hf.exported id birth i closed hid hi hclosed
    · rw [List.getElem?_append_right (by omega)] at hclosed
      have hnew : State.exports { s with spans := s.spans ++ [span] } s.spans.length = [] :=
        hf.exports_new
      obtain rfl : span.closed = closed := by simpa [hlenc] using hclosed
      simp [hnew, hc]
    · rw [List.getElem?_eq_none (by simp; omega)] at hid
      cases hid

theorem State.Forest.step (hi : s.Inv) (hf : s.Forest layer) (h : step layer action s = some t) :
    t.Forest layer := by
  obtain ⟨thread, parent, name, given, spanId, now, entries, p, -, he, hp, rfl⟩ |
    ⟨id, now, span, -, hspan, hopen, hb, hc, hx, hm⟩ | ⟨hb, hc, hx, hm⟩ := step_cases h
  · have hsome : ∀ birth ∈ s.births, birth.identity.isSome := by
      intro birth hm
      obtain ⟨id, hid⟩ := List.getElem?_of_mem hm
      obtain ⟨i, hi, -⟩ := hf.linked id birth hid
      rw [hi]
      rfl
    exact hf.append (created_linked (fun q hq => parentOf_lt hi.entered he (hq ▸ hp)) hsome) rfl
  · have hlen : t.spans.length = s.spans.length := by
      rw [← length_births, hb, length_births]
    have hbirth : s.births[id]? = some span.birth := by
      rw [State.births_getElem?, hspan]
      rfl
    refine ⟨hb ▸ hf.linked, fun m hmem hs => ?_, fun id' birth i closed hid hi hclosed => ?_⟩
    · obtain hmem | hid := hm m hmem
      · exact hlen ▸ hf.owned m hmem hs
      · exact ⟨id, hlen ▸ (List.getElem?_eq_some_iff.mp hspan).1, hid⟩
    · rw [hb] at hid
      rw [hc, List.getElem?_set] at hclosed
      by_cases heq : id = id'
      · -- it was open, so nothing was exported for it yet
        subst heq
        obtain rfl := Option.some.inj (hbirth.symm.trans hid)
        obtain ⟨-, -, htiming, -⟩ := hf.linked id _ hbirth
        have hbefore := hf.exported id _ i false hbirth hi
          (by rw [State.closings, List.getElem?_map, hspan, Option.map_some, hopen])
        rw [if_pos rfl, Option.ite_none_right_eq_some] at hclosed
        have hclosed : closed = true := (Option.some.inj hclosed.2).symm
        rw [hx, if_pos rfl, List.map_append, onClose_ids htiming hi, hclosed]
        simpa using hbefore
      · rw [if_neg heq] at hclosed
        rw [hx, if_neg heq, List.append_nil]
        exact hf.exported id' birth i closed hid hi hclosed
  · have hlen : t.spans.length = s.spans.length := by
      rw [← length_births, hb, length_births]
    refine ⟨hb ▸ hf.linked, fun m hmem hs => ?_, fun id birth i closed hid hi hclosed => ?_⟩
    · obtain hmem | hnone := hm m hmem
      · exact hlen ▸ hf.owned m hmem hs
      · simp [hnone] at hs
    · rw [hx]
      exact hf.exported id birth i closed (hb ▸ hid) hi (hc ▸ hclosed)

end

theorem reachable_forest (h : (tracing layer).Reachable s) : s.Forest layer := by
  refine h.invariant ?_ fun _ _ _ hr hf hs => hf.step (reachable_inv hr) hs
  rintro _ ⟨threads, rfl⟩
  exact ⟨by simp [State.births], by simp, by simp [State.births]⟩

theorem step_births (h : step layer action s = some t) : s.births <+: t.births := by
  obtain ⟨_, _, _, _, _, _, _, _, -, -, -, rfl⟩ | ⟨_, _, _, -, -, -, hb, -⟩ | ⟨hb, -⟩ :=
    step_cases h
  · simp [State.births]
  · exact hb ▸ List.prefix_rfl
  · exact hb ▸ List.prefix_rfl

theorem step_sent (h : step layer action s = some t) :
    t.sent = s.sent ++ t.sent.drop s.sent.length := by
  have hprefix : s.sent <+: t.sent := by
    cases step_stepped h with
    | event | close => exact List.prefix_append _ _
    | _ => exact List.prefix_refl _
  exact (List.prefix_iff_eq_append.mp hprefix).symm

theorem run_births (h : (tracing layer).run actions s = some t) : s.births <+: t.births :=
  Machine.run_of_steps (R := fun s t => s.births <+: t.births)
    (fun _ => List.prefix_rfl) (fun _ _ _ => List.IsPrefix.trans) (fun _ _ _ => step_births) h

theorem run_span (h : (tracing layer).run actions s = some t) {id : Nat}
    (hspan : s.spans[id]? = some created) :
    ∃ span, t.spans[id]? = some span ∧ span.birth = created.birth := by
  have hb := List.prefix_iff_getElem?.mp (run_births h) id
    (length_births ▸ (List.getElem?_eq_some_iff.mp hspan).1)
  rw [← List.getElem?_eq_getElem, State.births_getElem?, State.births_getElem?, hspan] at hb
  exact Option.map_eq_some_iff.mp hb

-- ---------------------------------------------------------------------------
-- The top of a tree
-- ---------------------------------------------------------------------------

/-- `top` is the span without a parent that `id` is or is below. -/
structure IsTop (spans : List Span) (id root : Nat) (top : Span) : Prop where
  below : Below spans root id
  span : spans[root]? = some top
  parent : top.parent = none

section
variable {s t u : State} {layer : OtlpLayer}

/-- The decision of every span is the one its tree's root made for its own
trace ID. -/
theorem State.Forest.top (hf : s.Forest layer) (id : Nat) (hspan : s.spans[id]? = some span) :
    ∃ fields root top topFields, span.fields = some fields ∧ IsTop s.spans id root top ∧
      top.fields = some topFields ∧ fields.sampled = topFields.sampled ∧
      topFields.sampled = shouldSample topFields.traceId layer.samplingRate := by
  induction id using Nat.strongRecOn generalizing span with
  | ind id ih =>
    have hbirth : s.births[id]? = some span.birth := by
      rw [State.births_getElem?, hspan]
      rfl
    obtain ⟨i, hi, -, hlink⟩ := hf.linked id _ hbirth
    obtain ⟨f, hfields, rfl⟩ := Option.map_eq_some_iff.mp hi
    cases hp : span.parent with
    | none =>
      simp only [Span.birth, hp] at hlink
      exact ⟨f, id, span, f, hfields, ⟨.self, hspan, hp⟩, hfields, rfl, hlink.2⟩
    | some p =>
      simp only [Span.birth, hp] at hlink
      obtain ⟨parent, j, hparent, hj, -, hsampled⟩ := hlink
      rw [List.getElem?_take, Option.ite_none_right_eq_some, State.births_getElem?] at hparent
      obtain ⟨hlt, hparent⟩ := hparent
      obtain ⟨parentSpan, hps, rfl⟩ := Option.map_eq_some_iff.mp hparent
      obtain ⟨g, root, top, topFields, hg, htop, htf, hs, hd⟩ := ih p hlt hps
      obtain ⟨g', hg', rfl⟩ := Option.map_eq_some_iff.mp hj
      obtain rfl := Option.some.inj (hg.symm.trans hg')
      exact ⟨f, root, top, topFields, hfields, ⟨.child hspan hp htop.below, htop.span, htop.parent⟩,
        htf, hsampled.trans hs, hd⟩

/-- The span ID stored for the parent of a span; zeros for a root. -/
def HasParentSpanId (spans : List Span) (parent : Option Nat) (id : SpanId) : Prop :=
  match parent with
  | none => id = zeroSpanId
  | some p => ∃ span f, spans[p]? = some span ∧ span.fields = some f ∧ id = f.spanId

theorem State.Forest.parentSpanId (hf : s.Forest layer) {id : Nat}
    (hspan : s.spans[id]? = some span) (hfields : span.fields = some f) :
    HasParentSpanId s.spans span.parent f.parentSpanId := by
  have hbirth : s.births[id]? = some span.birth := by
    rw [State.births_getElem?, hspan]
    rfl
  obtain ⟨i, hi, -, hlink⟩ := hf.linked id _ hbirth
  obtain rfl : f.identity = i := by simpa [Span.birth, hfields] using hi
  cases hp : span.parent with
  | none =>
    simp only [Span.birth, hp] at hlink
    exact hlink.1
  | some p =>
    simp only [Span.birth, hp] at hlink
    obtain ⟨parent, j, hparent, hj, hid, -⟩ := hlink
    rw [List.getElem?_take, Option.ite_none_right_eq_some, State.births_getElem?] at hparent
    obtain ⟨parentSpan, hps, rfl⟩ := Option.map_eq_some_iff.mp hparent.2
    obtain ⟨g, hg, rfl⟩ := Option.map_eq_some_iff.mp hj
    exact ⟨parentSpan, g, hps, hg, hid⟩

/-- What was exported for a span: one message when it has closed and its
tree's root decided for the trace, and nothing else. -/
theorem State.Forest.exports_eq (hf : s.Forest layer) {id : Nat}
    (hspan : s.spans[id]? = some span) (hfields : span.fields = some f)
    (hs : f.sampled = shouldSample traceId layer.samplingRate) :
    if span.closed ∧ layer.exportTraces ∧ shouldSample traceId layer.samplingRate then
      ∃ data, s.exports id = [data] ∧ data.spanId = f.spanId ∧ data.parentSpanId = f.parentSpanId
    else s.exports id = [] := by
  have hx : (s.exports id).map SpanData.ids =
      if span.closed ∧ layer.exportTraces ∧ f.sampled then [f.identity.ids] else [] :=
    hf.exported id span.birth f.identity span.closed
      (by rw [State.births_getElem?, hspan]; rfl) (by simp [Span.birth, hfields])
      (by rw [State.closings, List.getElem?_map, hspan]; rfl)
  rw [← hs]
  split at hx
  · rename_i hall
    rw [if_pos hall]
    obtain ⟨data, hdata, hids⟩ := List.map_eq_singleton_iff.mp hx
    simp only [SpanData.ids, Identity.ids, SpanFields.identity, Prod.mk.injEq] at hids
    exact ⟨data, hdata, hids.2⟩
  · rename_i hnot
    rw [if_neg hnot]
    exact List.map_eq_nil_iff.mp hx

/-- In state `t`: span `id` has the decision it was created with, the one its
tree's root made, and the exporter has one message for it if it is closed,
traces are exported and the decision is positive, and none otherwise. -/
def ExportedAsRootDecided (layer : OtlpLayer) (id : Nat) (created : Span) (spanId : SpanId)
    (t : State) : Prop :=
  ∃ span fields root top topFields,
    t.spans[id]? = some span ∧ span.parent = created.parent ∧ span.fields = some fields ∧
    created.fields.map (·.sampled) = some fields.sampled ∧
    IsTop t.spans id root top ∧ top.fields = some topFields ∧
    fields.sampled = topFields.sampled ∧
    if span.closed ∧ layer.exportTraces ∧ shouldSample topFields.traceId layer.samplingRate then
      ∃ data, t.exports id = [data] ∧ data.spanId = spanId ∧
        HasParentSpanId t.spans span.parent data.parentSpanId
    else t.exports id = []

theorem birth_created {span : Span}
    (h : span.birth = (layer.created spans parent name given spanId now).birth)
    (hf : span.fields = some f) : f.spanId = spanId ∧
      (layer.created spans parent name given spanId now).fields.map (·.sampled) =
        some f.sampled := by
  have hidentity := congrArg Birth.identity h
  simp only [Span.birth, hf, Option.map_some] at hidentity
  obtain ⟨g, hg, hfg⟩ := Option.map_eq_some_iff.mp hidentity.symm
  have hid : g.spanId = spanId := by
    rw [← Option.some.inj hg]
    rfl
  rw [hg, Option.map_some]
  exact ⟨(congrArg Identity.spanId hfg).symm.trans hid,
    congrArg some (congrArg Identity.sampled hfg)⟩

/-- Whatever happens after a span was created, in whatever state. -/
theorem span_exported (hs : (tracing layer).Reachable s)
    (hnew : (tracing layer).step (.newSpan thread parent name given spanId now) s = some u)
    (hrun : (tracing layer).run actions u = some t) :
    ∃ created, u.spans[s.spans.length]? = some created ∧
      (s.entered[thread]?.bind (s.parentOf · parent)) = some created.parent ∧
      ExportedAsRootDecided layer s.spans.length created spanId t ∧
      ∀ m ∈ t.sent, m.message.span?.isSome → ∃ id < t.spans.length, m.span = some id := by
  have hf := reachable_forest ((hs.step hnew).run hrun)
  have hst : Stepped layer s (.newSpan thread parent name given spanId now) u := step_stepped hnew
  cases hst with
  | @newSpan _ entries parent p _ _ _ _ he hp =>
    -- the new span is the last one, and its birth stays
    have hcreated : (s.spans ++ [layer.created s.spans p name given spanId now])[s.spans.length]? =
        some (layer.created s.spans p name given spanId now) := by
      simp
    obtain ⟨span, hspan, hbirth⟩ := run_span hrun hcreated
    obtain ⟨f, root, top, topFields, hfields, htop, htf, hsampled, hdecision⟩ := hf.top _ hspan
    obtain ⟨hid, hborn⟩ := birth_created hbirth hfields
    have hx := hf.exports_eq hspan hfields (hsampled.trans hdecision)
    refine ⟨_, hcreated, by rw [he, Option.bind_some, hp]; rfl, ⟨span, f, root, top, topFields,
      hspan, congrArg Birth.parent hbirth, hfields, hborn, htop, htf, hsampled, ?_⟩, hf.owned⟩
    split at hx
    · rename_i hall
      rw [if_pos hall]
      obtain ⟨data, hdata, hdid, hdp⟩ := hx
      exact ⟨data, hdata, hdid.trans hid, hdp ▸ hf.parentSpanId hspan hfields⟩
    · rename_i hnot
      rw [if_neg hnot]
      exact hx

end

/-- Half of the traces, of which `tracedFields` is in one. -/
def exportHalf : OtlpLayer :=
  .new ⟨"svc", "1", "test", [], true, true, ⟨0x3fe0000000000000⟩⟩ "0.10.0"

/-- A child, closed before its parent. -/
theorem span_exported_child : ∃ s u t created,
    (tracing exportHalf).run
      [.newSpan 0 .root "request" tracedFields (.replicate 8 1) 1, .enter 0 0]
      { entered := [[]] } = some s ∧
    (tracing exportHalf).step (.newSpan 0 .contextual "query" [] (.replicate 8 2) 2) s = some u ∧
    (tracing exportHalf).run [.close 1 3, .exit 0 0, .close 0 4] u = some t ∧
    t.closings = [true, true] ∧ u.spans[s.spans.length]? = some created ∧
    ExportedAsRootDecided exportHalf s.spans.length created (.replicate 8 2) t := by
  obtain ⟨t, ht⟩ := Option.isSome_iff_exists.mp (show ((tracing exportHalf).run
    ([.newSpan 0 .root "request" tracedFields (.replicate 8 1) 1, .enter 0 0] ++
      .newSpan 0 .contextual "query" [] (.replicate 8 2) 2 :: [.close 1 3, .exit 0 0, .close 0 4])
    { entered := [[]] }).isSome by decide +kernel)
  have hclosed : t.closings = [true, true] :=
    Machine.of_run ht (f := State.closings) (by decide +kernel)
  obtain ⟨s, hs, ht⟩ := Machine.run_append_some.mp ht
  obtain ⟨u, hu, ht⟩ := Machine.run_cons_some.mp ht
  obtain ⟨created, hcreated, -, hexported, -⟩ :=
    span_exported (Machine.Reachable.run (.init ⟨1, rfl⟩) hs) hu ht
  exact ⟨s, u, t, created, hs, hu, ht, hclosed, hcreated, hexported⟩

end Rolly.Layer
