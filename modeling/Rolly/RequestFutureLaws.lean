import Rolly.OtlpLayerReentryLaws
import Rolly.RequestFuture

/-!
# What becomes of a request

An answered request is measured once, by the events of its own future, and its
span is exported with its outcome. Both hold whatever the rest of the program
traces in between.
-/

namespace Rolly.Requests

open Layer (FieldCollector FieldValue OtlpLayer Sent)
open Proto3 (Bytes)
open Tower (Request requestFields)

-- ---------------------------------------------------------------------------
-- Steps of the layer
-- ---------------------------------------------------------------------------

/-- The IDs under which an event is logged where `span` is current, and if it
is. -/
def contextOf (s : Layer.State) (span : Option Nat) : TraceId × SpanId × Bool :=
  (((span.bind (s.births[·]?)).bind (·.identity)).map fun i =>
    (i.traceId, i.spanId, i.sampled)).getD (zeroTraceId, zeroSpanId, true)

/-- The log of an event, but for its time, with the span it is for. -/
def logOf (s : Layer.State) (span : Option Nat) (fields : List (String × FieldValue)) :
    Option Nat × LogData :=
  (span, {
    timeUnixNano := 0
    severityNumber := .info
    severityText := "INFO"
    body := .string ((FieldCollector.ofFields fields).message.getD "")
    attributes := (FieldCollector.ofFields fields).attrs
    traceId := (contextOf s span).1
    spanId := (contextOf s span).2.1 })

def untimed (m : Sent) : Option (Option Nat × LogData) :=
  match m.message with
  | .logs log => some (m.span, { log with timeUnixNano := 0 })
  | .traces _ => none

/-- What events with these fields come to where `span` is current. -/
def logsOf (layer : OtlpLayer) (s : Layer.State) (span : Option Nat)
    (events : List (List (String × FieldValue))) : List (Option (Option Nat × LogData)) :=
  if layer.exportLogs ∧ (contextOf s span).2.2 then
    events.map fun fields => some (logOf s span fields)
  else []

section
variable {layer : OtlpLayer} {s t : Layer.State} {a : Layer.Action} {id : Nat}

theorem isOpen_step (h : Layer.step layer a s = some t) (ho : s.isOpen id)
    (hc : closes id a = false) : t.isOpen id := by
  rw [Layer.Reentry.isOpen_iff] at ho ⊢
  obtain ⟨_, _, _, _, _, _, _, _, -, -, -, rfl⟩ | ⟨i, now, _, rfl, -, -, -, hcl, -⟩ | ⟨-, hcl, -⟩ :=
    Layer.step_cases h
  · have hlt := (List.getElem?_eq_some_iff.mp ho).1
    rw [Layer.State.closings, List.map_append]
    rwa [← Layer.State.closings, List.getElem?_append_left hlt]
  · have hne : i ≠ id := of_decide_eq_false hc
    rwa [hcl, List.getElem?_set_ne hne]
  · rwa [hcl]

theorem entered_step {thread : Nat} (h : Layer.step layer a s = some t)
    (ha : threadOf a ≠ some thread) : t.entered[thread]? = s.entered[thread]? := by
  cases Layer.step_stepped h with
  | @enter th | @exit th =>
    have hne : th ≠ thread := fun heq => ha (congrArg some heq)
    exact List.getElem?_set_ne hne
  | _ => rfl

theorem contextOf_step (h : Layer.step layer a s = some t)
    (hs : ∀ id, span = some id → id < s.spans.length) : contextOf t span = contextOf s span := by
  cases span with
  | none => rfl
  | some id =>
    have hlt : id < s.births.length := by
      rw [Layer.length_births]
      exact hs id rfl
    have hb := List.prefix_iff_getElem?.mp (Layer.step_births h) id hlt
    rw [← List.getElem?_eq_getElem] at hb
    simp only [contextOf, Option.bind_some, hb]

theorem logsOf_step (h : Layer.step layer a s = some t)
    (hs : ∀ id, span = some id → id < s.spans.length) :
    logsOf layer t span events = logsOf layer s span events := by
  simp only [logsOf, logOf, contextOf_step h hs]

theorem logsOf_append : logsOf layer s span (front ++ back) =
    logsOf layer s span front ++ logsOf layer s span back := by
  unfold logsOf
  split
  · exact List.map_append
  · rfl

theorem contextOf_eq (s : Layer.State) (span : Option Nat) : contextOf s span =
    (((span.bind (s.spans[·]?)).bind (·.fields)).map fun f =>
      (f.traceId, f.spanId, f.sampled)).getD (zeroTraceId, zeroSpanId, true) := by
  cases span with
  | none => rfl
  | some id =>
    simp only [contextOf, Option.bind_some, Layer.State.births_getElem?]
    cases s.spans[id]? with
    | none => rfl
    | some span => cases hf : span.fields <;> simp [Layer.Span.birth, hf, Layer.SpanFields.identity]

theorem event_logs {thread : Nat} (h : Layer.step layer (.event thread .info fields now) s = some t)
    (he : s.entered[thread]? = some stack) :
    (t.sent.drop s.sent.length).map untimed =
      logsOf layer s (Layer.State.current stack) [fields] := by
  cases Layer.step_stepped h with
  | event he' =>
    obtain rfl := Option.some.inj (he.symm.trans he')
    generalize Layer.State.current stack = span
    simp only [Layer.State.send, List.drop_left, logsOf, logOf, contextOf_eq,
      Layer.OtlpLayer.onEvent]
    cases hf : (span.bind (s.spans[·]?)).bind (·.fields) with
    | none => cases layer.exportLogs <;> simp [untimed, Layer.Level.severity, Layer.Level.text]
    | some f =>
      cases layer.exportLogs <;> cases hs : f.sampled <;>
        simp [untimed, hs, Layer.Level.severity, Layer.Level.text]

theorem nothing_sent (h : Layer.step layer a s = some t)
    (ha : match a with | .event .. | .close .. => False | _ => True) : t.sent = s.sent := by
  cases Layer.step_stepped h with
  | event | close => exact ha.elim
  | _ => rfl

end

-- ---------------------------------------------------------------------------
-- One future
-- ---------------------------------------------------------------------------

def Emission.recorded : Emission → Option (String × FieldValue)
  | .record field value => some (field, value)
  | .event _ => none

def Emission.logged : Emission → Option (List (String × FieldValue))
  | .record .. => none
  | .event fields => some fields

namespace CfRequestIdFuture

/-- What a future has to emit, from its outcome on. -/
def plan (f : CfRequestIdFuture) : List Emission :=
  f.outcome.elim [] fun (output, latencyMs) => emissions f.method f.uri latencyMs output

/-- What the future recorded itself. -/
def own (f : CfRequestIdFuture) : List (String × FieldValue) :=
  (f.recorded.filter (·.1)).map (·.2)

/-- The inner future has not been ready yet. -/
def Unready (f : CfRequestIdFuture) : Prop :=
  match f.progress with
  | .waiting | .polling _ => True
  | .emitting _ _ isReady => isReady = false
  | .ready | .dropped => False

/-- The part `done` of the plan, and nothing else, has been traced. -/
structure Traced (layer : OtlpLayer) (s : Layer.State) (f : CfRequestIdFuture)
    (done : List Emission) : Prop where
  plan : f.plan = done ++ f.todo
  own : f.own = done.filterMap Emission.recorded
  logged : f.logged.map untimed = logsOf layer s f.context (done.filterMap Emission.logged)

/-- What holds of a future and its span. -/
structure Ok (layer : OtlpLayer) (s : Layer.State) (f : CfRequestIdFuture) : Prop where
  stored : Layer.Stored s f.span ((f.given ++ f.recorded.map (·.2)).filterMap Layer.kept)
    ((Layer.ownTraceId f.given).getD zeroTraceId)
  isOpen : f.progress ≠ .dropped → s.isOpen f.span
  unready : f.Unready → f.outcome = none
  known : ∀ id, f.context = some id → id < s.spans.length
  current : ∀ thread todo, f.progress = .emitting thread todo true →
    ∃ stack, s.entered[thread]? = some stack ∧ Layer.State.current stack = f.context
  traced : ∃ done, f.Traced layer s done

end CfRequestIdFuture

section
variable {layer : OtlpLayer} {s t : Layer.State} {a : Layer.Action} {f : CfRequestIdFuture}

theorem own_note (own : Bool) (sent : List Sent) :
    (f.note own a sent).own = f.own ++ if own then a.recorded f.span else [] := by
  cases own <;> simp [CfRequestIdFuture.own, CfRequestIdFuture.note, List.filter_append,
    List.filter_map, Function.comp_def]

theorem Ok.note (hf : f.Ok layer s) (h : Layer.step layer a s = some t)
    (hclose : f.progress ≠ .dropped → closes f.span a = false)
    (hthread : ∀ thread, f.emitsOn thread → threadOf a ≠ some thread) (sent : List Sent) :
    (f.note false a sent).Ok layer t where
  stored := by
    have := hf.stored.step h
    simpa [CfRequestIdFuture.note, Function.comp_def] using this
  isOpen hp := isOpen_step h (hf.isOpen hp) (hclose hp)
  unready := hf.unready
  known id hid := by
    have hle := (Layer.step_births h).length_le
    rw [Layer.length_births, Layer.length_births] at hle
    exact Nat.lt_of_lt_of_le (hf.known id hid) hle
  current thread todo hp := by
    obtain ⟨stack, he, hc⟩ := hf.current thread todo hp
    have hemits : f.emitsOn thread := by
      have hp : f.progress = .emitting thread todo true := hp
      simp [CfRequestIdFuture.emitsOn, hp]
    exact ⟨stack, (entered_step h (hthread thread hemits)).trans he, hc⟩
  traced := by
    obtain ⟨done, hd⟩ := hf.traced
    refine ⟨done, hd.plan, ?_, ?_⟩
    · rw [own_note, hd.own]
      simp
    · exact hd.logged.trans (logsOf_step h hf.known).symm

theorem Ok.withProgress (hf : f.Ok layer s) {progress : Progress}
    (htodo : f.todo = []) (hnew : CfRequestIdFuture.todo { f with progress } = [])
    (hopen : f.progress = .dropped → progress = .dropped)
    (hunready : CfRequestIdFuture.Unready { f with progress } → f.Unready)
    (hidle : ∀ thread todo, progress ≠ .emitting thread todo true) :
    CfRequestIdFuture.Ok layer s { f with progress } where
  stored := hf.stored
  isOpen hp := hf.isOpen fun hdropped => hp (hopen hdropped)
  unready h := hf.unready (hunready h)
  known := hf.known
  current thread todo hp := absurd hp (hidle thread todo)
  traced := by
    obtain ⟨done, hd⟩ := hf.traced
    refine ⟨done, ?_, hd.own, hd.logged⟩
    rw [hnew, ← htodo]
    exact hd.plan

theorem Ok.returned (hf : f.Ok layer s) {thread : Nat} (hp : f.progress = .polling thread)
    (he : s.entered[thread]? = some stack) (hknown : ∀ entry ∈ stack, entry.1 < s.spans.length)
    (output : Output) (latencyMs : F64) :
    CfRequestIdFuture.Ok layer s { f with
      progress := .emitting thread (emissions f.method f.uri latencyMs output) (output ≠ .pending)
      outcome := if output ≠ .pending then some (output, latencyMs) else none
      context := if output ≠ .pending then Layer.State.current stack else none } := by
  have houtcome : f.outcome = none := hf.unready (by simp [CfRequestIdFuture.Unready, hp])
  have hcurrent : ∀ id, (if output ≠ .pending then Layer.State.current stack else none) = some id →
      id < s.spans.length := by
    intro id hid
    obtain ⟨-, hid⟩ := Option.ite_none_right_eq_some.mp hid
    obtain ⟨entry, hentry, rfl⟩ := Layer.current_mem hid
    exact hknown entry hentry
  obtain ⟨done, hd⟩ := hf.traced
  have hnone : done = [] := by
    have hplan := hd.plan
    simp only [CfRequestIdFuture.plan, CfRequestIdFuture.todo, hp, houtcome, Option.elim_none,
      List.append_nil] at hplan
    exact hplan.symm
  subst hnone
  refine ⟨hf.stored, fun _ => hf.isOpen (by simp [hp]), fun h => ?_, hcurrent,
    fun th todo h => ?_, [], ?_, hd.own, ?_⟩
  · simp only [CfRequestIdFuture.Unready, decide_eq_false_iff_not] at h
    exact if_neg h
  · simp only [Progress.emitting.injEq, decide_eq_true_eq] at h
    obtain ⟨rfl, -, hready⟩ := h
    exact ⟨stack, he, (if_pos hready).symm⟩
  · cases output <;> rfl
  · have hlogged := hd.logged
    simp only [List.filterMap_nil, logsOf, List.map_nil, ite_self] at hlogged ⊢
    exact hlogged

theorem recorded_action (span thread : Nat) (now : UInt64) (e : Emission) :
    (e.action span thread now).recorded span = e.recorded.toList := by
  cases e <;> simp [Emission.action, Layer.Action.recorded, Emission.recorded]

theorem Ok.emit (hf : f.Ok layer s) {thread : Nat} {todo : List Emission} {isReady : Bool}
    (hp : f.progress = .emitting thread (e :: todo) isReady)
    (h : Layer.step layer (e.action f.span thread now) s = some t) :
    CfRequestIdFuture.Ok layer t
      { f.note true (e.action f.span thread now) (t.sent.drop s.sent.length) with
        progress := .emitting thread todo isReady } := by
  obtain ⟨done, hd⟩ := hf.traced
  have hplan := hd.plan
  simp only [CfRequestIdFuture.todo, hp] at hplan
  have hready : isReady = true := by
    cases isReady with
    | true => rfl
    | false =>
      have houtcome := hf.unready (by simp [CfRequestIdFuture.Unready, hp])
      simp [CfRequestIdFuture.plan, houtcome] at hplan
  subst hready
  obtain ⟨stack, he, hc⟩ := hf.current thread _ hp
  have hclose : closes f.span (e.action f.span thread now) = false := by cases e <;> rfl
  refine ⟨?_, fun _ => isOpen_step h (hf.isOpen (by simp [hp])) hclose, fun hu => (by cases hu),
    fun id hid => ?_, fun th td hp' => ?_, done ++ [e], ?_, ?_, ?_⟩
  · have := hf.stored.step h
    simpa [CfRequestIdFuture.note, Function.comp_def] using this
  · have hle := (Layer.step_births h).length_le
    rw [Layer.length_births, Layer.length_births] at hle
    exact Nat.lt_of_lt_of_le (hf.known id hid) hle
  · obtain ⟨rfl, -, -⟩ := Progress.emitting.inj hp'
    refine ⟨stack, ?_, hc⟩
    rw [← he]
    cases e with
    | record => exact entered_step h nofun
    | event fields =>
      have h : Layer.step layer (.event thread .info fields now) s = some t := h
      cases Layer.step_stepped h with
      | event => rfl
  · show f.plan = _
    rw [hplan, List.append_assoc]
    rfl
  · have hown := own_note (f := f) (a := e.action f.span thread now) true
      (t.sent.drop s.sent.length)
    refine hown.trans ?_
    rw [recorded_action, hd.own, List.filterMap_append]
    cases e <;> rfl
  · show (f.logged ++ t.sent.drop s.sent.length).map untimed = logsOf layer t f.context _
    rw [logsOf_step h hf.known, List.map_append, List.filterMap_append, logsOf_append, hd.logged]
    congr 1
    cases e with
    | record field value =>
      rw [nothing_sent h trivial, List.drop_length]
      simp [logsOf, Emission.logged]
    | event fields =>
      rw [← hc]
      exact event_logs h he

end

-- ---------------------------------------------------------------------------
-- Steps
-- ---------------------------------------------------------------------------

inductive Stepped (layer : OtlpLayer) (blake3 : Bytes → Vector UInt8 32) (s : State) :
    Action → State → Prop
  | call (h : act layer none (.newSpan thread .contextual "request"
        (requestFields blake3 uuid spanId req) layerSpanId now) s = some t)
      (ha : s.allows (.newSpan thread .contextual "request"
        (requestFields blake3 uuid spanId req) layerSpanId now)) :
      Stepped layer blake3 s (.call thread uuid spanId layerSpanId now req) { t with
        futures := t.futures ++ [{
          span := s.layer.spans.length, method := req.method, uri := req.path
          given := requestFields blake3 uuid spanId req }] }
  | poll {i : Nat} {f : CfRequestIdFuture} (hf : s.futures[i]? = some f)
      (hp : f.progress = .waiting) (hb : s.busy thread = false)
      (h : act layer (some i) (.enter thread f.span) s = some t) :
      Stepped layer blake3 s (.poll i thread) (t.setProgress i (.polling thread))
  | returned {i : Nat} {f : CfRequestIdFuture} (hf : s.futures[i]? = some f)
      (hp : f.progress = .polling thread) (hb : s.busy thread = false)
      (he : s.layer.entered[thread]? = some stack) :
      Stepped layer blake3 s (.returned i output latencyMs) { s with
        futures := s.futures.set i { f with
          progress := .emitting thread (emissions f.method f.uri latencyMs output)
            (output ≠ .pending)
          outcome := if output ≠ .pending then some (output, latencyMs) else none
          context := if output ≠ .pending then Layer.State.current stack else none } }
  | emit {i : Nat} {f : CfRequestIdFuture} (hf : s.futures[i]? = some f)
      (hp : f.progress = .emitting thread (e :: todo) isReady)
      (h : act layer (some i) (e.action f.span thread now) s = some t) :
      Stepped layer blake3 s (.emit i now) (t.setProgress i (.emitting thread todo isReady))
  | exit {i : Nat} {f : CfRequestIdFuture} (hf : s.futures[i]? = some f)
      (hp : f.progress = .emitting thread [] isReady)
      (h : act layer (some i) (.exit thread f.span) s = some t) :
      Stepped layer blake3 s (.emit i now)
        (t.setProgress i (if isReady then .ready else .waiting))
  | drop {i : Nat} {f : CfRequestIdFuture} (hf : s.futures[i]? = some f)
      (hp : f.progress = .waiting ∨ f.progress = .ready) :
      Stepped layer blake3 s (.drop i) (s.setProgress i .dropped)
  | other (ha : s.allows a) (h : act layer none a s = some t) :
      Stepped layer blake3 s (.other a) t

section
variable {layer : OtlpLayer} {blake3 : Bytes → Vector UInt8 32} {s t : State}

theorem step_stepped (h : step layer blake3 a s = some t) : Stepped layer blake3 s a t := by
  cases a with
  | call thread uuid spanId layerSpanId now req =>
    simp only [step, Option.ite_none_right_eq_some] at h
    obtain ⟨ha, h⟩ := h
    obtain ⟨t, ht, rfl⟩ := Option.map_eq_some_iff.mp h
    exact .call ht ha
  | poll i thread =>
    obtain ⟨f, hf, h⟩ := Option.bind_eq_some_iff.mp h
    split at h
    · obtain ⟨hb, h⟩ := Option.ite_none_left_eq_some.mp h
      obtain ⟨t, ht, rfl⟩ := Option.map_eq_some_iff.mp h
      exact .poll hf ‹_› (by simpa using hb) ht
    · cases h
  | returned i output latencyMs =>
    obtain ⟨f, hf, h⟩ := Option.bind_eq_some_iff.mp h
    split at h
    · obtain ⟨hb, h⟩ := Option.ite_none_left_eq_some.mp h
      obtain ⟨stack, he, rfl⟩ := Option.map_eq_some_iff.mp h
      have hstepped : Stepped layer blake3 s (.returned i output latencyMs) _ :=
        .returned hf ‹_› (by simpa using hb) he
      simpa using hstepped
    · cases h
  | emit i now =>
    obtain ⟨f, hf, h⟩ := Option.bind_eq_some_iff.mp h
    split at h
    · obtain ⟨t, ht, rfl⟩ := Option.map_eq_some_iff.mp h
      exact .emit hf ‹_› ht
    · obtain ⟨t, ht, rfl⟩ := Option.map_eq_some_iff.mp h
      exact .exit hf ‹_› ht
    · cases h
  | drop i =>
    obtain ⟨f, hf, h⟩ := Option.bind_eq_some_iff.mp h
    split at h
    · obtain rfl := Option.some.inj h
      exact .drop hf (.inl ‹_›)
    · obtain rfl := Option.some.inj h
      exact .drop hf (.inr ‹_›)
    · cases h
  | other a =>
    simp only [step, Option.ite_none_right_eq_some] at h
    exact .other h.1 h.2

/-- The layer sees what the futures and the rest of the program do. -/
theorem refines_layer : (serving layer blake3).Refines (Layer.tracing layer) State.layer where
  init s hs := by
    obtain ⟨threads, rfl⟩ := hs
    exact .init ⟨threads, rfl⟩
  step a s t _ ht := by
    have hone {who : Option Nat} {a : Layer.Action} {t : State} (h : act layer who a s = some t) :
        ∃ bs, (Layer.tracing layer).run bs s.layer = some t.layer := by
      obtain ⟨u, hu, rfl⟩ := Option.map_eq_some_iff.mp h
      exact ⟨[a], Machine.run_cons_some.mpr ⟨u, hu, rfl⟩⟩
    cases step_stepped ht with
    | call h | poll _ _ _ h | emit _ _ h | exit _ _ h | other _ h =>
      obtain ⟨bs, hbs⟩ := hone h
      exact ⟨bs, hbs⟩
    | returned | drop => exact ⟨[], rfl⟩

end

-- ---------------------------------------------------------------------------
-- All futures
-- ---------------------------------------------------------------------------

def State.emits (s : State) (i thread : Nat) : Bool := s.futures[i]?.any (·.emitsOn thread)

/-- Every future has done its part, no two emit on one thread, and whatever was
sent is accounted for. -/
structure State.Inv (layer : OtlpLayer) (s : State) : Prop where
  futures : ∀ f ∈ s.futures, f.Ok layer s.layer
  alone : ∀ i j thread, s.emits i thread → s.emits j thread → i = j
  sent : s.layer.sent.Perm (s.futures.flatMap (·.logged) ++ s.foreign)

section
variable {layer : OtlpLayer} {blake3 : Bytes → Vector UInt8 32} {s t : State} {i : Nat}
  {f g : CfRequestIdFuture} {a : Layer.Action} {thread : Nat}

theorem flatMap_set {α β : Type} [DecidableEq β] {logged : α → List β} {l : List α} {i : Nat}
    {x y : α} {new : List β} (hf : l[i]? = some x) (hy : logged y = logged x ++ new) :
    ((l.set i y).flatMap logged).Perm (l.flatMap logged ++ new) := by
  obtain ⟨hi, rfl⟩ := List.getElem?_eq_some_iff.mp hf
  refine List.perm_iff_count.mpr fun b => ?_
  have hl : l.flatMap logged =
      (l.take i).flatMap logged ++ (logged l[i] ++ (l.drop (i + 1)).flatMap logged) := by
    conv_lhs => rw [← List.take_append_drop i l, List.drop_eq_getElem_cons hi]
    rw [List.flatMap_append, List.flatMap_cons]
  rw [hl, List.set_eq_take_append_cons_drop, if_pos hi, List.flatMap_append, List.flatMap_cons, hy]
  simp only [List.count_append]
  omega

theorem emits_iff (hf : s.futures[i]? = some f) : s.emits i thread = f.emitsOn thread := by
  rw [State.emits, hf]
  rfl

theorem emitsOn_note (own : Bool) (sent : List Sent) :
    (f.note own a sent).emitsOn thread = f.emitsOn thread := rfl

theorem busy_eq_false (h : s.busy thread = false) : s.emits i thread = false := by
  unfold State.emits
  cases hf : s.futures[i]? with
  | none => rfl
  | some f => simpa using List.any_eq_false.mp h f (List.mem_of_getElem? hf)

theorem State.Inv.other (hi : s.Inv layer) (ha : s.allows a) (h : act layer none a s = some t) :
    t.Inv layer := by
  obtain ⟨u, hu, rfl⟩ := Option.map_eq_some_iff.mp h
  obtain ⟨hthread, hclose⟩ := Bool.and_eq_true_iff.mp ha
  have hnote : s.futures.mapIdx (fun i f => f.note (none = some i) a
      (u.sent.drop s.layer.sent.length)) =
      s.futures.map fun f => f.note false a (u.sent.drop s.layer.sent.length) := by
    exact List.ext_getElem? fun i => by simp
  simp only [hnote]
  refine { futures := fun g hg => ?_, alone := fun i j thread hf hg => ?_, sent := ?_ }
  · obtain ⟨f, hf, rfl⟩ := List.mem_map.mp hg
    refine Ok.note (hi.futures f hf) hu (fun hp => ?_) (fun thread hemits hth => ?_) _
    · have := List.all_eq_true.mp hclose f hf
      simpa [hp] using this
    · have hbusy : s.busy thread = false := by simpa [hth] using hthread
      obtain ⟨i, hget⟩ := List.mem_iff_getElem?.mp hf
      rw [← emits_iff hget, busy_eq_false hbusy] at hemits
      cases hemits
  · refine hi.alone i j thread ?_ ?_
    · simpa [State.emits, Option.any_map, Function.comp_def, emitsOn_note] using hf
    · simpa [State.emits, Option.any_map, Function.comp_def, emitsOn_note] using hg
  · rw [Layer.step_sent hu, List.flatMap_map]
    have := hi.sent.append_right (u.sent.drop s.layer.sent.length)
    simpa [CfRequestIdFuture.note] using this

/-- One future goes on to `g` and sends what is new; the others at most take note. -/
theorem State.Inv.moved (hi : s.Inv layer) (hf : s.futures[i]? = some f) {u : Layer.State}
    {new : List Sent} (note : CfRequestIdFuture → CfRequestIdFuture)
    (hnote : ∀ f, (note f).progress = f.progress ∧ (note f).logged = f.logged)
    (hother : ∀ j h, j ≠ i → s.futures[j]? = some h → (note h).Ok layer u) (hg : g.Ok layer u)
    (hlogged : g.logged = f.logged ++ new) (hsent : u.sent = s.layer.sent ++ new)
    (halone : ∀ j thread, s.emits j thread → g.emitsOn thread → j = i) :
    State.Inv layer { s with layer := u, futures := (s.futures.map note).set i g } := by
  have hemits (f : CfRequestIdFuture) (thread : Nat) :
      (note f).emitsOn thread = f.emitsOn thread := by
    simp only [CfRequestIdFuture.emitsOn, (hnote f).1]
  have hlt : i < s.futures.length := (List.getElem?_eq_some_iff.mp hf).1
  have hget (j thread : Nat)
      (h : State.emits { s with layer := u, futures := (s.futures.map note).set i g } j thread) :
      j = i ∧ g.emitsOn thread ∨ j ≠ i ∧ s.emits j thread := by
    by_cases hj : j = i
    · subst hj
      refine .inl ⟨rfl, ?_⟩
      simpa [State.emits, hlt] using h
    · refine .inr ⟨hj, ?_⟩
      simpa [State.emits, List.getElem?_set_ne (Ne.symm hj), Option.any_map, Function.comp_def,
        hemits] using h
  refine { futures := fun h hh => ?_, alone := fun j k thread hj hk => ?_, sent := ?_ }
  · obtain ⟨j, hget⟩ := List.mem_iff_getElem?.mp hh
    by_cases hj : j = i
    · subst hj
      obtain rfl : g = h := by simpa [hlt] using hget
      exact hg
    · rw [List.getElem?_set_ne (Ne.symm hj), List.getElem?_map] at hget
      obtain ⟨h, hold, rfl⟩ := Option.map_eq_some_iff.mp hget
      exact hother j h hj hold
  · obtain ⟨rfl, hgj⟩ | ⟨hne, hj⟩ := hget j thread hj <;>
      obtain ⟨hki, hgk⟩ | ⟨hne', hk⟩ := hget k thread hk
    · exact hki.symm
    · exact absurd (halone k thread hk hgj) hne'
    · exact absurd (hki ▸ halone j thread hj hgk) hne
    · exact hi.alone j k thread hj hk
  · have hmap : (s.futures.map note)[i]? = some (note f) := by simp [hf]
    have hperm : (((s.futures.map note).set i g).flatMap (·.logged)).Perm
        ((s.futures.map note).flatMap (·.logged) ++ new) :=
      flatMap_set hmap (by rw [(hnote f).2, hlogged])
    have hsame : (s.futures.map note).flatMap (·.logged) = s.futures.flatMap (·.logged) := by
      simp [List.flatMap_map, hnote]
    rw [hsame] at hperm
    refine List.perm_iff_count.mpr fun m => ?_
    have hcount := hi.sent.count_eq m
    have hcount' := hperm.count_eq m
    simp only [hsent, List.count_append] at hcount hcount' ⊢
    omega

theorem State.Inv.set (hi : s.Inv layer) (hf : s.futures[i]? = some f) (hg : g.Ok layer s.layer)
    (hlogged : g.logged = f.logged)
    (halone : ∀ j thread, s.emits j thread → g.emitsOn thread → j = i) :
    State.Inv layer { s with futures := s.futures.set i g } := by
  have hmoved := hi.moved hf id (fun _ => ⟨rfl, rfl⟩)
    (fun j g _ hget => hi.futures g (List.mem_of_getElem? hget)) hg
    (hlogged.trans (List.append_nil _).symm) (List.append_nil _).symm halone
  simpa using hmoved

theorem State.Inv.own (hi : s.Inv layer) (hf : s.futures[i]? = some f)
    (h : act layer (some i) a s = some t) {progress : Progress}
    (hclose : ∀ id, closes id a = false)
    (hthread : ∀ j thread, s.emits j thread → threadOf a = some thread → j = i)
    (halone : ∀ j thread, s.emits j thread →
      CfRequestIdFuture.emitsOn thread { f with progress } → j = i)
    (hg : ∀ u, Layer.step layer a s.layer = some u → CfRequestIdFuture.Ok layer u
      { f.note true a (u.sent.drop s.layer.sent.length) with progress }) :
    (t.setProgress i progress).Inv layer := by
  obtain ⟨u, hu, rfl⟩ := Option.map_eq_some_iff.mp h
  have hmoved : State.Inv layer { s with
      layer := u
      futures := ((s.futures.map fun g => g.note false a (u.sent.drop s.layer.sent.length)).set i
        { f.note true a (u.sent.drop s.layer.sent.length) with progress }) } := by
    refine hi.moved hf _ (fun _ => ⟨rfl, rfl⟩) (fun j g hj hget => ?_) (hg u hu) rfl
      (Layer.step_sent hu) halone
    refine Ok.note (hi.futures g (List.mem_of_getElem? hget)) hu (fun _ => hclose _)
      (fun thread hemits hth => hj (hthread j thread ?_ hth)) _
    rwa [emits_iff hget]
  refine cast (congrArg (State.Inv layer) ?_) hmoved
  simp only [State.setProgress, State.mk.injEq, true_and, Option.isNone_some, Bool.false_eq_true,
    if_false, and_true]
  refine List.ext_getElem? fun j => ?_
  rw [List.getElem?_modify, List.getElem?_mapIdx]
  obtain ⟨hlt, rfl⟩ := List.getElem?_eq_some_iff.mp hf
  by_cases hj : i = j
  · subst hj
    simp [hlt]
  · simp [hj, List.getElem?_set_ne]

theorem State.Inv.crossed (hi : s.Inv layer) (hf : s.futures[i]? = some f)
    (h : act layer (some i) a s = some t) {progress : Progress} {thread : Nat}
    (ha : a = .enter thread f.span ∨ a = .exit thread f.span)
    (hthread : ∀ j, s.emits j thread → j = i)
    (hidle : ∀ th, ¬ CfRequestIdFuture.emitsOn th { f with progress })
    (hg : CfRequestIdFuture.Ok layer s.layer { f with progress }) :
    (t.setProgress i progress).Inv layer := by
  refine hi.own hf h (fun id => ?_) (fun j th hemits hth => ?_)
    (fun j th _ hemits => absurd hemits (hidle th)) fun u hu => ?_
  · obtain rfl | rfl := ha <;> rfl
  · obtain rfl : thread = th := by obtain rfl | rfl := ha <;> exact Option.some.inj hth
    exact hthread j hemits
  · have hsent : u.sent = s.layer.sent := by
      obtain rfl | rfl := ha <;> exact nothing_sent hu trivial
    have hrecorded : a.recorded f.span = [] := by obtain rfl | rfl := ha <;> rfl
    have hnote := Ok.note hg hu (fun _ => by obtain rfl | rfl := ha <;> rfl)
      (fun th hemits => absurd hemits (hidle th)) []
    rw [hsent, List.drop_length]
    simpa [CfRequestIdFuture.note, hrecorded] using hnote

theorem State.Inv.create (hi : t.Inv layer) (hf : f.Ok layer t.layer) (hp : f.progress = .waiting)
    (hlogged : f.logged = []) : State.Inv layer { t with futures := t.futures ++ [f] } := by
  have hemits (j th : Nat) (h : State.emits { t with futures := t.futures ++ [f] } j th) :
      t.emits j th := by
    simp only [State.emits] at h ⊢
    obtain hlt | hge := Nat.lt_or_ge j t.futures.length
    · rwa [List.getElem?_append_left hlt] at h
    · rw [List.getElem?_append_right hge] at h
      cases hget : [f][j - t.futures.length]? with
      | none => simp [hget] at h
      | some g =>
        obtain rfl := List.mem_singleton.mp (List.mem_of_getElem? hget)
        simp [hget, CfRequestIdFuture.emitsOn, hp] at h
  refine { futures := fun g hg => ?_, sent := ?_
           alone := fun j k th hj hk => hi.alone j k th (hemits j th hj) (hemits k th hk) }
  · obtain hg | hg := List.mem_append.mp hg
    · exact hi.futures g hg
    · exact List.mem_singleton.mp hg ▸ hf
  · simpa [hlogged] using hi.sent

theorem emitsOn_iff {todo : List Emission} {isReady : Bool}
    (hp : f.progress = .emitting thread todo isReady) (th : Nat) :
    f.emitsOn th ↔ thread = th := by
  simp [CfRequestIdFuture.emitsOn, hp]

theorem State.Inv.step (hr : (Layer.tracing layer).Reachable s.layer) (hi : s.Inv layer)
    (h : step layer blake3 b s = some t) : t.Inv layer := by
  cases step_stepped h with
  | @call thread uuid spanId req layerSpanId now t hact ha =>
    have hother := hi.other ha hact
    obtain ⟨u, hu, rfl⟩ := Option.map_eq_some_iff.mp hact
    have hstored := Layer.stored_new hr hu
    refine hother.create ⟨by simpa using hstored, fun _ => ?_, fun _ => rfl,
      fun _ h => (by cases h), fun _ _ h => (by cases h), [], rfl, rfl, ?_⟩ rfl rfl
    · cases Layer.step_stepped hu with
      | newSpan => simp [Layer.State.isOpen, OtlpLayer.created]
    · simp [logsOf]
  | @poll thread t i f hf hp hb hact =>
    refine hi.crossed hf hact (.inl rfl) (fun j hj => ?_) (fun th h => by cases h) ?_
    · rw [busy_eq_false hb] at hj
      cases hj
    · refine Ok.withProgress (hi.futures f (List.mem_of_getElem? hf)) ?_ rfl (by simp [hp])
        (fun _ => ?_) (fun _ _ h => by cases h)
      · simp [CfRequestIdFuture.todo, hp]
      · simp [CfRequestIdFuture.Unready, hp]
  | @returned thread stack output latencyMs i f hf hp hb he =>
    have hknown : ∀ entry ∈ stack, entry.1 < s.layer.spans.length :=
      (Layer.reachable_inv hr).entered _ (List.mem_of_getElem? he)
    have hg := Ok.returned (hi.futures f (List.mem_of_getElem? hf)) hp he hknown output latencyMs
    refine hi.set hf hg rfl fun j th hj hth => ?_
    obtain rfl := (emitsOn_iff rfl th).mp hth
    rw [busy_eq_false hb] at hj
    cases hj
  | @emit thread e todo isReady t now i f hf hp hact =>
    have hmine (j : Nat) (hj : s.emits j thread) : j = i := by
      refine hi.alone j i thread hj ?_
      rw [emits_iff hf, emitsOn_iff hp]
    refine hi.own hf hact (fun id => by cases e <;> rfl) (fun j th hj hth => ?_)
      (fun j th hj hth => ?_) fun u hu => Ok.emit (hi.futures f (List.mem_of_getElem? hf)) hp hu
    · cases e with
      | record => cases hth
      | event => exact hmine j (Option.some.inj hth ▸ hj)
    · exact hmine j ((emitsOn_iff rfl th).mp hth ▸ hj)
  | @exit thread isReady t now i f hf hp hact =>
    refine hi.crossed hf hact (.inr rfl) (fun j hj => ?_) (fun th => ?_) ?_
    · refine hi.alone j i thread hj ?_
      rw [emits_iff hf, emitsOn_iff hp]
    · cases isReady <;> exact fun h => by cases h
    · refine Ok.withProgress (hi.futures f (List.mem_of_getElem? hf)) ?_ ?_ (by simp [hp])
        (fun hu => ?_) ?_
      · simp [CfRequestIdFuture.todo, hp]
      · cases isReady <;> rfl
      · cases isReady with
        | false => simp [CfRequestIdFuture.Unready, hp]
        | true => exact hu.elim
      · cases isReady <;> exact fun _ _ h => by cases h
  | @drop i f hf hp =>
    have hg : CfRequestIdFuture.Ok layer s.layer { f with progress := .dropped } := by
      refine Ok.withProgress (hi.futures f (List.mem_of_getElem? hf)) ?_ rfl (fun _ => rfl)
        (fun h => h.elim) (fun _ _ h => by cases h)
      obtain hp | hp := hp <;> simp [CfRequestIdFuture.todo, hp]
    refine cast (congrArg (State.Inv layer) ?_) (hi.set hf hg rfl fun j th _ h => by cases h)
    rw [State.setProgress, List.modify_eq_set_getElem?, hf]
    rfl
  | other ha h => exact hi.other ha h

theorem reachable_inv (h : (serving layer blake3).Reachable s) : s.Inv layer := by
  refine h.invariant (fun s hs => ?_)
    fun a s t hr hi ht => hi.step (refines_layer.reachable hr) ht
  obtain ⟨threads, rfl⟩ := hs
  exact { futures := nofun, alone := fun i j th hi => by simp [State.emits] at hi
          sent := List.Perm.refl _ }

end

-- ---------------------------------------------------------------------------
-- One request
-- ---------------------------------------------------------------------------

/-- The inner future is ready where the request span is current, as it is if it
leaves the spans it enters. -/
def inSpan : Action → State → Bool
  | .returned i _ _, s => s.futures[i]?.all fun f =>
    match f.progress with
    | .polling thread =>
      s.layer.entered[thread]?.all fun stack => Layer.State.current stack = some f.span
    | _ => true
  | _, _ => true

/-- One request: polled once, with an event of the inner future, and answered
with an error. -/
def served : List Action :=
  [.call 0 zeroTraceId zeroSpanId zeroSpanId 1 Tower.someRequest, .poll 0 0,
    .other (.event 0 .info [] 2), .returned 0 (.response 500) F64.one] ++
  List.replicate 6 (.emit 0 3) ++ [.drop 0, .other (.close 0 4)]

theorem served_runs : ∃ s f,
    ((serving Layer.exportAll Tower.someHash).guard fun a s => inSpan a s).run served
      { layer := { entered := [[]] } } = some s ∧
    s.futures = [f] ∧ f.todo = [] ∧ f.logged.length = 3 ∧ (s.layer.exports f.span).length = 1 := by
  obtain ⟨s, hs, hend⟩ := Option.map_eq_some_iff.mp (show
    (((serving Layer.exportAll Tower.someHash).guard fun a s => inSpan a s).run served
      { layer := { entered := [[]] } }).map (fun s => s.futures.map fun f =>
        (f.todo, f.logged.length, (s.layer.exports f.span).length)) = some [([], 3, 1)] by
      decide +kernel)
  obtain ⟨f, hf, hfacts⟩ := List.map_eq_singleton_iff.mp hend
  simp only [Prod.mk.injEq] at hfacts
  exact ⟨s, f, hs, hf, hfacts⟩

/-- At any time a future has recorded and logged what it has called so far, each
call once and in order, whatever was traced in between. -/
theorem request_traced {layer : OtlpLayer} {blake3 : Bytes → Vector UInt8 32} {s : State}
    {f : CfRequestIdFuture} (h : (serving layer blake3).Reachable s) (hf : f ∈ s.futures) :
    ∃ done, f.plan = done ++ f.todo ∧ f.own = done.filterMap Emission.recorded ∧
      f.logged.map untimed =
        logsOf layer s.layer f.context (done.filterMap Emission.logged) := by
  obtain ⟨done, hd⟩ := ((reachable_inv h).futures f hf).traced
  exact ⟨done, hd.plan, hd.own, hd.logged⟩

theorem request_traced_served : ∃ s f done,
    (serving Layer.exportAll Tower.someHash).run served { layer := { entered := [[]] } } = some s ∧
    s.futures = [f] ∧ f.plan = done ++ f.todo ∧ f.own = done.filterMap Emission.recorded ∧
      f.logged.map untimed =
        logsOf Layer.exportAll s.layer f.context (done.filterMap Emission.logged) := by
  obtain ⟨s, f, hs, hf, -⟩ := served_runs
  have hrun := Machine.run_of_guard hs
  obtain ⟨done, hdone⟩ := request_traced (Machine.Reachable.run (.init ⟨1, rfl⟩) hrun)
    (show f ∈ s.futures by simp [hf])
  exact ⟨s, f, done, hrun, hf, hdone⟩

def outcomeValues : Option (Output × F64) → List (String × FieldValue)
  | some (.response status, latencyMs) =>
    [("http.status_code", .u64 status.toUInt64), ("http.latency_ms", .f64 latencyMs)]
  | some (.error, latencyMs) => [("http.latency_ms", .f64 latencyMs)]
  | _ => []

section
variable {layer : OtlpLayer} {blake3 : Bytes → Vector UInt8 32} {s t : State}
  {f : CfRequestIdFuture}

theorem plan_recorded (f : CfRequestIdFuture) :
    f.plan.filterMap Emission.recorded = outcomeValues f.outcome := by
  unfold CfRequestIdFuture.plan
  cases f.outcome with
  | none => rfl
  | some outcome =>
    obtain ⟨output, latencyMs⟩ := outcome
    cases output with
    | response status =>
      simp only [Option.elim_some, emissions, List.filterMap_append]
      split <;> rfl
    | _ => rfl

theorem traced_done (hf : f.Ok layer s.layer) (hdone : f.todo = []) :
    f.Traced layer s.layer f.plan := by
  obtain ⟨done, hd⟩ := hf.traced
  have hplan := hd.plan
  rw [hdone, List.append_nil] at hplan
  exact hplan ▸ hd

end

/-- A span is exported after its future is gone, with the fields of the request,
what was recorded on it, and among that the outcome: the status once if there
was a response, the latency once if the inner future was ready. -/
theorem request_exported {layer : OtlpLayer} {blake3 : Bytes → Vector UInt8 32} {s : State}
    {f : CfRequestIdFuture} {data : SpanData} (h : (serving layer blake3).Reachable s)
    (hf : f ∈ s.futures) (hdata : data ∈ s.layer.exports f.span) :
    f.progress = .dropped ∧
      data.attributes = (f.given ++ f.recorded.map (·.2)).filterMap Layer.kept ∧
      f.own = outcomeValues f.outcome := by
  have hok := (reachable_inv h).futures f hf
  have hdropped : f.progress = .dropped := by
    by_contra hp
    obtain ⟨span, fields, hspan, -, -, -, hnone⟩ := hok.stored.span
    have hopen := hok.isOpen hp
    rw [Layer.State.isOpen, hspan] at hopen
    rw [hnone (by simpa using hopen)] at hdata
    cases hdata
  refine ⟨hdropped, (hok.stored.exported data hdata).1, ?_⟩
  have htodo : f.todo = [] := by simp [CfRequestIdFuture.todo, hdropped]
  rw [(traced_done hok htodo).own, plan_recorded]

theorem request_exported_served : ∃ s f data,
    (serving Layer.exportAll Tower.someHash).run served { layer := { entered := [[]] } } = some s ∧
    s.futures = [f] ∧ data ∈ s.layer.exports f.span ∧ f.progress = .dropped ∧
      data.attributes = (f.given ++ f.recorded.map (·.2)).filterMap Layer.kept ∧
      f.own = outcomeValues f.outcome := by
  obtain ⟨s, f, hs, hf, -, -, hlength⟩ := served_runs
  have hrun := Machine.run_of_guard hs
  obtain ⟨data, hdata⟩ := List.length_eq_one_iff.mp hlength
  have hmem : data ∈ s.layer.exports f.span := by simp [hdata]
  exact ⟨s, f, data, hrun, hf, hmem, request_exported (Machine.Reachable.run (.init ⟨1, rfl⟩) hrun)
    (by simp [hf]) hmem⟩

-- ---------------------------------------------------------------------------
-- All requests
-- ---------------------------------------------------------------------------

def measures (metric : String) (m : Sent) : Bool :=
  (untimed m).any fun log => log.2.attributes.contains ⟨"metric", .string metric⟩

def State.measured (s : State) (metric : String) : Nat :=
  (s.futures.flatMap (·.logged)).countP (measures metric)

def CfRequestIdFuture.status? (f : CfRequestIdFuture) : Option UInt16 :=
  f.outcome.bind fun (output, _) =>
    match output with
    | .response status => some status
    | _ => none

def CfRequestIdFuture.answered (layer : OtlpLayer) (l : Layer.State) (p : UInt16 → Bool)
    (f : CfRequestIdFuture) : Bool :=
  layer.exportLogs && (contextOf l f.context).2.2 && f.status?.any p

/-- Each metric of a request was logged once if it was answered, and the error
if its status says so. -/
structure CfRequestIdFuture.Counted (layer : OtlpLayer) (l : Layer.State) (f : CfRequestIdFuture) :
    Prop where
  duration : f.logged.countP (measures requestDuration) = (f.answered layer l fun _ => true).toNat
  count : f.logged.countP (measures requestCount) = (f.answered layer l fun _ => true).toNat
  error : f.logged.countP (measures errorCount) = (f.answered layer l (400 ≤ ·)).toNat

def State.answered (layer : OtlpLayer) (s : State) (p : UInt16 → Bool) : Nat :=
  s.futures.countP fun f => f.answered layer s.layer p

section
variable {layer : OtlpLayer} {blake3 : Bytes → Vector UInt8 32} {s t : State}
  {f : CfRequestIdFuture}

theorem countP_flatMap_of {α β : Type} {g : α → List β} {p : β → Bool} {q : α → Bool} {l : List α}
    (h : ∀ x ∈ l, (g x).countP p = (q x).toNat) : (l.flatMap g).countP p = l.countP q := by
  induction l with
  | nil => rfl
  | cons x l ih =>
    rw [List.flatMap_cons, List.countP_append, h x List.mem_cons_self,
      ih fun y hy => h y (List.mem_cons_of_mem _ hy), List.countP_cons]
    cases q x <;> simp [Nat.add_comm]

def Emission.measures (metric : String) (e : Emission) : Bool :=
  e.logged.any fun fields =>
    (FieldCollector.ofFields fields).attrs.contains ⟨"metric", .string metric⟩

theorem measures_metricEvent : (metricEvent name type value method route status).measures metric =
    decide (metric = name) := by
  simp [Emission.measures, metricEvent, Emission.logged, Layer.ofFields_attrs, Layer.kept,
    Layer.isMessage, FieldValue.exported]

theorem measures_record : (Emission.record field value).measures metric = false := rfl

theorem measured_eq (hf : f.Ok layer s.layer) (hdone : f.todo = []) (metric : String) :
    f.logged.countP (measures metric) =
      if layer.exportLogs ∧ (contextOf s.layer f.context).2.2 then
        f.plan.countP (Emission.measures metric) else 0 := by
  have hmap : f.logged.countP (measures metric) = (f.logged.map untimed).countP fun log =>
      log.any fun log => log.2.attributes.contains ⟨"metric", .string metric⟩ := by
    rw [List.countP_map]
    rfl
  rw [hmap, (traced_done hf hdone).logged, logsOf]
  split
  · rw [List.countP_map, List.countP_filterMap]
    refine List.countP_congr fun e _ => ?_
    cases e <;> rfl
  · rfl

theorem plan_logged (h : f.status?.isSome) : f.plan.filterMap Emission.logged ≠ [] := by
  unfold CfRequestIdFuture.status? at h
  unfold CfRequestIdFuture.plan
  cases ho : f.outcome with
  | none => simp [ho] at h
  | some outcome =>
    obtain ⟨output, latencyMs⟩ := outcome
    cases output with
    | response status => exact nofun
    | _ => simp [ho] at h

theorem planned_eq (f : CfRequestIdFuture) :
    f.plan.countP (Emission.measures requestDuration) = f.status?.isSome.toNat ∧
      f.plan.countP (Emission.measures requestCount) = f.status?.isSome.toNat ∧
      f.plan.countP (Emission.measures errorCount) = (f.status?.any (400 ≤ ·)).toNat := by
  unfold CfRequestIdFuture.plan CfRequestIdFuture.status?
  cases f.outcome with
  | none => exact ⟨rfl, rfl, rfl⟩
  | some outcome =>
    obtain ⟨output, latencyMs⟩ := outcome
    cases output with
    | response status =>
      by_cases h : 400 ≤ status <;>
        simp [emissions, h, measures_metricEvent, measures_record, requestDuration, requestCount,
          errorCount]
    | _ => exact ⟨rfl, rfl, rfl⟩

theorem counted (hf : f.Ok layer s.layer) (hdone : f.todo = []) : f.Counted layer s.layer := by
  have hcount (metric : String) (p : UInt16 → Bool)
      (hplan : f.plan.countP (Emission.measures metric) = (f.status?.any p).toNat) :
      f.logged.countP (measures metric) = (f.answered layer s.layer p).toNat := by
    rw [measured_eq hf hdone, hplan, CfRequestIdFuture.answered]
    cases layer.exportLogs <;> cases (contextOf s.layer f.context).2.2 <;> simp
  have hstatus : f.status?.isSome = f.status?.any fun _ => true := by cases f.status? <;> rfl
  obtain ⟨hduration, hrequests, herrors⟩ := planned_eq f
  rw [hstatus] at hduration hrequests
  exact ⟨hcount _ _ hduration, hcount _ _ hrequests, hcount _ _ herrors⟩

end

/-- Whenever no future is in the middle of its events, all that was sent is from
the futures or from the rest of the program, and each future has measured its
request once if it was answered and logged, and once as an error if its status
says so; no other request was measured. -/
theorem requests_counted {layer : OtlpLayer} {blake3 : Bytes → Vector UInt8 32} {s : State}
    (h : (serving layer blake3).Reachable s) (hquiet : ∀ f ∈ s.futures, f.todo = []) :
    s.layer.sent.Perm (s.futures.flatMap (·.logged) ++ s.foreign) ∧
      (∀ f ∈ s.futures, f.Counted layer s.layer) ∧
      s.measured requestDuration = s.answered layer (fun _ => true) ∧
      s.measured requestCount = s.answered layer (fun _ => true) ∧
      s.measured errorCount = s.answered layer (400 ≤ ·) := by
  have hi := reachable_inv h
  have hcounted (f : CfRequestIdFuture) (hf : f ∈ s.futures) : f.Counted layer s.layer :=
    counted (hi.futures f hf) (hquiet f hf)
  exact ⟨hi.sent, hcounted, countP_flatMap_of fun f hf => (hcounted f hf).duration,
    countP_flatMap_of fun f hf => (hcounted f hf).count,
    countP_flatMap_of fun f hf => (hcounted f hf).error⟩

theorem requests_counted_served : ∃ s,
    (serving Layer.exportAll Tower.someHash).run served { layer := { entered := [[]] } } = some s ∧
    s.futures.length = 1 ∧ s.layer.sent.Perm (s.futures.flatMap (·.logged) ++ s.foreign) ∧
      (∀ f ∈ s.futures, f.Counted Layer.exportAll s.layer) ∧
      s.measured requestDuration = s.answered Layer.exportAll (fun _ => true) ∧
      s.measured requestCount = s.answered Layer.exportAll (fun _ => true) ∧
      s.measured errorCount = s.answered Layer.exportAll (400 ≤ ·) := by
  obtain ⟨s, f, hs, hf, htodo, -⟩ := served_runs
  have hrun := Machine.run_of_guard hs
  exact ⟨s, hrun, by simp [hf], requests_counted (Machine.Reachable.run (.init ⟨1, rfl⟩) hrun)
    (by simp [hf, htodo])⟩

-- ---------------------------------------------------------------------------
-- Logs and spans
-- ---------------------------------------------------------------------------

section
variable {layer : OtlpLayer} {blake3 : Bytes → Vector UInt8 32} {s t : State}
  {f g : CfRequestIdFuture}

theorem mem_act {who : Option Nat} {a : Layer.Action} (h : act layer who a s = some t)
    (hg : g ∈ t.futures) : ∃ f ∈ s.futures, g.span = f.span ∧ g.outcome = f.outcome ∧
      g.context = f.context := by
  obtain ⟨u, -, rfl⟩ := Option.map_eq_some_iff.mp h
  obtain ⟨i, hi⟩ := List.mem_iff_getElem?.mp hg
  rw [List.getElem?_mapIdx] at hi
  obtain ⟨f, hf, rfl⟩ := Option.map_eq_some_iff.mp hi
  exact ⟨f, List.mem_of_getElem? hf, rfl, rfl, rfl⟩

theorem mem_setProgress (hg : g ∈ (s.setProgress i progress).futures) : ∃ f ∈ s.futures,
    g.span = f.span ∧ g.outcome = f.outcome ∧ g.context = f.context := by
  obtain ⟨j, hj⟩ := List.mem_iff_getElem?.mp hg
  rw [State.setProgress, List.getElem?_modify] at hj
  obtain ⟨f, hf, rfl⟩ := Option.map_eq_some_iff.mp hj
  refine ⟨f, List.mem_of_getElem? hf, ?_⟩
  by_cases hij : i = j <;> simp [hij]

theorem context_own (h : (serving layer blake3).ReachableBy (fun a s => inSpan a s) s) :
    ∀ f ∈ s.futures, f.outcome.isSome → f.context = some f.span := by
  refine h.invariant (I := fun s => ∀ f ∈ s.futures, f.outcome.isSome → f.context = some f.span)
    (fun s hs => ?_) fun a s t _ hi hp ht => ?_
  · obtain ⟨threads, rfl⟩ := hs
    exact nofun
  · have hsame {s t : State} (hi : ∀ f ∈ s.futures, f.outcome.isSome → f.context = some f.span)
        (hst : ∀ g ∈ t.futures, ∃ f ∈ s.futures, g.span = f.span ∧ g.outcome = f.outcome ∧
          g.context = f.context) : ∀ g ∈ t.futures, g.outcome.isSome → g.context = some g.span := by
      intro g hg
      obtain ⟨f, hf, hspan, houtcome, hcontext⟩ := hst g hg
      rw [hspan, houtcome, hcontext]
      exact hi f hf
    cases step_stepped ht with
    | call h =>
      intro g hg
      obtain hg | hg := List.mem_append.mp hg
      · exact hsame hi (fun _ => mem_act h) g hg
      · obtain rfl := List.mem_singleton.mp hg
        exact nofun
    | poll _ _ _ h | emit _ _ h | exit _ _ h =>
      exact hsame (hsame hi fun _ => mem_act h) fun _ => mem_setProgress
    | @returned thread stack output latencyMs i f hf hprogress _ he =>
      intro g hg hsome
      obtain hg | rfl := List.mem_or_eq_of_mem_set hg
      · exact hi g hg hsome
      · have hready : output ≠ .pending := by
          intro heq
          simp [heq] at hsome
        have hcurrent : Layer.State.current stack = some f.span := by
          simpa [inSpan, hf, hprogress, he] using hp
        exact (if_pos hready).trans hcurrent
    | drop => exact hsame hi fun _ => mem_setProgress
    | other _ h => exact hsame hi fun _ => mem_act h

theorem contextOf_identity {birth : Layer.Birth} {i : Layer.Identity} {id : Nat}
    (hb : s.layer.births[id]? = some birth) (hi : birth.identity = some i) :
    contextOf s.layer (some id) = (i.traceId, i.spanId, i.sampled) := by
  simp [contextOf, hb, hi]

theorem mem_logsOf {m : Sent} {messages : List Sent}
    (h : messages.map untimed = logsOf layer s.layer span events) (hm : m ∈ messages) :
    ∃ log, m.message = .logs log ∧ m.span = span ∧
      (log.traceId, log.spanId) = ((contextOf s.layer span).1, (contextOf s.layer span).2.1) := by
  have hmem : untimed m ∈ logsOf layer s.layer span events := h ▸ List.mem_map_of_mem hm
  unfold logsOf at hmem
  split at hmem
  · obtain ⟨fields, -, heq⟩ := List.mem_map.mp hmem
    cases hmessage : m.message with
    | traces => simp [untimed, hmessage] at heq
    | logs log =>
      simp only [untimed, hmessage, logOf, Option.some.injEq, Prod.mk.injEq, LogData.mk.injEq]
        at heq
      obtain ⟨hspan, -, -, -, -, -, htrace, hid⟩ := heq
      exact ⟨log, rfl, hspan.symm, by rw [htrace, hid]⟩
  · cases hmem

end

/-- The metric events of a request and its span have the same IDs. Where both
signals are exported, the span of an answered request is exported on closing if
and only if the request was measured. -/
theorem request_correlated {layer : OtlpLayer} {blake3 : Bytes → Vector UInt8 32} {s : State}
    {f : CfRequestIdFuture} (h : (serving layer blake3).ReachableBy (fun a s => inSpan a s) s)
    (hf : f ∈ s.futures) :
    (∀ m ∈ f.logged, ∀ data ∈ s.layer.exports f.span, ∃ log, m.message = .logs log ∧
      m.span = some f.span ∧ log.traceId = data.traceId ∧ log.spanId = data.spanId) ∧
    (∀ span, s.layer.spans[f.span]? = some span → span.closed → layer.exportTraces →
      layer.exportLogs → f.status?.isSome → (s.layer.exports f.span ≠ [] ↔ f.logged ≠ [])) := by
  have hr := h.reachable
  have hok := (reachable_inv hr).futures f hf
  have hforest := Layer.reachable_forest (refines_layer.reachable hr)
  obtain ⟨span, fields, hspan, hfields, -⟩ := hok.stored.span
  have hbirth : s.layer.births[f.span]? = some span.birth := by
    rw [Layer.State.births_getElem?, hspan]
    rfl
  have hidentity : span.birth.identity = some fields.identity := by simp [Layer.Span.birth, hfields]
  have hexports := hforest.exported f.span span.birth fields.identity span.closed hbirth hidentity
    (by rw [Layer.State.closings, List.getElem?_map, hspan]; rfl)
  have hcontext := contextOf_identity hbirth hidentity
  obtain ⟨done, hd⟩ := hok.traced
  constructor
  · intro m hm data hdata
    have hne : done.filterMap Emission.logged ≠ [] := by
      intro hnil
      have := hd.logged
      simp only [hnil, logsOf, List.map_nil, ite_self, List.map_eq_nil_iff] at this
      simp [this] at hm
    have hsome : f.outcome.isSome := by
      by_contra hnone
      have hplan := hd.plan
      simp only [Option.not_isSome_iff_eq_none] at hnone
      simp only [CfRequestIdFuture.plan, hnone, Option.elim_none] at hplan
      have := (List.append_eq_nil_iff.mp hplan.symm).1
      simp [this] at hne
    have hlogged := hd.logged
    rw [context_own h f hf hsome] at hlogged
    obtain ⟨log, hmessage, hmspan, hids⟩ := mem_logsOf hlogged hm
    refine ⟨log, hmessage, hmspan, ?_⟩
    have hdids : Layer.SpanData.ids data ∈ (s.layer.exports f.span).map Layer.SpanData.ids :=
      List.mem_map_of_mem hdata
    rw [hexports] at hdids
    split at hdids
    · have hdids := List.mem_singleton.mp hdids
      simp only [hcontext, Prod.mk.injEq] at hids
      simp only [Layer.SpanData.ids, Layer.Identity.ids, Prod.mk.injEq] at hdids
      exact ⟨hids.1.trans hdids.1.symm, hids.2.trans hdids.2.1.symm⟩
    · cases hdids
  · intro span' hspan' hclosed htraces hlogs hstatus
    obtain rfl := Option.some.inj (hspan.symm.trans hspan')
    have hdropped : f.progress = .dropped := by
      by_contra hp
      have hopen := hok.isOpen hp
      simp [Layer.State.isOpen, hspan, hclosed] at hopen
    have hlogged := (traced_done hok (by simp [CfRequestIdFuture.todo, hdropped])).logged
    have hsome : f.outcome.isSome := by
      by_contra hnone
      simp only [Option.not_isSome_iff_eq_none] at hnone
      simp [CfRequestIdFuture.status?, hnone] at hstatus
    rw [context_own h f hf hsome, logsOf, hcontext] at hlogged
    have hne := plan_logged hstatus
    refine not_congr ?_
    rw [← List.map_eq_nil_iff (f := Layer.SpanData.ids), hexports,
      ← List.map_eq_nil_iff (f := untimed), hlogged]
    cases hsampled : fields.sampled <;>
      simp [Layer.SpanFields.identity, hsampled, hclosed, htraces, hlogs, hne]

theorem request_correlated_served : ∃ s f,
    ((serving Layer.exportAll Tower.someHash).guard fun a s => inSpan a s).run served
      { layer := { entered := [[]] } } = some s ∧
    s.futures = [f] ∧ f.logged.length = 3 ∧
    (∀ m ∈ f.logged, ∀ data ∈ s.layer.exports f.span, ∃ log, m.message = .logs log ∧
      m.span = some f.span ∧ log.traceId = data.traceId ∧ log.spanId = data.spanId) ∧
    (∀ span, s.layer.spans[f.span]? = some span → span.closed → Layer.exportAll.exportTraces →
      Layer.exportAll.exportLogs → f.status?.isSome →
      (s.layer.exports f.span ≠ [] ↔ f.logged ≠ [])) := by
  obtain ⟨s, f, hs, hf, -, hlogged, -⟩ := served_runs
  exact ⟨s, f, hs, hf, hlogged,
    request_correlated (Machine.ReachableBy.of_run ⟨1, rfl⟩ hs) (by simp [hf])⟩

end Rolly.Requests
