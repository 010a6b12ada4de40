import Rolly.OtlpLayerForest
import Rolly.TraceIdLaws

/-!
# Sampling and trace IDs

A root samples by its trace ID. A span below it takes the root's decision,
whatever trace ID its own fields give it, so spans of one trace agree only
where those trace IDs would have been decided alike.
-/

namespace Rolly.Layer

/-- The trace ID that a span's fields give it: zeros where they give none. -/
def recordedTraceId (given : List (String × FieldValue)) : TraceId :=
  (ownTraceId given).getD zeroTraceId

/-- `should_sample` says of every span's trace ID what it says of its root's. -/
def DecidesAsRoot (rate : F64) (s : State) : Prop :=
  ∀ (id : Nat) span root top, s.spans[id]? = some span → IsTop s.spans id root top →
    shouldSample (recordedTraceId span.given) rate = shouldSample (recordedTraceId top.given) rate

/-- Spans in the same trace have the same decision, here and there. -/
def SampledAlike (s t : State) : Prop :=
  ∀ span ∈ s.spans, ∀ other ∈ t.spans, ∀ f g, span.fields = some f → other.fields = some g →
    f.traceId = g.traceId → f.sampled = g.sampled

theorem Below.top_unique {spans : List Span} {id : Nat} (h : Below spans root id)
    (hr : spans[root]? = some top) (hp : top.parent = none) (h' : Below spans root' id)
    (hr' : spans[root']? = some top') (hp' : top'.parent = none) : root = root' := by
  induction h with
  | self =>
    cases h' with
    | self => rfl
    | child hspan hparent _ =>
      obtain rfl := Option.some.inj (hspan.symm.trans hr)
      simp [hp] at hparent
  | child hspan hparent _ ih =>
    cases h' with
    | self =>
      obtain rfl := Option.some.inj (hspan.symm.trans hr')
      simp [hp'] at hparent
    | child hspan' hparent' hbelow' =>
      obtain rfl := Option.some.inj (hspan.symm.trans hspan')
      obtain rfl := Option.some.inj (hparent.symm.trans hparent')
      exact ih hbelow'

theorem IsTop.unique {id : Nat} (h : IsTop spans id root top) (h' : IsTop spans id root' top') :
    top = top' := by
  obtain rfl := h.below.top_unique h.span h.parent h'.below h'.span h'.parent
  exact Option.some.inj (h.span.symm.trans h'.span)

section
variable {s : State} {layer : OtlpLayer}

theorem reachable_traceId (h : (tracing layer).Reachable s) (hm : span ∈ s.spans)
    (hf : span.fields = some f) : f.traceId = recordedTraceId span.given := by
  have hread := (reachable_inv h).read (List.mem_map_of_mem hm)
  simpa [Span.origin, hf, recordedTraceId] using hread

theorem reachable_sampled (h : (tracing layer).Reachable s) {id : Nat}
    (hspan : s.spans[id]? = some span) (hf : span.fields = some f) :
    ∃ root top, IsTop s.spans id root top ∧
      f.sampled = shouldSample (recordedTraceId top.given) layer.samplingRate := by
  obtain ⟨f', root, top, g, hf', htop, hg, hsampled, hdecision⟩ :=
    (reachable_forest h).top id hspan
  obtain rfl := Option.some.inj (hf.symm.trans hf')
  refine ⟨root, top, htop, ?_⟩
  rw [hsampled, hdecision, reachable_traceId h (List.mem_of_getElem? htop.span) hg]

theorem DecidesAsRoot.sampled (hd : DecidesAsRoot layer.samplingRate s)
    (h : (tracing layer).Reachable s) (hm : span ∈ s.spans) (hf : span.fields = some f) :
    f.sampled = shouldSample f.traceId layer.samplingRate := by
  obtain ⟨id, hspan⟩ := List.getElem?_of_mem hm
  obtain ⟨root, top, htop, hsampled⟩ := reachable_sampled h hspan hf
  rw [hsampled, reachable_traceId h hm hf, hd id span root top hspan htop]

end

/-- The state after one root with the given trace ID was created. -/
def oneRoot (layer : OtlpLayer) (traceId : TraceId) : State where
  spans := [layer.created [] none "request" [("trace_id", .str (hexEncode traceId.toList))]
    zeroSpanId 0]
  entered := [[]]

theorem oneRoot_reachable (layer : OtlpLayer) (traceId : TraceId) :
    (tracing layer).Reachable (oneRoot layer traceId) := by
  have hstart : (tracing layer).Reachable { entered := [[]] } := .init ⟨1, rfl⟩
  exact hstart.step (a := .newSpan 0 .root "request"
    [("trace_id", .str (hexEncode traceId.toList))] zeroSpanId 0) rfl

theorem oneRoot_span (layer : OtlpLayer) (traceId : TraceId) :
    ∃ span ∈ (oneRoot layer traceId).spans, ∃ f, span.fields = some f ∧ f.traceId = traceId ∧
      f.sampled = shouldSample traceId layer.samplingRate := by
  have htrace : recordedTraceId [("trace_id", .str (hexEncode traceId.toList))] = traceId := by
    simp [recordedTraceId, ownTraceId, readTraceId, hexToBytes16_hexEncode]
  refine ⟨_, List.mem_singleton_self _, _, rfl, ?_, ?_⟩ <;>
    simp only [OtlpLayer.onNewSpan, ofFields_traceId] <;>
    rw [← recordedTraceId, htrace]
  rfl

theorem oneRoot_decidesAsRoot (layer : OtlpLayer) (traceId : TraceId) (rate : F64) :
    DecidesAsRoot rate (oneRoot layer traceId) := by
  intro id span root top hspan htop
  have hm := List.mem_of_getElem? hspan
  have hm' := List.mem_of_getElem? htop.span
  rw [oneRoot, List.mem_singleton] at hm hm'
  rw [hm, hm']

/-- The spans that agree with every other span of their trace, in whatever
process that meets the condition, are those of the states that meet it. -/
theorem sampledAlike_iff (h : (tracing layer).Reachable s) :
    (∀ layer' t, layer'.samplingRate = layer.samplingRate → (tracing layer').Reachable t →
        DecidesAsRoot layer'.samplingRate t → SampledAlike s t) ↔
      DecidesAsRoot layer.samplingRate s := by
  constructor
  · intro halike id span root top hspan htop
    have hm := List.mem_of_getElem? hspan
    obtain ⟨f, root', top', g, hf, htop', hg, hsampled, hdecision⟩ :=
      (reachable_forest h).top id hspan
    obtain rfl := htop.unique htop'
    -- a root in another process with the trace ID of the span
    obtain ⟨other, hom, g', hg', htrace, hroot⟩ := oneRoot_span layer f.traceId
    have hagree := halike layer _ rfl (oneRoot_reachable layer f.traceId)
      (oneRoot_decidesAsRoot layer f.traceId layer.samplingRate) span hm other hom f g' hf hg'
      htrace.symm
    rw [← reachable_traceId h hm hf, ← hroot, ← hagree, hsampled, hdecision,
      reachable_traceId h (List.mem_of_getElem? htop.span) hg]
  · intro hd layer' t hrate ht hd' span hm other hom f g hf hg htrace
    rw [hd.sampled h hm hf, hd'.sampled ht hom hg, htrace, hrate]

theorem sampledAlike_ownTraceId :
    (∀ layer' t, layer'.samplingRate = exportHalf.samplingRate → (tracing layer').Reachable t →
        DecidesAsRoot layer'.samplingRate t → SampledAlike (oneRoot exportHalf zeroTraceId) t) ↔
      DecidesAsRoot exportHalf.samplingRate (oneRoot exportHalf zeroTraceId) :=
  sampledAlike_iff (oneRoot_reachable exportHalf zeroTraceId)

/-- A span with a trace ID of its own under a root that is sampled out, and
another process in which that trace has its root. -/
theorem sampled_not_alike : ¬∀ layer layer' s t, layer.samplingRate = layer'.samplingRate →
    (tracing layer).Reachable s → (tracing layer').Reachable t → SampledAlike s t := by
  intro h
  obtain ⟨s, hs⟩ := Option.isSome_iff_exists.mp (show ((tracing exportHalf).run
    [.newSpan 0 .root "job" [("trace_id", .str "ffffffffffffffffffffffffffffffff")] zeroSpanId 1,
      .newSpan 0 (.explicit 0) "request" tracedFields zeroSpanId 2] { entered := [[]] }).isSome
    by decide +kernel)
  obtain ⟨t, ht⟩ := Option.isSome_iff_exists.mp (show ((tracing exportHalf).run
    [.newSpan 0 .root "request" tracedFields zeroSpanId 1] { entered := [[]] }).isSome
    by decide +kernel)
  have halike := h exportHalf exportHalf s t rfl (Machine.Reachable.run (.init ⟨1, rfl⟩) hs)
    (Machine.Reachable.run (.init ⟨1, rfl⟩) ht)
  have hspan : (s.spans[1]?.bind (·.fields)).map (fun f => (some f.traceId, f.sampled)) =
      some (hexToBytes16 "0102030405060708090a0b0c0d0e0f10", false) :=
    Machine.of_run hs (f := fun s => (s.spans[1]?.bind (·.fields)).map fun f =>
      (some f.traceId, f.sampled)) (by decide +kernel)
  have hother : (t.spans[0]?.bind (·.fields)).map (fun f => (some f.traceId, f.sampled)) =
      some (hexToBytes16 "0102030405060708090a0b0c0d0e0f10", true) :=
    Machine.of_run ht (f := fun s => (s.spans[0]?.bind (·.fields)).map fun f =>
      (some f.traceId, f.sampled)) (by decide +kernel)
  obtain ⟨f, hf, hfs⟩ := Option.map_eq_some_iff.mp hspan
  obtain ⟨g, hg, hgs⟩ := Option.map_eq_some_iff.mp hother
  obtain ⟨span, hspan, hf⟩ := Option.bind_eq_some_iff.mp hf
  obtain ⟨other, hother, hg⟩ := Option.bind_eq_some_iff.mp hg
  simp only [Prod.mk.injEq] at hfs hgs
  have hagree := halike span (List.mem_of_getElem? hspan) other (List.mem_of_getElem? hother) f g hf
    hg (Option.some.inj (hfs.1.trans hgs.1.symm))
  rw [hfs.2, hgs.2] at hagree
  cases hagree

end Rolly.Layer
