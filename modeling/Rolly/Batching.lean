import Rolly.ExporterLaws
import Rolly.LogRoundTrip
import Rolly.MetricsRoundTrip
import Rolly.TraceRoundTrip

/-!
# What a batch means

A batch goes out as its payloads one after the other. Each payload is a whole
number of fields of the request, and a repeated field appends, so the body
reads as the requests do, one after the other.
-/

namespace Rolly

open Proto3 (Bytes)
open Proto
open Exporter (Signal)

-- ---------------------------------------------------------------------------
-- Concatenated requests
-- ---------------------------------------------------------------------------

section
variable {mergeItem : α → Proto3.Field → Option α} {init : α}

/-- Resources that are already there stay in front and change nothing. -/
theorem mergeRequest_append (front : List (Otlp.ResourceItems α)) (r : Otlp.Request α)
    (f : Proto3.Field) :
    Otlp.mergeRequest mergeItem init ⟨front ++ r.resources⟩ f =
      (Otlp.mergeRequest mergeItem init r f).map fun r => ⟨front ++ r.resources⟩ := by
  unfold Otlp.mergeRequest
  split
  · rename_i b _ _
    cases Proto3.decodeMessage (Otlp.mergeResourceItems mergeItem init) {} b <;> simp
  · unfold Otlp.skipUnknown
    split <;> rfl

theorem foldlM_mergeRequest (front : List (Otlp.ResourceItems α)) (fs : List Proto3.Field)
    (r : Otlp.Request α) :
    fs.foldlM (Otlp.mergeRequest mergeItem init) ⟨front ++ r.resources⟩ =
      (fs.foldlM (Otlp.mergeRequest mergeItem init) r).map fun r => ⟨front ++ r.resources⟩ := by
  induction fs generalizing r with
  | nil => rfl
  | cons f fs ih =>
    rw [List.foldlM_cons, List.foldlM_cons, mergeRequest_append]
    cases Otlp.mergeRequest mergeItem init r f with
    | none => rfl
    | some r' => exact ih r'

theorem decodeRequest_append {r q : Otlp.Request α}
    (ha : Otlp.decodeRequest mergeItem init a = some r)
    (hb : Otlp.decodeRequest mergeItem init b = some q) :
    Otlp.decodeRequest mergeItem init (a ++ b) = some ⟨r.resources ++ q.resources⟩ := by
  obtain ⟨fs, hf, hq⟩ := Option.bind_eq_some_iff.mp hb
  have hr : fs.foldlM (Otlp.mergeRequest mergeItem init) ⟨r.resources ++ []⟩ = _ :=
    foldlM_mergeRequest r.resources fs {}
  rw [List.append_nil, hq] at hr
  rw [Otlp.decodeRequest, Proto3.decodeMessage_append ha, Proto3.decodeMessage, hf]
  exact hr

theorem decodeRequest_flatten (payloads : List Bytes)
    (h : ∀ payload ∈ payloads, ∃ r, Otlp.decodeRequest mergeItem init payload = some r) :
    ∃ requests, payloads.mapM (Otlp.decodeRequest mergeItem init) = some requests ∧
      Otlp.decodeRequest mergeItem init payloads.flatten =
        some ⟨requests.flatMap Otlp.Request.resources⟩ := by
  induction payloads with
  | nil => exact ⟨[], rfl, by simp [Otlp.decodeRequest, Proto3.decodeMessage]⟩
  | cons payload payloads ih =>
    obtain ⟨r, hr⟩ := h payload (by simp)
    obtain ⟨requests, hm, hf⟩ := ih fun p hp => h p (List.mem_cons_of_mem _ hp)
    refine ⟨r :: requests, by simp [List.mapM_cons, hr, hm], ?_⟩
    rw [List.flatten_cons, List.flatMap_cons]
    exact decodeRequest_append hr hf

end

-- ---------------------------------------------------------------------------
-- Payloads of a signal
-- ---------------------------------------------------------------------------

def Otlp.Item : Signal → Type
  | .traces => Otlp.Span
  | .logs => Otlp.LogRecord
  | .metrics => Otlp.Metric

def Otlp.decodeExportRequest : (signal : Signal) → Bytes → Option (Otlp.Request (Otlp.Item signal))
  | .traces => Otlp.decodeExportTraceRequest
  | .logs => Otlp.decodeExportLogsRequest
  | .metrics => Otlp.decodeExportMetricsRequest

/-- `payload` was returned by the encoder of `signal`, which has no other
output; a panic returns nothing. -/
inductive Encoded : Signal → Bytes → Prop
  | traces : encodeExportTraceRequest resourceAttrs scopeName scopeVersion spans = some payload →
      Encoded .traces payload
  | logs : encodeExportLogsRequest resourceAttrs scopeName scopeVersion logs = some payload →
      Encoded .logs payload
  | metrics : encodeExportMetricsRequest resourceAttrs scopeName scopeVersion snapshots
        startTimeUnixNano timeUnixNano = some payload →
      Encoded .metrics payload

section
variable {nodes : α → List Node} {mergeItem : β → Proto3.Field → Option β} {init : β} {v : α → β}

theorem decodeRequest_of_encodeNodes (items : List α)
    (hi : ∀ x, Reads mergeItem (nodes x) init (v x))
    (h : encodeNodes (requestNodes attrs name version (items.map nodes)) [] = some payload)
    (hl : payload.length ≤ vecCapacity) :
    ∃ r, Otlp.decodeRequest mergeItem init payload = some r := by
  have hs := short_of_encodeNodes _ h (by simp [vecCapacity] at hl ⊢; omega)
  rw [encodeNodes_eq _ hs] at h
  obtain rfl := Option.some.inj h
  exact ⟨_, decodeRequest_nodesBytes attrs name version items (fun x _ => hi x) hs⟩

end

theorem Encoded.decode (h : Encoded signal payload) (hl : payload.length ≤ vecCapacity) :
    ∃ r, Otlp.decodeExportRequest signal payload = some r := by
  cases h with
  | traces h =>
    rw [encodeExportTraceRequest_nodes] at h
    exact decodeRequest_of_encodeNodes _ reads_span h hl
  | logs h =>
    rw [encodeExportLogsRequest_nodes] at h
    exact decodeRequest_of_encodeNodes _ reads_logRecord h hl
  | metrics h =>
    rw [encodeExportMetricsRequest_nodes] at h
    exact decodeRequest_of_encodeNodes _ (reads_metric_erased _ _) h hl

theorem decodeExportRequest_flatten (signal : Signal) (payloads : List Bytes)
    (h : ∀ payload ∈ payloads, ∃ r, Otlp.decodeExportRequest signal payload = some r) :
    ∃ requests, payloads.mapM (Otlp.decodeExportRequest signal) = some requests ∧
      Otlp.decodeExportRequest signal payloads.flatten =
        some ⟨requests.flatMap Otlp.Request.resources⟩ := by
  cases signal <;> exact decodeRequest_flatten payloads h

/-- The body a flush sends, from whatever state, decodes, and to the resources
of the payloads in order. -/
theorem flushBatch_decodes (signal : Signal) (url : String) (s : Exporter.State)
    (h : ∀ payload ∈ s.batch signal, Encoded signal payload ∧ payload.length ≤ vecCapacity) :
    ∃ requests body,
      (s.batch signal).mapM (Otlp.decodeExportRequest signal) = some requests ∧
      Otlp.decodeExportRequest signal body =
        some ⟨requests.flatMap Otlp.Request.resources⟩ ∧
      Exporter.flushBatch signal (some url) s =
        if s.batch signal = [] then s
        else { s.setBatch signal [] with
          pool := s.pool.spawn { url, data := body, signal, items := s.batch signal } } := by
  obtain ⟨requests, hm, hd⟩ := decodeExportRequest_flatten signal (s.batch signal)
    fun payload hp => (h payload hp).1.decode (h payload hp).2
  refine ⟨requests, _, hm, hd, ?_⟩
  obtain ⟨hb, hf⟩ | ⟨-, hu, -⟩ | ⟨u, hb, hu, hf⟩ := Exporter.flushBatch_cases signal (some url) s
  · rw [if_pos hb, hf]
  · cases hu
  · cases hu
    rw [if_neg hb, hf]

/-- An empty request between two that hold a scope and nothing else. -/
theorem flushBatch_decodes_empty :
    let request := [10, 7, 18, 5, 10, 3, 10, 1, 114]
    let s : Exporter.State := { pool := { permits := 4 }, traceBatch := [request, [], request] }
    ∃ requests body,
      (s.batch .traces).mapM (Otlp.decodeExportRequest .traces) = some requests ∧
      Otlp.decodeExportRequest .traces body =
        some ⟨requests.flatMap Otlp.Request.resources⟩ ∧
      Exporter.flushBatch .traces (some "http://localhost/v1/traces") s =
        if s.batch .traces = [] then s
        else { s.setBatch .traces [] with
          pool := s.pool.spawn
            ⟨"http://localhost/v1/traces", body, .traces, s.batch .traces⟩ } := by
  intro request s
  have hr : encodeExportTraceRequest [] "r" "" [] = some request := by decide +kernel
  have he : encodeExportTraceRequest [] "" "" [] = some [] := by decide +kernel
  refine flushBatch_decodes .traces _ s fun payload hp => ?_
  have hp : payload ∈ [request, [], request] := hp
  simp only [List.mem_cons, List.not_mem_nil, or_false] at hp
  obtain rfl | rfl | rfl := hp
  · exact ⟨.traces hr, by decide⟩
  · exact ⟨.traces he, by decide⟩
  · exact ⟨.traces hr, by decide⟩

end Rolly
