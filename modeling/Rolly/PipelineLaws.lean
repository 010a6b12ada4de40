import Rolly.ExporterControl
import Rolly.OtlpLayerIntegers
import Rolly.Pipeline

/-!
# Every message is in one place

What the callbacks exported is in flight, dropped, lost in a panic or with the
loop, in the channel, in a batch or in one of the bodies that were sent, each
message once; and the bodies read back as their messages do.
-/

namespace Rolly.Pipeline

open Proto3 (Bytes)
open Exporter (ExporterConfig Call Called Signal Post ExportMessage dataOf sentOf discardedOf
  finishedOf)
open Layer (OtlpLayer Export Sent)

-- ---------------------------------------------------------------------------
-- Payloads
-- ---------------------------------------------------------------------------

/-- A message as a collector reads it. -/
def resources (layer : OtlpLayer) : (signal : Signal) → Export →
    List (Otlp.ResourceItems (Otlp.Item signal))
  | .traces, .traces span => (requestErased layer.resourceAttrs layer.scopeName layer.scopeVersion
      [span.erased]).resources
  | .logs, .logs log => (requestErased layer.resourceAttrs layer.scopeName layer.scopeVersion
      [log.erased]).resources
  | _, _ => []

section
variable {layer : OtlpLayer} {config : ExporterConfig} {s t : State} {signal : Signal}

theorem payload_data (h : payload m = some data) :
    m.data = some data ∧ data.length ≤ Proto.vecCapacity := by
  simpa [payload, Option.filter_eq_some_iff] using h

section
variable {nodes : α → List Proto.Node} {mergeItem : β → Proto3.Field → Option β} {init : β}
  {v : α → β}

theorem decode_encoded (item : α) (hne : Proto.nodesBytes (nodes item) ≠ [])
    (hi : Proto.Reads mergeItem (nodes item) init (v item))
    (h : Proto.encodeNodes (requestNodes attrs name version ([item].map nodes)) [] = some bytes)
    (hl : bytes.length ≤ Proto.vecCapacity) :
    Otlp.decodeRequest mergeItem init bytes =
      some (requestErased attrs name version [v item]) := by
  have hs := Proto.short_of_encodeNodes _ h (by simp [Proto.vecCapacity] at hl ⊢; omega)
  obtain ⟨bytes', hb, hd⟩ := decodeRequest_encodeNodes attrs name version [item]
    (fun y hy => List.mem_singleton.mp hy ▸ hne) (fun y hy => List.mem_singleton.mp hy ▸ hi) hs
  obtain rfl := Option.some.inj (h.symm.trans hb)
  exact hd

end

/-- What a callback encoded reads back as its message. -/
theorem decode_payload (hm : m.data = layer.encode m.message) (h : payload m = some data) :
    Otlp.decodeExportRequest (signalOf m.message) data =
      some ⟨resources layer (signalOf m.message) m.message⟩ := by
  obtain ⟨hdata, hl⟩ := payload_data h
  rw [hm] at hdata
  cases hmsg : m.message with
  | traces span =>
    rw [hmsg, OtlpLayer.encode, encodeExportTraceRequest_nodes] at hdata
    exact decode_encoded span (spanNodes_ne_nil span) (reads_span span) hdata hl
  | logs log =>
    rw [hmsg, OtlpLayer.encode, encodeExportLogsRequest_nodes] at hdata
    exact decode_encoded log (logRecordNodes_ne_nil log) (reads_logRecord log) hdata hl

theorem decode_append {r q : Otlp.Request (Otlp.Item signal)}
    (ha : Otlp.decodeExportRequest signal a = some r)
    (hb : Otlp.decodeExportRequest signal b = some q) :
    Otlp.decodeExportRequest signal (a ++ b) = some ⟨r.resources ++ q.resources⟩ := by
  cases signal <;> exact decodeRequest_append ha hb

theorem decode_nil : Otlp.decodeExportRequest signal [] = some ⟨[]⟩ := by
  cases signal <;>
    simp [Otlp.decodeExportRequest, Otlp.decodeExportTraceRequest, Otlp.decodeExportLogsRequest,
      Otlp.decodeExportMetricsRequest, Otlp.decodeRequest, Proto3.decodeMessage] <;> rfl

theorem decode_payloads (messages : List Sent) (items : List Bytes)
    (hm : ∀ m ∈ messages, m.data = layer.encode m.message ∧ signalOf m.message = signal)
    (h : items.map some = messages.map payload) :
    Otlp.decodeExportRequest signal items.flatten =
      some ⟨messages.flatMap fun m => resources layer signal m.message⟩ := by
  induction messages generalizing items with
  | nil =>
    obtain rfl : items = [] := List.map_eq_nil_iff.mp h
    exact decode_nil
  | cons m messages ih =>
    obtain ⟨data, items, rfl, hd, hrest⟩ := List.map_eq_cons_iff.mp h
    obtain ⟨hdata, rfl⟩ := hm m List.mem_cons_self
    exact decode_append (decode_payload hdata hd.symm)
      (ih items (fun m h => hm m (List.mem_cons_of_mem _ h)) hrest)

-- ---------------------------------------------------------------------------
-- The channel
-- ---------------------------------------------------------------------------

def messageOf (data : Bytes) : Export → ExportMessage
  | .traces _ => .traces data
  | .logs _ => .logs data

theorem sendCall_called {c c' : Exporter.Channel}
    (h : c.call config (sendCall data message) = some c') :
    (c.hasSlot config ∧ c'.accepted = c.accepted ++ [messageOf data message] ∧
      c'.droppedTotal = c.droppedTotal ∨
    ¬ c.hasSlot config ∧ c'.accepted = c.accepted ∧ c'.droppedTotal = c.droppedTotal + 1) ∧
    c'.handles = c.handles := by
  have hsends : (sendCall data message).sends? = some (messageOf data message) := by
    cases message <;> rfl
  generalize sendCall data message = k at h hsends
  cases Exporter.call_called h with
  | sent hk hs =>
    obtain rfl := Option.some.inj (hsends.symm.trans hk)
    exact ⟨.inl ⟨hs, rfl, rfl⟩, rfl⟩
  | refused hk hs => exact ⟨.inr ⟨hs, rfl, rfl⟩, rfl⟩
  | _ => cases hsends

-- ---------------------------------------------------------------------------
-- The books
-- ---------------------------------------------------------------------------

def ofSignal (signal : Signal) (messages : List Sent) : List Sent :=
  messages.filter fun m => signalOf m.message = signal

structure State.Inv (layer : OtlpLayer) (s : State) : Prop where
  handled : s.layer.sent.Perm (s.inFlight ++ s.accepted ++ s.refused ++ s.panicked)
  carried : ∀ signal, signal ≠ .metrics →
    (dataOf signal s.exporter.channel.accepted).map some = (ofSignal signal s.accepted).map payload
  counted : s.exporter.channel.droppedTotal + (dataOf .metrics s.exporter.channel.accepted).length =
    s.refused.length + s.metrics
  panics : ∀ m ∈ s.panicked, payload m = none
  handle : 1 ≤ s.exporter.channel.handles

theorem ofSignal_append (a b : List Sent) :
    ofSignal signal (a ++ b) = ofSignal signal a ++ ofSignal signal b := List.filter_append ..

theorem count_eraseIdx {l : List Sent} (h : l[i]? = some m) (x : Sent) :
    (l.eraseIdx i).count x + [m].count x = l.count x := by
  have := (Exporter.push_perm [] h).count_eq x
  simp only [List.nil_append, List.count_append] at this
  omega

theorem dataOf_messageOf (signal : Signal) (data : Bytes) (message : Export) :
    dataOf signal [messageOf data message] = if signalOf message = signal then [data] else [] := by
  cases message <;> cases signal <;> rfl

/-- A message that the channel took is on the books of the exporter too. -/
theorem State.Inv.carry (hi : s.Inv layer) (hp : payload m = some data) (signal : Signal)
    (hs : signal ≠ .metrics) :
    (dataOf signal (s.exporter.channel.accepted ++ [messageOf data m.message])).map some =
      (ofSignal signal (s.accepted ++ [m])).map payload := by
  rw [Exporter.dataOf_append, dataOf_messageOf, ofSignal_append, List.map_append, List.map_append,
    hi.carried signal hs]
  by_cases h : signalOf m.message = signal <;> simp [ofSignal, h, hp]

theorem others_step {a : Exporter.Action} {e : Exporter.State} (ho : others s a = true)
    (hi : s.exporter.channel.Inv config) (he : Exporter.step config a s.exporter = some e) :
    (∀ signal, signal ≠ .metrics →
      dataOf signal e.channel.accepted = dataOf signal s.exporter.channel.accepted) ∧
    e.channel.droppedTotal + (dataOf .metrics e.channel.accepted).length =
      s.exporter.channel.droppedTotal + (dataOf .metrics s.exporter.channel.accepted).length +
        (isSendMetrics a).toNat ∧
    (1 ≤ s.exporter.channel.handles → 1 ≤ e.channel.handles) := by
  cases Exporter.step_stepped he with
  | @call k c h =>
    cases Exporter.call_called h with
    | @sent msg _ hk hs =>
      cases k with
      | sendTraces | sendLogs => cases ho
      | sendMetrics data =>
        obtain rfl := Option.some.inj hk
        refine ⟨fun signal hs => ?_, ?_, fun h => h⟩
        · rw [Exporter.dataOf_append]
          cases signal <;> simp_all [dataOf, ExportMessage.data?]
        · simp [dataOf, ExportMessage.data?, isSendMetrics]
          omega
      | _ => cases hk
    | @refused msg _ hk hs =>
      cases k with
      | sendTraces | sendLogs => cases ho
      | sendMetrics data =>
        refine ⟨fun _ _ => rfl, ?_, fun h => h⟩
        simp [isSendMetrics]
        omega
      | _ => cases hk
    | flush | shutdown | cancel => exact ⟨fun _ _ => rfl, rfl, fun h => h⟩
    | @push i msg hm =>
      -- what was pending is no data
      have hc := hi.control msg (List.mem_of_getElem? hm)
      have hnone (signal : Signal) : dataOf signal [msg] = [] := by simp [dataOf, hc]
      refine ⟨fun signal _ => ?_, ?_, fun h => h⟩
      · simp [Exporter.dataOf_append, hnone]
      · simp [Exporter.dataOf_append, hnone, isSendMetrics]
    | clone => exact ⟨fun _ _ => rfl, rfl, fun h => Nat.le_succ_of_le h⟩
    | drop =>
      have : 1 < s.exporter.channel.handles := of_decide_eq_true ho
      exact ⟨fun _ _ => rfl, rfl, fun _ => Nat.le_sub_one_of_lt this⟩
  | _ =>
    obtain ⟨hacc, hdropped, hhandles⟩ := Exporter.quiet_step he (fun _ h => by cases h)
    exact ⟨fun signal _ => by rw [hacc], by rw [hacc, hdropped]; rfl, fun h => hhandles ▸ h⟩

/-- A message of a callback goes from flight to where it belongs. -/
theorem State.Inv.moved (hi : s.Inv layer) (hm : s.inFlight[i]? = some m)
    {accepted refused panicked : List Sent} (h : ∀ x, accepted.count x + refused.count x +
      panicked.count x = s.accepted.count x + s.refused.count x + s.panicked.count x +
        [m].count x) :
    s.layer.sent.Perm (s.inFlight.eraseIdx i ++ accepted ++ refused ++ panicked) := by
  refine List.perm_iff_count.mpr fun x => ?_
  have hhandled := hi.handled.count_eq x
  have hplaces := h x
  have hgone := count_eraseIdx hm x
  simp only [List.count_append] at hhandled ⊢
  omega

theorem State.Inv.step (hi : s.Inv layer) (hc : s.exporter.channel.Inv config)
    (ht : step layer config a s = some t) : t.Inv layer := by
  cases step_stepped ht with
  | callback h =>
    refine { hi with handled := List.perm_iff_count.mpr fun x => ?_ }
    have hhandled := hi.handled.count_eq x
    rw [Layer.step_sent h]
    simp only [List.count_append] at hhandled ⊢
    simp only [List.drop_left]
    omega
  | panicked hm hp =>
    refine { hi with handled := hi.moved hm fun x => ?_, panics := fun m h => ?_ }
    · simp only [List.count_append]
      omega
    · obtain h | h := List.mem_append.mp h
      · exact hi.panics m h
      · exact List.mem_singleton.mp h ▸ hp
  | @accepted i m data e hm hp hs he =>
    cases Exporter.step_stepped he with
    | @call _ c hcall =>
      obtain ⟨⟨-, hacc, hdropped⟩ | ⟨hfull, -⟩, hhandles⟩ := sendCall_called hcall
      · refine { hi with handled := hi.moved hm fun x => ?_, carried := fun signal hsig => ?_
                         counted := ?_, handle := hhandles ▸ hi.handle }
        · simp only [List.count_append]
          omega
        · simp only [hacc]
          exact hi.carry hp signal hsig
        · have := hi.counted
          simp only [hacc, hdropped, Exporter.dataOf_append, dataOf_messageOf]
          cases hmsg : m.message <;> simpa [hmsg, signalOf] using this
      · exact absurd hs hfull
  | @refused i m data e hm hp hs he =>
    cases Exporter.step_stepped he with
    | @call _ c hcall =>
      obtain ⟨⟨hslot, -⟩ | ⟨-, hacc, hdropped⟩, hhandles⟩ := sendCall_called hcall
      · exact absurd hslot hs
      · refine { hi with handled := hi.moved hm fun x => ?_, carried := fun signal hsig => ?_
                         counted := ?_, handle := hhandles ▸ hi.handle }
        · simp only [List.count_append]
          omega
        · simp only [hacc]
          exact hi.carried signal hsig
        · have := hi.counted
          simp only [hacc, hdropped, List.length_append, List.length_singleton]
          omega
  | exporter ho he =>
    obtain ⟨hcarried, hcounted, hhandle⟩ := others_step ho hc he
    refine { hi with carried := fun signal hs => ?_, counted := ?_, handle := hhandle hi.handle }
    · rw [hcarried signal hs, hi.carried signal hs]
    · have := hi.counted
      simp only
      omega

theorem reachable_exporter (h : (pipeline layer config).Reachable s) :
    s.exporter.Inv config := Exporter.reachable_inv (refines_exporter.reachable h)

theorem reachable_inv (h : (pipeline layer config).Reachable s) : s.Inv layer := by
  refine h.invariant (fun s hs => ?_)
    fun a s t hr hi ht => hi.step (reachable_exporter hr).channel ht
  obtain ⟨threads, exporter, hexp, rfl⟩ := hs
  obtain ⟨e, he, hclone⟩ := Option.bind_eq_some_iff.mp hexp
  obtain ⟨-, he⟩ := Option.ite_none_left_eq_some.mp he
  obtain rfl := Option.some.inj he
  obtain rfl := Option.some.inj hclone
  exact { handled := List.Perm.refl _, carried := fun _ _ => rfl, counted := rfl
          panics := fun m hm => absurd hm List.not_mem_nil
          handle := Nat.le_succ_of_le (Nat.le_refl 1) }

theorem handled_perm (h : (pipeline layer config).Reachable s) :
    s.layer.sent.Perm (s.accepted ++ (s.inFlight ++ s.refused ++ s.panicked)) := by
  refine (reachable_inv h).handled.trans (List.perm_iff_count.mpr fun x => ?_)
  simp only [List.count_append]
  omega

theorem mem_accepted (h : (pipeline layer config).Reachable s) (hm : m ∈ s.accepted) :
    m.data = layer.encode m.message :=
  Layer.reachable_data (refines_layer.reachable h) m
    ((handled_perm h).mem_iff.mpr (List.mem_append_left _ hm))

-- ---------------------------------------------------------------------------
-- Places
-- ---------------------------------------------------------------------------

/-- The body of a POST reads back as these messages. -/
structure Ships (layer : OtlpLayer) (config : ExporterConfig) (signal : Signal) (post : Post)
    (messages : List Sent) : Prop where
  url : config.url signal = some post.url
  nonempty : 1 ≤ messages.length
  size : messages.length ≤ max config.batchSize 1
  body : Otlp.decodeExportRequest signal post.data =
    some ⟨messages.flatMap fun m => resources layer signal m.message⟩

/-- The messages of a signal that the channel took, by the place they have
reached: those in each body, in the order of the bodies, those cleared with a
batch that has no URL, those in the batch and in the channel, and those left in
the channel by a loop that stopped. -/
structure Taken where
  posted : List (List Sent)
  discarded : List Sent
  batched : List Sent
  queued : List Sent
  lost : List Sent

def Taken.messages (p : Taken) : List Sent :=
  p.posted.flatten ++ p.discarded ++ p.batched ++ p.queued ++ p.lost

structure Places (layer : OtlpLayer) (config : ExporterConfig) (signal : Signal) (s : State)
    (p : Taken) : Prop where
  bodies : List.Forall₂ (Ships layer config signal)
    (s.exporter.pool.posts.filter fun post => post.signal = signal) p.posted
  discards : p.discarded.map payload = (discardedOf signal s.exporter.discarded).map some
  batch : p.batched.map payload = (s.exporter.batch signal).map some
  queue : p.queued.map payload = (dataOf signal s.exporter.channel.queue).map some
  losses : p.lost.map payload = (dataOf signal s.exporter.channel.lost).map some
  order : p.messages = ofSignal signal s.accepted
  kept : (config.url signal).isSome → p.discarded = []
  running : s.exporter.pc ≠ .terminated → p.lost = []

/-- The messages behind the payloads, post by post. -/
theorem split_posts (posts : List Post) (messages : List Sent)
    (h : (posts.flatMap Post.items).map some = messages.map payload) :
    ∃ posted : List (List Sent), posted.flatten = messages ∧
      List.Forall₂ (fun post ms => post.items.map some = ms.map payload) posts posted := by
  induction posts generalizing messages with
  | nil =>
    obtain rfl : messages = [] := List.map_eq_nil_iff.mp h.symm
    exact ⟨[], rfl, .nil⟩
  | cons post posts ih =>
    rw [List.flatMap_cons, List.map_append] at h
    obtain ⟨front, back, rfl, hf, hb⟩ := List.map_eq_append_iff.mp h.symm
    obtain ⟨posted, rfl, hall⟩ := ih back hb.symm
    exact ⟨front :: posted, rfl, .cons hf.symm hall⟩

theorem ships_of_items {posts : List Post} {posted : List (List Sent)}
    (hall : List.Forall₂ (fun post ms => post.items.map some = ms.map payload) posts posted)
    (hok : ∀ post ∈ posts, post.Ok config ∧ post.signal = signal)
    (hknown : ∀ ms ∈ posted, ∀ m ∈ ms,
      m.data = layer.encode m.message ∧ signalOf m.message = signal) :
    List.Forall₂ (Ships layer config signal) posts posted := by
  induction hall with
  | nil => exact .nil
  | @cons post ms posts posted hitems hrest ih =>
    obtain ⟨⟨hurl, hdata, hne, hsize⟩, hsig⟩ := hok post List.mem_cons_self
    have hlen : post.items.length = ms.length := by
      have := congrArg List.length hitems
      simpa using this
    refine .cons ⟨hsig ▸ hurl, hlen ▸ hne, hlen ▸ hsize, ?_⟩
      (ih (fun post h => hok post (List.mem_cons_of_mem _ h))
        fun ms h => hknown ms (List.mem_cons_of_mem _ h))
    rw [hdata]
    exact decode_payloads ms post.items (hknown ms List.mem_cons_self) hitems

theorem places (h : (pipeline layer config).Reachable s) (hs : signal ≠ .metrics) :
    ∃ p, Places layer config signal s p := by
  have hi := reachable_exporter h
  -- the books of the exporter, and those of the callbacks
  have hcarried := (reachable_inv h).carried signal hs
  rw [hi.channel.order, Exporter.dataOf_append, Exporter.dataOf_append,
    ← hi.balanced.streams signal] at hcarried
  simp only [List.map_append] at hcarried
  obtain ⟨front, lost, horder, hfront, hlost⟩ := List.map_eq_append_iff.mp hcarried.symm
  obtain ⟨front, queued, rfl, hfront, hqueued⟩ := List.map_eq_append_iff.mp hfront
  obtain ⟨front, batched, rfl, hfront, hbatched⟩ := List.map_eq_append_iff.mp hfront
  obtain ⟨sent, discarded, rfl, hsent, hdiscarded⟩ := List.map_eq_append_iff.mp hfront
  obtain ⟨posted, rfl, hall⟩ := split_posts _ sent hsent.symm
  refine ⟨⟨posted, discarded, batched, queued, lost⟩, ?_, hdiscarded, hbatched, hqueued, hlost,
    horder.symm, fun hu => ?_, fun hpc => ?_⟩
  · refine ships_of_items hall (fun post hpost => ?_) fun ms hms m hm => ?_
    · obtain ⟨hm, hsig⟩ := List.mem_filter.mp hpost
      exact ⟨hi.balanced.posts post hm, of_decide_eq_true hsig⟩
    · have hmem : m ∈ ofSignal signal s.accepted := by
        rw [horder]
        simp only [List.mem_append]
        exact .inl (.inl (.inl (.inl (List.mem_flatten.mpr ⟨ms, hms, hm⟩))))
      obtain ⟨hacc, hsig⟩ := List.mem_filter.mp hmem
      exact ⟨mem_accepted h hacc, of_decide_eq_true hsig⟩
  · obtain ⟨url, hu⟩ := Option.isSome_iff_exists.mp hu
    rw [hi.balanced.kept signal url hu] at hdiscarded
    exact List.map_eq_nil_iff.mp hdiscarded
  · have hopen : s.exporter.channel.closed = false := by
      have := hi.closed
      simpa [hpc] using this
    rw [hi.channel.openLost hopen] at hlost
    exact List.map_eq_nil_iff.mp hlost

end

/-- Every message that a callback exported is in one place, and the ones the
exporter took are in order: the bodies read back as the messages in them. What
the exporter refused is on its counter; what it lost when it stopped is not. -/
theorem pipeline_conserves {layer : OtlpLayer} {config : ExporterConfig} {s : State}
    {signal : Signal} (h : (pipeline layer config).Reachable s) (hs : signal ≠ .metrics) :
    (∃ p, Places layer config signal s p ∧ (ofSignal signal s.layer.sent).Perm
      (p.messages ++ ofSignal signal (s.inFlight ++ s.refused ++ s.panicked))) ∧
    s.exporter.channel.droppedTotal + (dataOf .metrics s.exporter.channel.accepted).length =
      s.refused.length + s.metrics := by
  obtain ⟨p, hplaces⟩ := places h hs
  refine ⟨⟨p, hplaces, ?_⟩, (reachable_inv h).counted⟩
  rw [hplaces.order, ← ofSignal_append]
  exact (handled_perm h).filter _

def begun : State where
  layer := { entered := [[]] }
  exporter := { channel := { handles := 2 }, pool := { permits := 1 } }

theorem begun_init : (pipeline layer Exporter.tracesAndLogs).init begun := ⟨1, _, rfl, rfl⟩

/-- The span of a request overtakes the log in it. -/
def request : List Action := [
  .callback (.newSpan 0 .root "request" Layer.tracedFields zeroSpanId 1), .callback (.enter 0 0),
  .callback (.event 0 .info [] 2), .callback (.exit 0 0), .callback (.close 0 3),
  .send 1, .exporter .recv]

def flushed : List Action := [
  .exporter (.call .flush), .exporter (.call (.push 0)), .exporter .recv,
  .exporter (.task 0 .acquire), .exporter (.task 0 (.respond true)), .exporter (.join 0),
  .exporter .reply]

theorem request_runs : ∃ s t,
    (pipeline Layer.exportAll Exporter.tracesAndLogs).run request begun = some s ∧
    (pipeline Layer.exportAll Exporter.tracesAndLogs).run flushed s = some t ∧
    (s.layer.spans[0]?.bind (·.fields)).isSome ∧
    s.exporter.channel.nextDone = 0 ∧ t.exporter.replies = [0] := by
  obtain ⟨s, hs, hend⟩ := Option.map_eq_some_iff.mp (show
    ((pipeline Layer.exportAll Exporter.tracesAndLogs).run request begun).map (fun s =>
      ((s.layer.spans[0]?.bind (·.fields)).isSome, s.exporter.channel.nextDone,
        ((pipeline Layer.exportAll Exporter.tracesAndLogs).run flushed s).map
          (·.exporter.replies))) = some (true, 0, some [0]) by decide +kernel)
  simp only [Prod.mk.injEq] at hend
  obtain ⟨hfields, hnext, hend⟩ := hend
  obtain ⟨t, ht, hreplies⟩ := Option.map_eq_some_iff.mp hend
  exact ⟨s, t, hs, ht, hfields, hnext, hreplies⟩

theorem pipeline_conserves_request : ∃ s,
    (pipeline Layer.exportAll Exporter.tracesAndLogs).run request begun = some s ∧
    (∃ p, Places Layer.exportAll Exporter.tracesAndLogs .traces s p ∧
      (ofSignal .traces s.layer.sent).Perm
        (p.messages ++ ofSignal .traces (s.inFlight ++ s.refused ++ s.panicked))) ∧
    s.exporter.channel.droppedTotal + (dataOf .metrics s.exporter.channel.accepted).length =
      s.refused.length + s.metrics := by
  obtain ⟨s, -, hs, -⟩ := request_runs
  exact ⟨s, hs, pipeline_conserves (Machine.Reachable.run (.init begun_init) hs) (by decide)⟩

-- ---------------------------------------------------------------------------
-- Spans
-- ---------------------------------------------------------------------------

def spanOf (id : Nat) (m : Sent) : Option SpanData :=
  if m.span = some id then m.message.span? else none

theorem filterMap_ofSignal (id : Nat) (messages : List Sent) :
    (ofSignal .traces messages).filterMap (spanOf id) = messages.filterMap (spanOf id) := by
  rw [ofSignal, List.filterMap_filter]
  refine congrArg (List.filterMap · messages) (funext fun m => ?_)
  cases hm : m.message <;> simp [signalOf, spanOf, hm, Export.span?]

/-- A span has one message in one place once it has closed and was sampled, with
the IDs it was created with, and none before. -/
theorem span_once {layer : OtlpLayer} {config : ExporterConfig} {s : State} {id : Nat}
    {span : Layer.Span} {fields : Layer.SpanFields} (h : (pipeline layer config).Reachable s)
    (hspan : s.layer.spans[id]? = some span) (hf : span.fields = some fields) :
    ∃ p, Places layer config .traces s p ∧
      ((p.messages ++ ofSignal .traces (s.inFlight ++ s.refused ++ s.panicked)).filterMap
          (spanOf id)).map Layer.SpanData.ids =
        if span.closed ∧ layer.exportTraces ∧ fields.sampled then
          [(fields.traceId, fields.spanId, fields.parentSpanId)]
        else [] := by
  obtain ⟨p, hplaces⟩ := places h (show Signal.traces ≠ .metrics by decide)
  refine ⟨p, hplaces, ?_⟩
  rw [hplaces.order, ← ofSignal_append, filterMap_ofSignal]
  have hexports : (s.layer.exports id).map Layer.SpanData.ids =
      if span.closed ∧ layer.exportTraces ∧ fields.sampled then [fields.identity.ids] else [] :=
    (Layer.reachable_forest (refines_layer.reachable h)).exported id span.birth fields.identity
      span.closed (by rw [Layer.State.births_getElem?, hspan]; rfl)
      (by simp [Layer.Span.birth, hf]) (by rw [Layer.State.closings, List.getElem?_map, hspan]; rfl)
  have hids := ((handled_perm h).filterMap (spanOf id)).map Layer.SpanData.ids
  rw [show s.layer.sent.filterMap (spanOf id) = s.layer.exports id from rfl, hexports] at hids
  split at hids
  · rename_i hall
    rw [if_pos hall]
    exact (List.perm_singleton.mp hids.symm)
  · rename_i hnot
    rw [if_neg hnot]
    exact List.nil_perm.mp hids

theorem span_once_request : ∃ s span fields p,
    (pipeline Layer.exportAll Exporter.tracesAndLogs).run request begun = some s ∧
    s.layer.spans[0]? = some span ∧ span.fields = some fields ∧
    Places Layer.exportAll Exporter.tracesAndLogs .traces s p ∧
    ((p.messages ++ ofSignal .traces (s.inFlight ++ s.refused ++ s.panicked)).filterMap
        (spanOf 0)).map Layer.SpanData.ids =
      if span.closed ∧ Layer.exportAll.exportTraces ∧ fields.sampled then
        [(fields.traceId, fields.spanId, fields.parentSpanId)]
      else [] := by
  obtain ⟨s, -, hs, -, hsome, -⟩ := request_runs
  obtain ⟨fields, hfields⟩ := Option.isSome_iff_exists.mp hsome
  obtain ⟨span, hspan, hf⟩ := Option.bind_eq_some_iff.mp hfields
  obtain ⟨p, hplaces, hids⟩ :=
    span_once (Machine.Reachable.run (.init begun_init) hs) hspan hf
  exact ⟨s, span, fields, p, hs, hspan, hf, hplaces, hids⟩

-- ---------------------------------------------------------------------------
-- Flush
-- ---------------------------------------------------------------------------

section
variable {layer : OtlpLayer} {config : ExporterConfig} {s t : State} {signal : Signal}

theorem accepted_data (h : (pipeline layer config).Reachable s) (hm : m ∈ s.accepted) :
    ∃ data, payload m = some data ∧
      data ∈ dataOf (signalOf m.message) s.exporter.channel.accepted := by
  have hsig : signalOf m.message ≠ .metrics := by
    cases m.message <;> simp [signalOf]
  have hmem : payload m ∈ (ofSignal (signalOf m.message) s.accepted).map payload :=
    List.mem_map_of_mem (List.mem_filter.mpr ⟨hm, decide_eq_true rfl⟩)
  rw [← (reachable_inv h).carried _ hsig] at hmem
  obtain ⟨data, hd, hp⟩ := List.mem_map.mp hmem
  exact ⟨data, hp.symm, hd⟩

theorem data_accepted (h : (pipeline layer config).Reachable s) (hs : signal ≠ .metrics)
    (hd : data ∈ dataOf signal s.exporter.channel.accepted) :
    ∃ r, Otlp.decodeExportRequest signal data = some r := by
  have hmem : some data ∈ (dataOf signal s.exporter.channel.accepted).map some :=
    List.mem_map_of_mem hd
  rw [(reachable_inv h).carried signal hs] at hmem
  obtain ⟨m, hm, hp⟩ := List.mem_map.mp hmem
  obtain ⟨hacc, hsig⟩ := List.mem_filter.mp hm
  obtain rfl := of_decide_eq_true hsig
  exact ⟨_, decode_payload (mem_accepted h hacc) hp⟩

theorem run_accepted {as : List Exporter.Action} {e e' : Exporter.State}
    (h : (Exporter.exporter config).run as e = some e') :
    e.channel.accepted <+: e'.channel.accepted := by
  refine Machine.run_of_steps (R := fun e e' : Exporter.State =>
    e.channel.accepted <+: e'.channel.accepted) (fun _ => List.prefix_refl _)
    (fun _ _ _ h h' => h.trans h') (fun a e e' ht => ?_) h
  obtain ⟨added, hacc, -⟩ := Exporter.accepted_step ht
  exact hacc ▸ List.prefix_append _ _

theorem decode_within {items : List Bytes} (hm : m.data = layer.encode m.message)
    (hp : payload m = some data) (hd : data ∈ items)
    (hitems : ∀ item ∈ items, ∃ r, Otlp.decodeExportRequest (signalOf m.message) item = some r) :
    ∃ front back, Otlp.decodeExportRequest (signalOf m.message) items.flatten =
      some ⟨front ++ resources layer (signalOf m.message) m.message ++ back⟩ := by
  obtain ⟨before, after, rfl⟩ := List.append_of_mem hd
  obtain ⟨front, -, hfront⟩ := decodeExportRequest_flatten _ before fun item hi =>
    hitems item (List.mem_append_left _ hi)
  obtain ⟨back, -, hback⟩ := decodeExportRequest_flatten _ after fun item hi =>
    hitems item (List.mem_append_right _ (List.mem_cons_of_mem _ hi))
  refine ⟨front.flatMap Otlp.Request.resources, back.flatMap Otlp.Request.resources, ?_⟩
  rw [List.flatten_append, List.flatten_cons, List.append_assoc]
  exact decode_append hfront (decode_append (decode_payload hm hp) hback)

end

/-- Once a flush is answered, every message of a callback that was over when the
flush was called has been dropped or lost in a panic, or a body that was posted
until success or the last failure reads back with it. -/
theorem flush_exports {layer : OtlpLayer} {config : ExporterConfig} {s u t : State}
    {actions : List Action} (h : (pipeline layer config).Reachable s)
    (hcall : (pipeline layer config).step (.exporter (.call .flush)) s = some u)
    (hrun : (pipeline layer config).run actions u = some t)
    (hdone : s.exporter.channel.nextDone ∈ t.exporter.replies) :
    ∀ m ∈ s.layer.sent, m ∈ s.inFlight ∨ m ∈ s.refused ∨ payload m = none ∨
      ∀ url, config.url (signalOf m.message) = some url →
        ∃ task ∈ t.exporter.pool.tasks, task.phase.isFinished ∧ task.post.url = url ∧
          ∃ front back, Otlp.decodeExportRequest (signalOf m.message) task.post.data =
            some ⟨front ++ resources layer (signalOf m.message) m.message ++ back⟩ := by
  intro m hm
  have hi := reachable_inv h
  have ht : (pipeline layer config).Reachable t := (h.step hcall).run hrun
  rw [hi.handled.mem_iff, List.mem_append, List.mem_append, List.mem_append] at hm
  obtain ((hm | hm) | hm) | hm := hm
  · exact .inl hm
  · refine .inr (.inr (.inr fun url hu => ?_))
    obtain ⟨data, hp, hd⟩ := accepted_data h hm
    have hsig : signalOf m.message ≠ .metrics := by
      cases m.message <;> simp [signalOf]
    -- what was accepted then is before the flush
    have hahead : s.exporter.channel.accepted <+:
        Exporter.before s.exporter.channel.nextDone t.exporter.channel.accepted := by
      have hu : s.exporter.channel.accepted <+: u.exporter.channel.accepted := by
        have hstep : step layer config (.exporter (.call .flush)) s = some u := hcall
        cases step_stepped hstep with
        | exporter _ he =>
          obtain ⟨added, hacc, -⟩ := Exporter.accepted_step he
          exact hacc ▸ List.prefix_append _ _
      obtain ⟨bs, hbs⟩ := refines_exporter.run (h.step hcall) hrun
      obtain ⟨more, hmore⟩ := hu.trans (run_accepted hbs)
      have hfresh : ExportMessage.flush s.exporter.channel.nextDone ∉
          s.exporter.channel.accepted := fun hin =>
        Nat.lt_irrefl _ ((reachable_exporter h).channel.fresh _ (List.mem_append_left _ hin))
      rw [← hmore, Exporter.before_fresh hfresh]
      exact List.prefix_append _ _
    obtain ⟨more, hmore⟩ := hahead
    have hbefore : data ∈ dataOf (signalOf m.message)
        (Exporter.before s.exporter.channel.nextDone t.exporter.channel.accepted) := by
      rw [← hmore, Exporter.dataOf_append]
      exact List.mem_append_left _ hd
    have hposted := (Exporter.replied_complete (refines_exporter.reachable ht) hdone).2 _ url hu
      hbefore
    obtain ⟨task, htask, hf, hsignal, hin⟩ := Exporter.mem_finishedOf.mp hposted
    have hti := reachable_exporter ht
    have hok := hti.balanced.posts task.post (List.mem_map_of_mem htask)
    refine ⟨task, htask, hf, ?_, ?_⟩
    · have := hok.url
      rw [hsignal, hu] at this
      exact (Option.some.inj this).symm
    · rw [hok.data]
      refine decode_within (mem_accepted h hm) hp hin fun item hitem => ?_
      refine data_accepted ht hsig ?_
      have hstreams := hti.balanced.streams (signalOf m.message)
      rw [hti.channel.order, List.append_assoc, Exporter.dataOf_append, ← hstreams]
      refine List.mem_append_left _ (List.mem_append_left _ (List.mem_append_left _ ?_))
      exact List.mem_flatMap.mpr ⟨task.post, List.mem_filter.mpr
        ⟨List.mem_map_of_mem htask, decide_eq_true hsignal⟩, hitem⟩
  · exact .inr (.inl hm)
  · exact .inr (.inr (.inl (hi.panics m hm)))

theorem flush_exports_request : ∃ s u t,
    (pipeline Layer.exportAll Exporter.tracesAndLogs).run request begun = some s ∧
    (pipeline Layer.exportAll Exporter.tracesAndLogs).step (.exporter (.call .flush)) s = some u ∧
    (pipeline Layer.exportAll Exporter.tracesAndLogs).run flushed.tail u = some t ∧
    ∀ m ∈ s.layer.sent, m ∈ s.inFlight ∨ m ∈ s.refused ∨ payload m = none ∨
      ∀ url, Exporter.tracesAndLogs.url (signalOf m.message) = some url →
        ∃ task ∈ t.exporter.pool.tasks, task.phase.isFinished ∧ task.post.url = url ∧
          ∃ front back, Otlp.decodeExportRequest (signalOf m.message) task.post.data =
            some ⟨front ++ resources Layer.exportAll (signalOf m.message) m.message ++ back⟩ := by
  obtain ⟨s, t, hs, ht, -, hnext, hreplies⟩ := request_runs
  obtain ⟨u, hu, ht⟩ := Machine.run_cons_some.mp ht
  exact ⟨s, u, t, hs, hu, ht, flush_exports (Machine.Reachable.run (.init begun_init) hs) hu ht
    (by simp [hnext, hreplies])⟩

end Rolly.Pipeline
