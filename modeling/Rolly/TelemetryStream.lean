import Rolly.Batching
import Rolly.TelemetryDrop

/-!
# The stream of the metrics

What the aggregation loop reads of the registry, read by read, is what it sends,
and what a collector reads from the bodies of the POSTs: in the order of the
reads and each once. Only whole payloads are missing, and they are counted.
-/

namespace Rolly.Metrics

/-- The snapshots that a thread has read, oldest first. -/
def snapshotsRead (thread : Nat) (log : List Event) : List MetricSnapshot :=
  log.reverse.flatMap fun
    | .read reader _ instrument => if reader = thread then instrument.collect.1.toList else []
    | _ => []

section
variable {s t : State}

theorem snapshotsRead_append (thread : Nat) (events log : List Event) :
    snapshotsRead thread (events ++ log) =
      snapshotsRead thread log ++ snapshotsRead thread events := by
  rw [snapshotsRead, List.reverse_append, List.flatMap_append]
  rfl

theorem snapshotsRead_step (h : step action s = some t) (hne : action.thread ≠ thread) :
    snapshotsRead thread t.log = snapshotsRead thread s.log := by
  obtain ⟨-, events, hlog, hown⟩ := step_own h
  have hnone : snapshotsRead thread events = [] := by
    refine List.flatMap_eq_nil_iff.mpr fun event hm => ?_
    have hevent := hown event (List.mem_reverse.mp hm)
    cases event with
    | read reader handle instrument =>
      refine if_neg fun heq => hne ?_
      rw [← hevent]
      exact heq
    | _ => rfl
  rw [hlog, snapshotsRead_append, hnone, List.append_nil]

theorem gather_step (h : step action s = some t)
    (hpc : ∀ snapshots, action = .release action.thread →
      s.threads[action.thread]? ≠ some (.visit .histogram [] snapshots)) :
    ∃ added, snapshotsRead action.thread t.log = snapshotsRead action.thread s.log ++ added ∧
      t.inHand action.thread = s.inHand action.thread ++ added := by
  have hmove {thread : Nat} {old new : Pc} {u : State} {added : List MetricSnapshot}
      (ho : s.threads[thread]? = some old) (hu : u.threads = s.threads.set thread new)
      (he : new.inHand = old.inHand ++ added)
      (hlog : snapshotsRead thread u.log = snapshotsRead thread s.log ++ added) :
      ∃ added, snapshotsRead thread u.log = snapshotsRead thread s.log ++ added ∧
        u.inHand thread = s.inHand thread ++ added := by
    have hthread : u.threads[thread]? = some new := by
      rw [hu]
      exact List.getElem?_set_self (List.getElem?_eq_some_iff.mp ho).1
    exact ⟨added, hlog, by rw [inHand_of hthread, inHand_of ho, he]⟩
  have hquiet {thread : Nat} {old new : Pc} {u : State} (ho : s.threads[thread]? = some old)
      (hu : u.threads = s.threads.set thread new) (he : new.inHand = old.inHand)
      (hlog : snapshotsRead thread u.log = snapshotsRead thread s.log) :
      ∃ added, snapshotsRead thread u.log = snapshotsRead thread s.log ++ added ∧
        u.inHand thread = s.inHand thread ++ added :=
    hmove ho hu (by rw [he, List.append_nil]) (by rw [hlog, List.append_nil])
  cases step_stepped h with
  | register ho | collect ho => exact hquiet ho rfl rfl rfl
  | record ho _ => exact hquiet ho rfl rfl rfl
  | get ho =>
    unfold State.get
    split
    · exact hquiet ho rfl rfl (by simp [State.note, State.move, snapshotsRead])
    · exact hquiet ho rfl rfl rfl
  | entry ho _ =>
    unfold State.entry
    dsimp only
    split <;> exact hquiet ho rfl rfl (by simp [State.note, State.move, snapshotsRead])
  | recorded ho =>
    exact hquiet ho rfl rfl (by simp [State.record, State.note, State.move, snapshotsRead])
  | lock ho => exact hquiet ho rfl rfl rfl
  | visit ho _ _ =>
    exact hmove ho rfl rfl (by simp [State.note, State.move, snapshotsRead, Action.thread])
  | next ho _ => exact hquiet ho rfl rfl rfl
  | returned ho => exact absurd ho (hpc _ rfl)

/-- An instrument without data points is not read. -/
theorem collect_size {instrument : Instrument} (h : instrument.collect.1 = some snapshot) :
    0 < snapshot.size := by
  cases instrument with
  | counter inner | gauge inner | histogram inner =>
    unfold Instrument.collect at h
    dsimp only at h
    split at h
    · cases h
    · next hne =>
      cases h
      have hdata : inner.data ≠ [] := fun hnil => hne (List.isEmpty_iff.mpr hnil)
      simpa [MetricSnapshot.size, Inner.take, List.length_pos_iff] using hdata

end

end Rolly.Metrics

namespace Rolly.Telemetry

open Exporter (Post dataOf sentOf sendMetrics_step)
open Metrics (Registration snapshotsRead snapshotsRead_step gather_step collect_size)

section
variable {config : TelemetryConfig} {s t : State}

-- ---------------------------------------------------------------------------
-- From the registry to the exporter
-- ---------------------------------------------------------------------------

def snapshotsOf (requests : List MetricsRequest) : List MetricSnapshot :=
  requests.flatMap (·.snapshots)

/-- What the loop has read it has sent, or has in its hands; a loop that is gone
may have lost some. -/
structure Streamed (s : State) : Prop where
  gathered : s.loop ≠ .gone →
    snapshotsRead loopThread s.shared.log = snapshotsOf s.handed ++ s.inHand
  sent : snapshotsOf s.handed <+: snapshotsRead loopThread s.shared.log

theorem Streamed.of_gathered
    (h : snapshotsRead loopThread s.shared.log = snapshotsOf s.handed ++ s.inHand) : Streamed s :=
  ⟨fun _ => h, h ▸ List.prefix_append _ _⟩

theorem Streamed.gather (h : Streamed s) (hl : s.loop ≠ .gone)
    (hs : Metrics.step a s.shared = some shared) (ha : a.thread = loopThread)
    (hhand : s.shared.inHand loopThread = s.inHand)
    (hpc : ∀ snapshots, a = .release a.thread →
      s.shared.threads[a.thread]? ≠ some (.visit .histogram [] snapshots)) :
    Streamed { s with shared, loop := .collecting } := by
  obtain ⟨added, hread, hin⟩ := gather_step hs hpc
  rw [ha] at hread hin
  refine .of_gathered ?_
  show snapshotsRead loopThread shared.log = snapshotsOf s.handed ++ shared.inHand loopThread
  rw [hread, hin, h.gathered hl, hhand, List.append_assoc]

theorem Streamed.step (h : Streamed s) (ht : step config a s = some t) : Streamed t := by
  cases step_stepped ht with
  | @program a shared hne hs =>
    have hread := snapshotsRead_step hs hne
    have hthread := (Metrics.step_other hs hne).1
    refine ⟨fun hl => ?_, ?_⟩
    · have hhand : State.inHand { s with shared } = s.inHand := by
        simp only [State.inHand, Metrics.State.inHand, hthread]
      show snapshotsRead loopThread shared.log = snapshotsOf s.handed ++ _
      rw [hhand, hread]
      exact h.gathered hl
    · show snapshotsOf s.handed <+: snapshotsRead loopThread shared.log
      rw [hread]
      exact h.sent
  | start hl =>
    have hg := h.gathered (by simp [hl])
    refine .of_gathered ?_
    simpa only [State.inHand, hl] using hg
  | @tick shared hl hs =>
    have hidle : s.shared.threads[loopThread]? = some .idle := by
      cases Metrics.step_stepped hs with
      | collect ho => exact ho
    refine h.gather (by simp [hl]) hs rfl ?_ fun _ ha => by cases ha
    rw [Metrics.inHand_of hidle]
    simp only [State.inHand, hl]
    rfl
  | @collect a shared hl hthread hs =>
    have hhand : s.shared.inHand loopThread = s.inHand := by simp only [State.inHand, hl]
    obtain ⟨snapshots, thread, rfl, hpc, hafter⟩ | ⟨hafter, hno⟩ :=
      afterStep_cases s.shared.threads[loopThread]? a
    · -- what was in its hands is what `collect()` returned
      obtain rfl : thread = loopThread := hthread
      have hg := h.gathered (by simp [hl])
      rw [← hhand, Metrics.inHand_of hpc] at hg
      refine .of_gathered ?_
      rw [hafter, Metrics.release_returns hpc hs]
      simpa [Metrics.State.note, Metrics.State.move, Metrics.Pc.inHand, State.inHand,
        snapshotsRead] using hg
    · rw [hafter]
      refine h.gather (by simp [hl]) hs hthread hhand fun snapshots ha => ?_
      rw [hthread]
      exact hno snapshots _ ha
  | skip hl =>
    have hg := h.gathered (by simp [hl])
    refine .of_gathered ?_
    simpa only [State.inHand, hl] using hg
  | @send snapshots now data exporter hl he hs =>
    have hg := h.gathered (by simp [hl])
    refine .of_gathered ?_
    simp only [State.inHand, hl] at hg
    simpa [snapshotsOf, State.inHand] using hg
  | panic => exact ⟨fun hl => absurd rfl hl, h.sent⟩
  | exporter | drop | dropOnly | flush | acknowledge | shutdown | release =>
    exact ⟨h.gathered, h.sent⟩

theorem init_loop (h : init config threads = some s) : s.loop = .starting ∨ s.loop = .gone := by
  unfold init at h
  dsimp only at h
  split at h
  · simp only [Option.bind_eq_bind, Option.bind_eq_some_iff, Option.pure_def,
      Option.some.injEq] at h
    obtain ⟨first, -, second, -, third, -, rfl⟩ := h
    dsimp only
    split
    · exact .inl rfl
    · exact .inr rfl
  · cases h

theorem reachable_streamed (hr : (telemetry config).Reachable s) : Streamed s := by
  refine hr.invariant ?_ fun _ _ _ _ h ht => h.step ht
  rintro s ⟨threads, h0⟩
  obtain ⟨-, loop, hs⟩ := fresh_init h0
  have hhand : s.inHand = [] := by
    obtain hl | hl := init_loop h0 <;> simp [State.inHand, hl]
  have hlog : s.shared.log = [] := by
    rw [hs]
    rfl
  have hhanded : s.handed = [] := by rw [hs]
  refine .of_gathered ?_
  rw [hhand, hlog, hhanded]
  rfl

-- ---------------------------------------------------------------------------
-- From the exporter to the collector
-- ---------------------------------------------------------------------------

/-- The requests whose payload the channel took; each of the others is counted
as dropped. -/
structure Kept (config : TelemetryConfig) (s : State) (kept : List MetricsRequest) : Prop where
  sublist : kept.Sublist s.handed
  accepted : kept.map (·.encode config) = (dataOf .metrics s.exporter.channel.accepted).map some
  counted : s.handed.length ≤ kept.length + s.exporter.channel.droppedTotal

theorem Kept.quiet (h : Kept config s kept) (hh : t.handed = s.handed)
    (hacc : dataOf .metrics t.exporter.channel.accepted =
      dataOf .metrics s.exporter.channel.accepted)
    (hd : s.exporter.channel.droppedTotal ≤ t.exporter.channel.droppedTotal) :
    Kept config t kept :=
  ⟨hh ▸ h.sublist, hacc ▸ h.accepted, by have := h.counted; rw [hh]; omega⟩

theorem Kept.step (h : Kept config s kept)
    (hr : (Exporter.exporter (exporterConfig config)).Reachable s.exporter)
    (ht : step config a s = some t) : Kept config t kept ∨ ∃ request,
      Kept config t (kept ++ [request]) ∧ s.loop = .sending request.snapshots ∧
        t.loop = .waiting := by
  have hi := (Exporter.reachable_inv hr).channel
  have hcall {b : Exporter.Action} {exporter : Exporter.State}
      (hs : Exporter.step (exporterConfig config) b s.exporter = some exporter)
      (he : t.exporter = exporter) (hh : t.handed = s.handed)
      (hb : ∀ k msg, b = .call k → k.sends? = some msg → dataOf .metrics [msg] = []) :
      Kept config t kept := by
    obtain ⟨hacc, hdropped⟩ := Exporter.dataOf_step hi hs hb
    exact h.quiet hh (he ▸ hacc) (he ▸ hdropped)
  cases step_stepped ht with
  | program | start | tick | collect | skip | drop | acknowledge =>
    exact .inl (h.quiet rfl rfl (Nat.le_refl _))
  | @exporter b exporter hu hs =>
    refine .inl (hcall hs rfl rfl fun k msg hb hk => ?_)
    subst hb
    cases k with
    | sendTraces | sendLogs =>
      cases hk
      rfl
    | sendMetrics => cases hu
    | _ => cases hk
  | panic _ hs | dropOnly _ _ hs | flush _ hs | shutdown _ hs | release _ hs =>
    refine .inl (hcall hs rfl rfl fun k msg hb hk => ?_)
    cases hb
    cases hk
  | @send snapshots now data exporter hl he hs =>
    obtain ⟨hacc, hdropped⟩ | ⟨hacc, hdropped⟩ := sendMetrics_step hs
    · refine .inr ⟨⟨snapshots, s.startTime, now⟩, ⟨h.sublist.append_right _, ?_, ?_⟩, hl, rfl⟩
      · rw [List.map_append, h.accepted]
        simp [hacc, he, dataOf, Exporter.ExportMessage.data?]
      · have := h.counted
        simp [hdropped]
        omega
    · refine .inl ⟨h.sublist.trans (List.sublist_append_left _ _), ?_, ?_⟩
      · rw [h.accepted]
        simp [hacc]
      · have := h.counted
        simp [hdropped]
        omega

theorem reachable_kept (hr : (telemetry config).Reachable s) : ∃ kept, Kept config s kept := by
  have hstep (a : Action) (s t : State) (hr : (telemetry config).Reachable s)
      (h : ∃ kept, Kept config s kept) (ht : step config a s = some t) :
      ∃ kept, Kept config t kept := by
    obtain ⟨kept, h⟩ := h
    obtain h | ⟨request, h, -⟩ := h.step (reachable_exporter hr) ht
    · exact ⟨_, h⟩
    · exact ⟨_, h⟩
  refine hr.invariant ?_ hstep
  rintro s ⟨threads, h0⟩
  obtain ⟨hf, loop, hs⟩ := fresh_init h0
  have hhanded : s.handed = [] := by rw [hs]
  have hacc := (List.append_eq_nil_iff.mp hf.unused).1
  refine ⟨[], ?_, ?_, ?_⟩
  · rw [hhanded]
  · rw [hacc]
    rfl
  · rw [hhanded]
    exact Nat.zero_le _

theorem reachable_shared (hr : (telemetry config).Reachable s) :
    s.shared.Inv Metrics.MetricsRegistry.new.defaultMaxCardinality := by
  refine hr.invariant
    (I := fun s => s.shared.Inv Metrics.MetricsRegistry.new.defaultMaxCardinality) ?_
    fun a s t _ hi ht => ?_
  · rintro s ⟨threads, h0⟩
    exact (State.Inv.init h0).shared
  · cases step_stepped ht with
    | program _ hs | tick _ hs | collect _ _ hs => exact Metrics.step_inv hs hi
    | _ => exact hi

/-- A request as a collector reads it. -/
def MetricsRequest.read (config : TelemetryConfig) (request : MetricsRequest) :
    Otlp.Request Otlp.Metric :=
  requestErased (resourceAttrs config) "rolly" config.serviceVersion
    (request.snapshots.map (MetricSnapshot.read request.startTime request.now))

theorem decode_request {request : MetricsRequest}
    (hne : ∀ snapshot ∈ request.snapshots, 0 < snapshot.size)
    (h : request.encode config = some data) (hl : data.length ≤ Proto.vecCapacity) :
    Otlp.decodeExportMetricsRequest data = some (request.read config) := by
  rw [MetricsRequest.encode, encodeExportMetricsRequest_nodes] at h
  have hs := Proto.short_of_encodeNodes _ h (by simp [Proto.vecCapacity] at hl ⊢; omega)
  obtain ⟨bytes, hb, hd⟩ := decodeRequest_encodeNodes _ _ _ request.snapshots
    (fun snapshot hm => metricNodes_ne_nil _ _ snapshot (hne snapshot hm))
    (fun snapshot hm => reads_metric _ _ snapshot (hne snapshot hm)) hs
  obtain rfl := Option.some.inj (h.symm.trans hb)
  exact hd

theorem decode_requests (requests : List MetricsRequest) (items : List Proto3.Bytes)
    (hne : ∀ request ∈ requests, ∀ snapshot ∈ request.snapshots, 0 < snapshot.size)
    (h : items.map some = requests.map (·.encode config))
    (hl : ∀ data ∈ items, data.length ≤ Proto.vecCapacity) :
    Otlp.decodeExportMetricsRequest items.flatten =
      some ⟨requests.flatMap fun request => (request.read config).resources⟩ := by
  induction requests generalizing items with
  | nil =>
    obtain rfl : items = [] := List.map_eq_nil_iff.mp h
    simp [Otlp.decodeExportMetricsRequest, Otlp.decodeRequest, Proto3.decodeMessage]
  | cons request requests ih =>
    obtain ⟨data, items, rfl, hd, hrest⟩ := List.map_eq_cons_iff.mp h
    have hfirst := decode_request (hne request List.mem_cons_self) hd.symm
      (hl data List.mem_cons_self)
    exact decodeRequest_append hfirst (ih items
      (fun request hm => hne request (List.mem_cons_of_mem _ hm)) hrest
      fun data hm => hl data (List.mem_cons_of_mem _ hm))

/-- The bodies of the POSTs of metrics, one after the other. -/
def metricsBodies (s : State) : Proto3.Bytes :=
  (s.exporter.pool.posts.filter fun post => post.signal = .metrics).flatMap Post.data

/-- The stream of the metrics, from the reads of the loop to a collector. -/
structure Streams (config : TelemetryConfig) (s : State) (kept posted : List MetricsRequest) :
    Prop where
  -- what each read shows, and what was read is sent in this order
  shown : ∀ earlier handle instrument,
    .read loopThread handle instrument :: earlier <:+ s.shared.log → ∃ thread registration,
      .inserted thread registration handle ∈ earlier ∧
        instrument.collect.1 = shownAfter earlier handle registration
  sent : snapshotsOf s.handed <+: snapshotsRead loopThread s.shared.log
  -- what the channel took of it, and what of that the POSTs carry so far
  taken : Kept config s kept
  front : posted <+: kept
  bodies : Otlp.decodeExportMetricsRequest (metricsBodies s) =
    some ⟨posted.flatMap fun request => (request.read config).resources⟩

theorem mem_snapshotsRead {log : List Metrics.Event} (h : snapshot ∈ snapshotsRead thread log) :
    ∃ earlier handle instrument, .read thread handle instrument :: earlier <:+ log ∧
      instrument.collect.1 = some snapshot := by
  obtain ⟨event, hm, hs⟩ := List.mem_flatMap.mp h
  obtain ⟨front, earlier, rfl⟩ := List.append_of_mem (List.mem_reverse.mp hm)
  cases event with
  | read reader handle instrument =>
    dsimp only at hs
    split at hs
    · next heq =>
      subst heq
      exact ⟨earlier, handle, instrument, List.suffix_append _ _, Option.mem_toList.mp hs⟩
    · cases hs
  | _ => cases hs

/-- What the loop reads of an instrument is what the sections before the read make of it. -/
theorem read_shown (hr : (telemetry config).Reachable s)
    (hlog : .read loopThread handle instrument :: earlier <:+ s.shared.log) :
    ∃ thread registration, .inserted thread registration handle ∈ earlier ∧
      instrument.collect.1 = shownAfter earlier handle registration := by
  obtain ⟨thread, registration, hins, rfl⟩ := (reachable_shared hr).told.reads hlog
  exact ⟨thread, registration, hins, rfl⟩

theorem handed_size (hr : (telemetry config).Reachable s) (hm : request ∈ s.handed) :
    ∀ snapshot ∈ request.snapshots, 0 < snapshot.size := by
  intro snapshot hs
  have hread := (reachable_streamed hr).sent.subset (List.mem_flatMap.mpr ⟨request, hm, hs⟩)
  obtain ⟨-, -, instrument, -, hcollect⟩ := mem_snapshotsRead hread
  exact collect_size hcollect

theorem Kept.front (h : Kept config s kept)
    (hfront : items <+: dataOf .metrics s.exporter.channel.accepted) :
    ∃ posted, posted <+: kept ∧ posted.map (·.encode config) = items.map some := by
  obtain ⟨rest, hrest⟩ := hfront
  have haccepted := h.accepted
  rw [← hrest, List.map_append] at haccepted
  obtain ⟨posted, later, rfl, hposted, -⟩ := List.map_eq_append_iff.mp haccepted
  exact ⟨posted, List.prefix_append _ _, hposted⟩

/-- Payloads of such requests, one after the other, are read as these requests. -/
theorem Kept.decode {requests : List MetricsRequest} {items : List Proto3.Bytes}
    (h : Kept config s kept) (hr : (telemetry config).Reachable s)
    (hsize : ∀ data ∈ dataOf .metrics s.exporter.channel.accepted,
      data.length ≤ Proto.vecCapacity) (hsub : requests ⊆ kept)
    (hitems : requests.map (·.encode config) = items.map some) :
    Otlp.decodeExportMetricsRequest items.flatten =
      some ⟨requests.flatMap fun request => (request.read config).resources⟩ := by
  have hne : ∀ request ∈ requests, ∀ snapshot ∈ request.snapshots, 0 < snapshot.size :=
    fun request hm => handed_size hr (h.sublist.subset (hsub hm))
  refine decode_requests requests items hne hitems.symm fun data hd => hsize data ?_
  have hencoded := List.mem_map_of_mem (f := some) hd
  rw [← hitems] at hencoded
  obtain ⟨request, hm, he⟩ := List.mem_map.mp hencoded
  have haccepted := List.mem_map_of_mem (f := (·.encode config)) (hsub hm)
  rw [h.accepted, he] at haccepted
  simpa using haccepted

theorem url_metrics (hm : config.otlpMetricsEndpoint = some endpoint) :
    (exporterConfig config).url .metrics = some (endpoint ++ "/v1/metrics") := by
  simp [exporterConfig, Exporter.ExporterConfig.url, hm]

/-- A collector reads exactly what the loop read, in order, without what was
dropped with a full channel and what is still under way. -/
theorem metrics_streamed (hr : (telemetry config).Reachable s)
    (hm : config.otlpMetricsEndpoint = some endpoint)
    (hsize : ∀ data ∈ dataOf .metrics s.exporter.channel.accepted,
      data.length ≤ Proto.vecCapacity) :
    ∃ kept posted, Streams config s kept posted := by
  have hexporter := reachable_exporter hr
  obtain ⟨kept, hkept⟩ := reachable_kept hr
  obtain ⟨posted, hfront, hposted⟩ :=
    hkept.front (Exporter.sent_prefix hexporter (url_metrics hm))
  refine ⟨kept, posted, fun _ _ _ hlog => read_shown hr hlog, (reachable_streamed hr).sent, hkept,
    hfront, ?_⟩
  rw [metricsBodies, Exporter.bodies_eq hexporter]
  exact hkept.decode hr hsize hfront.subset hposted

end

/-- The counter of `oneUpdate` is posted by the timer after `oneTick`. -/
theorem metrics_streamed_oneTick : ∃ s, (telemetry metricsOnly).Reachable s ∧
    s.exporter.pool.posts.length = 1 ∧ ∃ kept posted, Streams metricsOnly s kept posted := by
  obtain ⟨first, hfirst⟩ := Option.isSome_iff_exists.mp
    (show (init metricsOnly 1).isSome by decide)
  obtain ⟨s, hs, hend⟩ := Option.map_eq_some_iff.mp (Machine.of_run hfirst
    (f := fun first => ((telemetry metricsOnly).run
      (oneUpdate ++ oneTick ++ [.exporter .tick]) first).map fun s =>
        (s.exporter.pool.posts.length, (dataOf .metrics s.exporter.channel.accepted).all fun data =>
          data.length ≤ Proto.vecCapacity)) (y := some (1, true)) (by decide +kernel))
  obtain ⟨hposts, hall⟩ := Prod.mk.inj hend
  have hr : (telemetry metricsOnly).Reachable s := Machine.Reachable.run (.init ⟨1, hfirst⟩) hs
  exact ⟨s, hr, hposts, metrics_streamed hr rfl (by simpa using hall)⟩

end Rolly.Telemetry
