import Mathlib.Data.List.Infix
import Rolly.ExporterReplies
import Rolly.TelemetryLaws

/-!
# What a flush of the guard ships

The flush ships what is in the channel. What the registry holds gets there
only with a tick of the aggregation loop, and the drop does not wait for one.
-/

namespace Rolly.Telemetry

open Proto3 (Bytes)
open Exporter (ExportMessage dataOf before finishedOf Serving)
open Metrics (sectionsOf Registration)

-- ---------------------------------------------------------------------------
-- Updates that were shipped
-- ---------------------------------------------------------------------------

/-- The instrument that the newest event of a log updated. -/
def updates : List Metrics.Event → Option Nat
  | .recorded _ handle _ :: _ => some handle
  | _ => none

/-- The instrument that the aggregation loop read in the newest event. -/
def reads : List Metrics.Event → Option Nat
  | .read thread handle _ :: _ => if thread = loopThread then some handle else none
  | _ => none

/-- What a collect shows of the instrument `handle` after what a log tells. -/
def shownAfter (log : List Metrics.Event) (handle : Nat) (registration : Registration) :
    Option MetricSnapshot :=
  ((registration.instrument Metrics.MetricsRegistry.new.defaultMaxCardinality).replay
    (sectionsOf handle log)).collect.1

/-- The newest update in `updated` is reflected in `requests`: one of them shows
the instrument as it was then or later, unless it had nothing to show. -/
def Reflected (requests : List MetricsRequest) (log updated : List Metrics.Event) (handle : Nat) :
    Prop :=
  ∃ seen thread registration, seen <:+ log ∧ updated <:+ seen ∧
    .inserted thread registration handle ∈ seen ∧
    ∀ snapshot, shownAfter seen handle registration = some snapshot →
      ∃ request ∈ requests, snapshot ∈ request.snapshots

/-- The payloads accepted before the flush `done`. -/
def State.ahead (config : TelemetryConfig) (s : State) (done : Nat) : List MetricsRequest :=
  s.handed.filter fun request => (request.encode config).any fun data =>
    data ∈ dataOf .metrics (before done s.exporter.channel.accepted)

/-- Of these, the ones posted until success or the last failure. -/
def State.processed (config : TelemetryConfig) (s : State) (done : Nat) : List MetricsRequest :=
  (s.ahead config done).filter fun request => (request.encode config).any fun data =>
    data ∈ finishedOf .metrics s.exporter.pool

/-- Once the guard has the answer to its flush, every update that completed
before the drop is in a payload which that flush has processed. -/
def ShipsUpdates (config : TelemetryConfig) (s : State) : Prop :=
  ∀ done, s.guard = .acknowledged done →
    ∀ updated, updated <:+ s.dropped → ∀ handle, updates updated = some handle →
      Reflected (s.processed config done) s.shared.log updated handle

-- ---------------------------------------------------------------------------
-- Runs
-- ---------------------------------------------------------------------------

def NeverFull (config : TelemetryConfig) (s : State) : Prop :=
  s.exporter.channel.queue.length + s.exporter.channel.pending.length <
    (exporterConfig config).channelCapacity

instance (config : TelemetryConfig) (s : State) : Decidable (NeverFull config s) :=
  inferInstanceAs (Decidable (_ < _))

/-- In a tick that is over the aggregation loop has read every instrument after
its last update before the drop. -/
def State.Ticked (s : State) : Prop :=
  ∀ updated ∈ s.dropped.tails, ∀ handle ∈ updates updated,
    ∃ seen ∈ s.ticked.tails, reads seen = some handle ∧ updated <:+ seen

instance (s : State) : Decidable s.Ticked :=
  inferInstanceAs (Decidable (∀ updated ∈ s.dropped.tails, ∀ handle ∈ updates updated,
    ∃ seen ∈ s.ticked.tails, reads seen = some handle ∧ updated <:+ seen))

def entersFlush : Action → State → Bool
  | .exporter (.call (.push i)), s => s.exporter.channel.pending[i]?.any fun
    | .flush _ => true
    | _ => false
  | _, _ => false

/-- The channel is never full, and the flush enters it after those ticks. -/
def FlushTicked (config : TelemetryConfig) (a : Action) (s : State) : Prop :=
  NeverFull config s ∧ (entersFlush a s → s.Ticked)

instance (config : TelemetryConfig) (a : Action) (s : State) :
    Decidable (FlushTicked config a s) :=
  inferInstanceAs (Decidable (_ ∧ (_ → _)))

section
variable {config : TelemetryConfig} {s t : State}

-- ---------------------------------------------------------------------------
-- The exporter
-- ---------------------------------------------------------------------------

/-- The handles of the guard and of the loop. -/
def State.users (s : State) : Nat := if s.loop = .gone then 1 else 2

theorem users_pos : 0 < s.users := by
  unfold State.users
  split <;> omega

/-- Until the guard shuts the exporter down, what was handed over was accepted,
and a flush in the channel has the updates before the drop ahead of it. -/
structure Delivered (config : TelemetryConfig) (s : State) : Prop where
  serving : Serving s.users s.exporter
  accepted : ∀ request ∈ s.handed, ∃ data, request.encode config = some data ∧
    data ∈ dataOf .metrics s.exporter.channel.accepted
  unflushed : s.guard = .held →
    ∀ done, .flush done ∉ s.exporter.channel.accepted ++ s.exporter.channel.pending
  flushed : ∀ done, .flush done ∈ s.exporter.channel.accepted →
    ∀ updated, updated <:+ s.dropped → ∀ handle, updates updated = some handle →
      Reflected (s.ahead config done) s.shared.log updated handle

theorem Reflected.mono (h : Reflected requests log updated handle)
    (hr : requests ⊆ requests') (hl : log <:+ log') :
    Reflected requests' log' updated handle := by
  obtain ⟨seen, thread, registration, hseen, hup, hins, hshown⟩ := h
  refine ⟨seen, thread, registration, hseen.trans hl, hup, hins, fun snapshot hs => ?_⟩
  obtain ⟨request, hm, hsnap⟩ := hshown snapshot hs
  exact ⟨request, hr hm, hsnap⟩

theorem mem_ahead : request ∈ s.ahead config done ↔ request ∈ s.handed ∧
    ∃ data, request.encode config = some data ∧
      data ∈ dataOf .metrics (before done s.exporter.channel.accepted) := by
  simp [State.ahead, Option.any_eq_true]

theorem ahead_subset {exporter : Exporter.State} {added : List ExportMessage}
    (hm : .flush done ∈ s.exporter.channel.accepted)
    (ha : exporter.channel.accepted = s.exporter.channel.accepted ++ added)
    (ht : t.exporter = exporter) (hh : s.handed ⊆ t.handed) :
    s.ahead config done ⊆ t.ahead config done := by
  intro request hr
  obtain ⟨hmem, data, he, hd⟩ := mem_ahead.mp hr
  rw [← Exporter.before_append hm added, ← ha, ← ht] at hd
  exact mem_ahead.mpr ⟨hh hmem, data, he, hd⟩

theorem State.Ticked.reflected (h : s.Ticked)
    (hi : s.shared.Inv Metrics.MetricsRegistry.new.defaultMaxCardinality) (ha : Aggregated s)
    (hu : updated <:+ s.dropped) (hh : updates updated = some handle) :
    Reflected s.handed s.shared.log updated handle := by
  obtain ⟨seen, hseen, hread, hup⟩ := h updated ((List.mem_tails _ _).mpr hu) handle hh
  rw [List.mem_tails] at hseen
  unfold reads at hread
  split at hread
  · rename_i thread other instrument earlier
    obtain ⟨rfl, rfl⟩ := by simpa using hread
    -- the read itself is no update
    have hearlier : updated <:+ earlier := by
      obtain rfl | hs := List.suffix_cons_iff.mp hup
      · cases hh
      · exact hs
    have hlog := hseen.trans ha.ticked
    obtain ⟨thread, registration, hins, hinstrument⟩ := hi.told.reads hlog
    refine ⟨earlier, thread, registration, (List.suffix_cons _ _).trans hlog, hearlier, hins,
      fun snapshot hs => ?_⟩
    rw [shownAfter, ← hinstrument] at hs
    exact ha.shipped _ _ (hseen.subset List.mem_cons_self) snapshot hs
  · cases hread

theorem Delivered.onExporter {exporter : Exporter.State} (h : Delivered config s)
    (hi : s.shared.Inv Metrics.MetricsRegistry.new.defaultMaxCardinality) (ha : Aggregated s)
    (ht : Exporter.step (exporterConfig config) a s.exporter = some exporter)
    (hs : a ≠ .call .shutdown) (hd : a ≠ .call .drop) (hf : s.guard = .held → a ≠ .call .flush)
    (hticked : ∀ i done, a = .call (.push i) →
      s.exporter.channel.pending[i]? = some (.flush done) → s.Ticked) :
    Delivered config { s with exporter } := by
  obtain ⟨added, hacc, hadded⟩ := Exporter.accepted_step ht
  refine { serving := ?_, accepted := fun request hm => ?_, unflushed := fun hg done hm => ?_,
           flushed := fun done hm updated hu handle hh => ?_ }
  · exact h.serving.step users_pos ht hs hd
  · obtain ⟨data, he, hdata⟩ := h.accepted request hm
    refine ⟨data, he, ?_⟩
    rw [show State.exporter { s with exporter } = exporter from rfl, hacc, Exporter.dataOf_append]
    exact List.mem_append_left _ hdata
  · -- no flush comes in but by the call
    exact h.unflushed hg done (Exporter.flush_step ht (hf hg) hm)
  · change .flush done ∈ exporter.channel.accepted at hm
    by_cases hold : .flush done ∈ s.exporter.channel.accepted
    · exact (h.flushed done hold updated hu handle hh).mono
        (ahead_subset hold hacc rfl (List.Subset.refl _)) List.suffix_rfl
    · rw [hacc, List.mem_append] at hm
      have hnew := hadded _ (hm.resolve_left hold)
      obtain hdata | ⟨i, hpush, hpending⟩ := hnew
      · cases hdata
      · refine ((hticked i done hpush hpending).reflected hi ha hu hh).mono ?_ List.suffix_rfl
        intro request hm
        obtain ⟨data, he, hdata⟩ := h.accepted request hm
        refine mem_ahead.mpr ⟨hm, data, he, ?_⟩
        rw [show State.exporter { s with exporter } = exporter from rfl, hacc,
          Exporter.before_fresh hold, Exporter.dataOf_append]
        exact List.mem_append_left _ hdata

theorem Delivered.onRegistry (h : Delivered config s)
    (hs : Metrics.step a s.shared = some shared) (hl : loop = .gone ↔ s.loop = .gone) :
    Delivered config { s with shared, loop } := by
  refine { h with serving := ?_, flushed := fun done hm updated hu handle hh => ?_ }
  · simpa only [State.users, hl] using h.serving
  · exact (h.flushed done hm updated hu handle hh).mono (List.Subset.refl _) (log_suffix hs)

theorem send_accepted {exporter : Exporter.State}
    (hs : Exporter.step (exporterConfig config) (.call (.sendMetrics data)) s.exporter =
      some exporter) (hslot : s.exporter.channel.hasSlot (exporterConfig config)) :
    exporter.channel.accepted = s.exporter.channel.accepted ++ [.metrics data] := by
  cases Exporter.step_stepped hs with
  | call hc =>
    cases Exporter.call_called hc with
    | sent hk =>
      cases hk
      rfl
    | refused _ hno => exact absurd hslot hno

theorem Delivered.step (h : Delivered config s)
    (hr : (Exporter.exporter (exporterConfig config)).Reachable s.exporter)
    (hi : s.shared.Inv Metrics.MetricsRegistry.new.defaultMaxCardinality) (ha : Aggregated s)
    (hp : FlushTicked config a s) (ht : Stepped config s a t) (hstop : t.guard ≠ .stopping)
    (hgone : t.guard ≠ .gone) : Delivered config t := by
  cases ht with
  | program hne hs => exact h.onRegistry hs Iff.rfl
  | exporter hu hs =>
    refine h.onExporter hi ha hs ?_ ?_ (fun _ => ?_) fun i done he hm => ?_
    · rintro rfl
      cases hu
    · rintro rfl
      cases hu
    · rintro rfl
      cases hu
    · subst he
      exact hp.2 (by simp [entersFlush, hm])
  | start hl => exact { h with serving := by simpa [State.users, hl] using h.serving }
  | tick hl hs => exact h.onRegistry hs (by simp [hl])
  | collect hl hthread hs =>
    exact h.onRegistry hs (by simp [hl, afterStep_ne_gone])
  | skip hl => exact { h with serving := by simpa [State.users, hl] using h.serving }
  | @send snapshots now data exporter hl he hs =>
    have hacc := send_accepted hs (h.serving.slot hr hp.1)
    have hd : Delivered config { s with exporter } := h.onExporter hi ha hs (by simp) (by simp)
      (by simp) (by simp)
    refine { hd with serving := ?_, accepted := fun request hm => ?_
                     flushed := fun done hm updated hu handle hh => ?_ }
    · simpa [State.users, hl] using hd.serving
    · obtain hm | hm := List.mem_append.mp hm
      · exact hd.accepted request hm
      · obtain rfl := List.mem_singleton.mp hm
        exact ⟨data, he, by simp [hacc, dataOf, ExportMessage.data?]⟩
    · exact (hd.flushed done hm updated hu handle hh).mono
        (ahead_subset hm (List.append_nil _).symm rfl (List.subset_append_left _ _))
        List.suffix_rfl
  | panic hl hs =>
    have hserving : Serving (1 + 1) s.exporter := by simpa [State.users, hl] using h.serving
    cases Exporter.step_stepped hs with
    | call hc =>
      cases Exporter.call_called hc with
      | sent hk | refused hk => cases hk
      | drop => exact { h with serving := hserving.drop hs }
  | drop hg =>
    refine { h with unflushed := fun hheld => ?_, flushed := fun done hm => ?_ }
    · cases hheld
    · exact absurd (List.mem_append_left _ hm) (h.unflushed hg done)
  | flush hg hs =>
    have hd := h.onExporter hi ha hs (by simp) (by simp) (by simp [hg]) (by simp)
    exact { hd with unflushed := fun hheld => by cases hheld }
  | acknowledge hg hd => exact { h with unflushed := fun hheld => by cases hheld }
  | dropOnly | release => exact absurd rfl hgone
  | shutdown => exact absurd rfl hstop

-- ---------------------------------------------------------------------------
-- The invariant
-- ---------------------------------------------------------------------------

structure State.Inv (config : TelemetryConfig) (s : State) : Prop where
  shared : s.shared.Inv Metrics.MetricsRegistry.new.defaultMaxCardinality
  exporter : (Exporter.exporter (exporterConfig config)).Reachable s.exporter
  aggregated : Aggregated s
  acknowledged : ∀ done, s.guard = .acknowledged done → done ∈ s.exporter.replies
  delivered : s.guard ≠ .stopping → s.guard ≠ .gone → Delivered config s

theorem exporter_step {exporter exporter' : Exporter.State}
    (hr : (Exporter.exporter (exporterConfig config)).Reachable exporter)
    (hs : Exporter.step (exporterConfig config) a exporter = some exporter') :
    (Exporter.exporter (exporterConfig config)).Reachable exporter' :=
  hr.step (a := a) hs

/-- An exporter with `users` handles to which nothing happened yet. -/
structure Fresh (config : TelemetryConfig) (users : Nat) (exporter : Exporter.State) : Prop where
  reachable : (Exporter.exporter (exporterConfig config)).Reachable exporter
  serving : Serving users exporter
  unused : exporter.channel.accepted ++ exporter.channel.pending = []

theorem fresh_start (h : Exporter.start (exporterConfig config) = some exporter) :
    Fresh config 1 exporter := by
  have hr : (Exporter.exporter (exporterConfig config)).Reachable exporter := .init h
  simp only [Exporter.start, Option.ite_none_left_eq_some, Option.some.injEq] at h
  obtain ⟨-, rfl⟩ := h
  exact ⟨hr, ⟨by simp, by simp, by simp⟩, by simp⟩

theorem Fresh.clone {exporter' : Exporter.State} (h : Fresh config users exporter)
    (hs : Exporter.step (exporterConfig config) (.call .clone) exporter = some exporter') :
    Fresh config (users + 1) exporter' := by
  have hr := exporter_step h.reachable hs
  cases Exporter.step_stepped hs with
  | call hc =>
    cases Exporter.call_called hc with
    | sent hk | refused hk => cases hk
    | clone =>
      exact ⟨hr, { h.serving with handles := Nat.succ_le_succ h.serving.handles }, h.unused⟩

theorem fresh_init (h : init config threads = some s) :
    Fresh config s.users s.exporter ∧ ∃ loop, s = {
      shared := Metrics.start Metrics.MetricsRegistry.new.defaultMaxCardinality (threads + 1)
      exporter := s.exporter, loop } := by
  unfold init at h
  dsimp only at h
  split at h
  · simp only [Option.bind_eq_bind, Option.bind_eq_some_iff, Option.pure_def,
      Option.some.injEq] at h
    obtain ⟨first, hfirst, second, hsecond, third, hthird, rfl⟩ := h
    have h1 := fresh_start hfirst
    have h2 : Fresh config 1 second := by
      split at hsecond
      · have h2 := h1.clone hsecond
        exact { h2 with serving := h2.serving.mono (by decide) }
      · cases hsecond
        exact h1
    split at hthird
    · rename_i hmetrics
      simp only [hmetrics, if_true]
      exact ⟨h2.clone hthird, _, rfl⟩
    · rename_i hmetrics
      cases hthird
      simp only [hmetrics]
      exact ⟨h2, _, rfl⟩
  · cases h

theorem State.Inv.init (h : init config threads = some s) : s.Inv config := by
  obtain ⟨hf, loop, hs⟩ := fresh_init h
  have hguard : s.guard = .held := by rw [hs]
  have hlog : s.shared.log = [] := by
    rw [hs]
    rfl
  have hhanded : s.handed = [] := by rw [hs]
  have hticked : s.ticked = [] := by rw [hs]
  refine { shared := ?_, exporter := hf.reachable, aggregated := ?_, acknowledged := ?_
           delivered := fun _ _ => ?_ }
  · rw [hs]
    exact Metrics.inv_start
  · exact { reads := by simp [hlog, Seen], ticked := by simp [hlog, hticked]
            shipped := by simp [hticked, Seen] }
  · simp [hguard]
  · refine { serving := hf.serving, accepted := by simp [hhanded]
             unflushed := by simp [hf.unused], flushed := fun done hm => ?_ }
    have := List.append_eq_nil_iff.mp hf.unused
    rw [this.1] at hm
    cases hm

theorem replies_grow {exporter : Exporter.State}
    (hs : Exporter.step (exporterConfig config) a s.exporter = some exporter)
    (hd : done ∈ s.exporter.replies) : done ∈ exporter.replies := by
  obtain he | ⟨_, -, -, he⟩ := Exporter.replies_step hs
  · rwa [he]
  · rw [he]
    exact List.mem_append_left _ hd

theorem State.Inv.step (hi : s.Inv config) (hp : FlushTicked config a s)
    (ht : step config a s = some t) : t.Inv config := by
  have hst := step_stepped ht
  refine { shared := ?_, exporter := ?_, aggregated := hi.aggregated.step ht
           acknowledged := ?_, delivered := fun hstop hgone => ?_ }
  · cases hst with
    | program _ hs | tick _ hs | collect _ _ hs => exact Metrics.step_inv hs hi.shared
    | _ => exact hi.shared
  · cases hst with
    | exporter _ hs | send _ _ hs | panic _ hs | dropOnly _ _ hs | flush _ hs | shutdown _ hs
    | release _ hs => exact exporter_step hi.exporter hs
    | _ => exact hi.exporter
  · cases hst with
    | exporter _ hs | send _ _ hs | panic _ hs =>
      exact fun done hg => replies_grow hs (hi.acknowledged done hg)
    | acknowledge hg hd =>
      rintro _ ⟨⟩
      exact hd
    | drop | dropOnly | flush | shutdown | release => rintro _ ⟨⟩
    | _ => exact hi.acknowledged
  · have hactive : s.guard ≠ .stopping ∧ s.guard ≠ .gone := by
      cases hst with
      | drop hg | dropOnly hg _ _ | flush hg _ | acknowledge hg _ | shutdown hg _ => simp [hg]
      | release => exact absurd rfl hgone
      | _ => exact ⟨hstop, hgone⟩
    exact (hi.delivered hactive.1 hactive.2).step hi.exporter hi.shared hi.aggregated hp hst
      hstop hgone

/-- If the flush of the guard enters the channel after a tick has shipped every
instrument updated before the drop, then it processes all those updates. -/
theorem flush_ships (endpoint : String) (hm : config.otlpMetricsEndpoint = some endpoint)
    (h : (telemetry config).ReachableBy (FlushTicked config) s) : ShipsUpdates config s := by
  have hi : s.Inv config := h.invariant (fun _ ⟨_, h0⟩ => .init h0) fun _ _ _ _ hi hp ht =>
    hi.step hp ht
  intro done hg updated hu handle hh
  have hd := hi.delivered (by simp [hg]) (by simp [hg])
  obtain ⟨hacc, hprocessed⟩ := Exporter.replied_complete hi.exporter (hi.acknowledged done hg)
  refine (hd.flushed done hacc updated hu handle hh).mono ?_ List.suffix_rfl
  intro request hr
  obtain ⟨-, data, he, hdata⟩ := mem_ahead.mp hr
  refine List.mem_filter.mpr ⟨hr, ?_⟩
  have hurl : (exporterConfig config).url .metrics = some (endpoint ++ "/v1/metrics") := by
    simp [exporterConfig, Exporter.ExporterConfig.url, hm]
  simpa [he] using hprocessed .metrics _ hurl hdata

end

-- ---------------------------------------------------------------------------
-- Runs with one update
-- ---------------------------------------------------------------------------

def runBy (config : TelemetryConfig) (threads : Nat) (P : Action → State → Prop)
    [∀ a s, Decidable (P a s)] (actions : List Action) : Option State :=
  (init config threads).bind (((telemetry config).guard P).run actions)

theorem reachableBy_of_run {P : Action → State → Prop} [∀ a s, Decidable (P a s)]
    (h : runBy config threads P actions = some s) : (telemetry config).ReachableBy P s := by
  obtain ⟨s₀, h0, hr⟩ := Option.bind_eq_some_iff.mp h
  exact .of_run ⟨threads, h0⟩ hr

def metricsOnly : TelemetryConfig where
  serviceName := "svc"
  serviceVersion := "1"
  environment := "e2e"
  otlpTracesEndpoint := none
  otlpLogsEndpoint := none
  otlpMetricsEndpoint := some "http://localhost:4318"
  resourceAttributes := []

def requests : Registration := .counter "requests" "" none

/-- A thread of the program creates a counter and adds to it. -/
def oneUpdate : List Action :=
  [.program (.register 1 requests), .program (.acquire 1), .program (.acquire 1),
    .program (.record 1 0 ⟨.add 1, [("method", "GET")], ⟨true, none, 0⟩⟩),
    .program (.acquire 1)]

def onceUpdated : List Metrics.Event :=
  [.recorded 1 0 ⟨.add 1, [("method", "GET")], ⟨true, none, 0⟩⟩, .returned 1 requests 0,
    .inserted 1 requests 0]

def oneTick : List Action :=
  [.start 0, .tick, .collect (.acquire 0), .collect (.visit 0 0), .collect (.release 0),
    .collect (.acquire 0), .collect (.release 0), .collect (.acquire 0), .collect (.release 0),
    .send 1, .exporter .recv]

/-- The drop of the guard up to the answer, with what the exporter does for the
flush. -/
def dropGuard (posting : List Exporter.Action) : List Action :=
  [.drop true false, .flush, .exporter (.call (.push 0)), .exporter .recv] ++
    posting.map .exporter ++ [.exporter .reply, .acknowledge]

/-- The counter is dropped with the guard: the flush waits for no tick. -/
theorem flush_loses_updates : ¬ ∀ config endpoint s,
    config.otlpMetricsEndpoint = some endpoint →
    (telemetry config).ReachableBy (fun _ s => NeverFull config s) s → ShipsUpdates config s := by
  intro h
  obtain ⟨s, hs, hend⟩ := Option.map_eq_some_iff.mp (show (runBy metricsOnly 1
    (fun _ s => NeverFull metricsOnly s) (oneUpdate ++ dropGuard [])).map (fun s =>
      (s.guard, s.dropped, s.shared.log, s.processed metricsOnly 0)) =
    some (.acknowledged 0, onceUpdated, onceUpdated, []) by decide +kernel)
  simp only [Prod.mk.injEq] at hend
  obtain ⟨hg, hdropped, hlog, hprocessed⟩ := hend
  have hships := h metricsOnly _ s rfl (reachableBy_of_run hs) 0 hg s.dropped List.suffix_rfl 0
    (by rw [hdropped]; rfl)
  rw [hprocessed, hdropped, hlog] at hships
  obtain ⟨seen, thread, registration, hseen, hup, hins, hshown⟩ := hships
  obtain rfl := hseen.eq_of_length_le hup.length_le
  obtain rfl : registration = requests := by
    simp only [onceUpdated, List.mem_cons, reduceCtorEq, Metrics.Event.inserted.injEq,
      List.not_mem_nil, false_or, or_false] at hins
    exact hins.2.1
  obtain ⟨snapshot, hsnap⟩ := Option.isSome_iff_exists.mp
    (show (shownAfter onceUpdated 0 requests).isSome by decide +kernel)
  obtain ⟨request, hm, -⟩ := hshown snapshot hsnap
  cases hm

theorem flush_ships_update : ∃ s, runBy metricsOnly 1 (FlushTicked metricsOnly)
      (oneUpdate ++ oneTick ++ dropGuard [.task 0 .acquire, .task 0 (.respond true), .join 0]) =
      some s ∧
    onceUpdated <:+ s.dropped ∧ s.guard = .acknowledged 0 ∧
    (s.processed metricsOnly 0).length = 1 ∧ ShipsUpdates metricsOnly s := by
  obtain ⟨s, hs, hend⟩ := Option.map_eq_some_iff.mp (show (runBy metricsOnly 1
    (FlushTicked metricsOnly) (oneUpdate ++ oneTick ++
      dropGuard [.task 0 .acquire, .task 0 (.respond true), .join 0])).map (fun s =>
        (decide (onceUpdated <:+ s.dropped), s.guard, (s.processed metricsOnly 0).length)) =
    some (true, .acknowledged 0, 1) by decide +kernel)
  simp only [Prod.mk.injEq, decide_eq_true_eq] at hend
  obtain ⟨hd, hg, hp⟩ := hend
  exact ⟨s, hs, hd, hg, hp, flush_ships _ rfl (reachableBy_of_run hs)⟩

end Rolly.Telemetry
